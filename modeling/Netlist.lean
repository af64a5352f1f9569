import Netlist.Main
import Netlist.Proofs.Accepted
import Netlist.Proofs.Appends
import Netlist.Proofs.Arguments
import Netlist.Proofs.Closed
import Netlist.Proofs.CurrentDrafts
import Netlist.Proofs.ExactBindings
import Netlist.Proofs.Formatted
import Netlist.Proofs.InPlace
import Netlist.Proofs.InsertionOrder
import Netlist.Proofs.Links
import Netlist.Proofs.Merged
import Netlist.Proofs.PassOrder
import Netlist.Proofs.Reordered
import Netlist.Proofs.Reports
import Netlist.Proofs.Saved.Isomorphic
import Netlist.Proofs.StrictLoad
import Netlist.Proofs.Unobservable
