-- The shapes of type nodes. A node says a leaf, an array or a record, or it is malformed in
-- one of a few ways, each with its own error. A proof about the reading of types goes by these
-- shapes: there is one induction for nodes and lists of fields, and one equation for each case.
import Netlist.Document.TypeNode

namespace Netlist.Document

/-- A node that says no type, whatever its parts say, and what the error tells of it. -/
inductive Malformed : Json → String → Prop
  | word {word : String} (unknown : TypeTable.leafByName word = none) :
    Malformed (.string word) s!"{word} is not a type!"
  | array {parts : List Json} (other : ∀ length element, parts ≠ [length, element]) :
    Malformed (.array (.string "Array" :: parts))
      "Array type must be [\"Array\", length, element]"
  | record {parts : List Json} (other : ∀ entries, parts ≠ [.array entries]) :
    Malformed (.array (.string "Record" :: parts))
      "Record type must be [\"Record\", [[field, type], ...]]"
  | kind {kind : String} (notArray : kind ≠ "Array") (notRecord : kind ≠ "Record")
    (parts : List Json) : Malformed (.array (.string kind :: parts)) s!"{kind} is not a type!"
  | parts {items : List Json} (other : ∀ kind parts, items ≠ .string kind :: parts) :
    Malformed (.array items) "compound type node must start with a kind name"
  | node {node : Json} (notWord : ∀ word, node ≠ .string word)
    (notArray : ∀ items, node ≠ .array items) :
    Malformed node s!"Error parsing Type: {node.compact}"

/-- An element of a record's list that is no field. -/
def NoField (entry : Json) : Prop := ∀ name node, entry ≠ .array [.string name, node]

/-- The induction goes down through the elements of arrays and the fields of records. -/
theorem typeNode_induction {P : Json → Prop} {Q : List Json → Prop}
    (leaf : ∀ word id, TypeTable.leafByName word = some id → P (.string word))
    (array : ∀ length element, P element → P (.array [.string "Array", length, element]))
    (record : ∀ entries, Q entries → P (.array [.string "Record", .array entries]))
    (malformed : ∀ node text, Malformed node text → P node)
    (nil : Q [])
    (field : ∀ name node rest, P node → Q rest → Q (.array [.string name, node] :: rest))
    (noField : ∀ entry rest, NoField entry → Q (entry :: rest)) (node : Json) : P node := by
  refine readType.induct P (fun parts => P (.array (.string "Record" :: parts))) Q
    (fun parts => P (.array (.string "Array" :: parts)))
    ?_ ?_ ?_ ?_ ?_ ?_ ?_ ?_ ?_ ?_ ?_ ?_ ?_ ?_ node
  · exact leaf
  · exact fun _ unknown => malformed _ _ (.word unknown)
  · exact fun _ ih => ih
  · exact fun _ _ ih => ih
  · exact fun _ parts notArray notRecord => malformed _ _ (.kind notArray notRecord parts)
  · exact fun _ other => malformed _ _ (.parts other)
  · exact fun _ notWord _ notArray => malformed _ _ (.node notWord notArray)
  · exact record
  · exact fun _ other => malformed _ _ (.record other)
  · exact nil
  · exact field
  · exact noField
  · exact array
  · exact fun _ other => malformed _ _ (.array other)

/-! ## What is read -/

theorem readType_leaf {word : String} {id : TypeId} (leaf : TypeTable.leafByName word = some id) :
    readType (.string word) = pure id := by
  simp only [readType, leaf]

theorem readType_array (length element : Json) :
    readType (.array [.string "Array", length, element]) = (do
      let n ← readLength length
      Edit.array (← readType element) n) := by
  rw [readType, if_pos rfl, readArray]

theorem readType_record (entries : List Json) :
    readType (.array [.string "Record", .array entries]) = (do
      (Edit.record (← readFields entries)).within .ofGraph) := by
  rw [readType, if_neg (by decide), if_pos rfl, readRecord]

theorem Malformed.readType {node : Json} {text : String} (h : Malformed node text) :
    Document.readType node = Edit.fail (.type text) := by
  cases h with
  | word unknown => simp only [Document.readType, unknown]
  | array other =>
    rw [Document.readType, if_pos rfl, readArray]
    exact other
  | record other =>
    rw [Document.readType, if_neg (by decide), if_pos rfl, readRecord]
    exact other
  | kind notArray notRecord => rw [Document.readType, if_neg notArray, if_neg notRecord]
  | parts other =>
    rw [Document.readType]
    exact other
  | node notWord notArray =>
    rw [Document.readType]
    · exact notWord
    · exact fun kind parts => notArray _
    · exact notArray

theorem NoField.readFields {entry : Json} (h : NoField entry) (rest : List Json) :
    Document.readFields (entry :: rest) =
      Edit.fail (.type s!"Record field must be [name, type], found {entry.compact}") := by
  rw [Document.readFields]
  exact h

end Netlist.Document
