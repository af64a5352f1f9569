-- The program: its command line runs on the files of the disk.
import Netlist.CommandLine.Run

namespace Netlist

/-- The reason for which the disk refuses a file. -/
def FileError.ofDisk : IO.Error → FileError
  | .noFileOrDirectory .. => .notFound
  | .inappropriateType _ code _ => if code = 21 then .isAFolder else .notAFolder
  | .invalidArgument _ code reason =>
    if code = 36 then .nameTooLong else .other s!"{reason} (os error {code})"
  | .permissionDenied _ code reason => .other s!"{reason} (os error {code})"
  | e => .other (toString e)

instance : FileAccess IO where
  readText path := do
    try
      match String.fromUTF8? (← IO.FS.readBinFile path) with
      | some text => return .ok text
      | none => return .error .notText
    catch e => return .error (.ofDisk e)
  writeText path text := do
    try
      IO.FS.writeFile path text
      return .ok ()
    catch e => return .error (.ofDisk e)
  isThere path := do
    try
      let _ ← IO.FS.Handle.mk path .read
      return true
    catch e =>
      let reason := FileError.ofDisk e
      return reason != .notFound && reason != .notAFolder && reason != .nameTooLong

end Netlist

def main (words : List String) : IO UInt32 := do
  let result : Netlist.CommandLine.Result ← Netlist.CommandLine.run words
  IO.print result.stdout
  IO.eprint result.stderr
  return result.exit.toUInt32
