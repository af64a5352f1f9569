-- Settings of loads and saves, and the file that gives them. Every setting has a
-- default, so a file may be empty or missing.
import Netlist.Files
import Netlist.Toml.Reader

namespace Netlist

/-- The settings that a project may change. -/
structure Settings where
  /-- Whether a load refuses arguments that no parameter asks for. -/
  strict : Bool
  /-- Blanks for each level of a saved document; with none it is on one line. -/
  indent : Nat
  deriving DecidableEq, Repr

/-- Why there are no settings: the file is not read, is no TOML of the right shape, or asks
for a value that is not allowed. -/
inductive SettingsError where
  | io (reason : String)
  | parse (reason : String)
  | invalid (reason : String)
  deriving DecidableEq, Repr

def SettingsError.message : SettingsError → String
  | io reason => s!"failed to read configuration: {reason}"
  | parse reason => s!"failed to parse configuration: {reason}"
  | invalid reason => s!"validation error: {reason}"

namespace Settings

def default : Settings := ⟨false, 2⟩

instance : Inhabited Settings := ⟨default⟩

/-- The greatest indentation. -/
def maxIndent : Nat := 16

/-- The name of the settings file in a folder. -/
def fileName : String := "weft.toml"

/-! ## From TOML -/

def readStrict (s : Settings) : Toml.Value → Option Settings
  | .bool strict => some { s with strict }
  | _ => none

def readIndent (s : Settings) : Toml.Value → Option Settings
  | .int i => if 0 ≤ i then some { s with indent := i.toNat } else none
  | _ => none

/-- Reads a section with one setting. It is a table that has no other key, or an array
whose first item is the setting. -/
def readSection (key : String) (setting : Settings → Toml.Value → Option Settings) (s : Settings) :
    Toml.Value → Option Settings
  | .table entries => entries.foldlM (fun s e => if e.1 = key then setting s e.2 else none) s
  | .array [] => some s
  | .array (v :: _) => setting s v
  | _ => none

/-- The settings of a whole file, which has no sections but these. -/
def ofToml? : Toml.Value → Option Settings
  | .table entries =>
    entries.foldlM (fun s e =>
      if e.1 = "load" then readSection "reject_unknown_config_keys" readStrict s e.2
      else if e.1 = "save" then readSection "indent" readIndent s e.2
      else none) default
  | _ => none

def validate (s : Settings) : Except SettingsError Settings :=
  if s.indent ≤ maxIndent then .ok s
  else .error (.invalid s!"save.indent must be at most {maxIndent}, found {s.indent}")

/-- The settings in a text. -/
def ofText (text : String) : Except SettingsError Settings :=
  match Toml.parse text with
  | .error e => .error (.parse e.message)
  | .ok v =>
    match ofToml? v with
    | some s => s.validate
    | none => .error (.parse "unknown setting, or a value of the wrong type")

/-! ## From files -/

/-- The settings in a file's content. -/
def ofContent (content : Except FileError String) : Except SettingsError Settings :=
  match content with
  | .ok text => ofText text
  | .error e => .error (.io e.message)

variable {m : Type → Type} [Monad m] [FileAccess m]

/-- The settings in a file, which must be there. -/
def ofFile (path : String) : m (Except SettingsError Settings) := do
  return ofContent (← FileAccess.readText path)

/-- The path of a name in a folder. -/
def joinPath (folder name : String) : String :=
  if folder.isEmpty ∨ folder.endsWith "/" then folder ++ name else folder ++ "/" ++ name

/-- The settings in the file of a folder, or the defaults if it has none. -/
def ofFolder (folder : String) : m (Except SettingsError Settings) := do
  let path := joinPath folder fileName
  if ← FileAccess.isThere path then ofFile path else return .ok default

end Settings

end Netlist
