-- The words of a command line. They are read from left to right: an option may want the
-- next word as its value, and the name of a command starts a new set of options. Some
-- options belong to every command and may stand before it or after it.

namespace Netlist.CommandLine

/-- Whether reports are coloured; `auto` asks the terminal. -/
inductive ColorChoice where
  | auto
  | always
  | never
  deriving DecidableEq, Repr

/-- Whether reports are for a reader or for a machine. -/
inductive ReportFormat where
  | text
  | json
  deriving DecidableEq, Repr

/-- The options that every command has. -/
structure Options where
  quiet : Bool
  verbose : Bool
  color : ColorChoice
  /-- The settings file to use in place of the one beside the design. -/
  config : Option String
  deriving DecidableEq, Repr

/-- A command with the options of its own. -/
inductive Command where
  /-- Load a design and report on it. -/
  | check (file : String) (format : ReportFormat) (strict : Bool)
  /-- Load a design and write it back in canonical form. -/
  | fmt (file : String) (output : Option String) (indent : Option Nat)
  deriving DecidableEq, Repr

/-- What a command line asks for. -/
inductive Request where
  | version
  | help
  | run (options : Options) (command : Command)
  deriving DecidableEq, Repr

/-! ## Switches -/

/-- A word that begins with a dash, by its meaning. -/
inductive Switch where
  | quiet
  | verbose
  | color
  | config
  | version
  | help
  | format
  | strict
  | output
  | indent
  deriving DecidableEq, Repr

/-- Before the command, or in one of the commands. -/
inductive Level where
  | root
  | check
  | fmt
  deriving DecidableEq, Repr

namespace Switch

def takesValue : Switch → Bool
  | color | config | format | output | indent => true
  | _ => false

/-- The long name and the short one. -/
def spelling : Switch → String × Option Char
  | quiet => ("quiet", some 'q')
  | verbose => ("verbose", some 'v')
  | color => ("color", none)
  | config => ("config", none)
  | version => ("version", some 'V')
  | help => ("help", some 'h')
  | format => ("format", some 'f')
  | strict => ("strict", none)
  | output => ("output", some 'o')
  | indent => ("indent", none)

/-- The switches of a level. -/
def available : Level → List Switch
  | .root => [quiet, verbose, color, config, help, version]
  | .check => [quiet, verbose, color, config, help, format, strict]
  | .fmt => [quiet, verbose, color, config, help, output, indent]

def ofLong? (level : Level) (word : String) : Option Switch :=
  (available level).find? fun s => s.spelling.1 == word

def ofShort? (level : Level) (c : Char) : Option Switch :=
  (available level).find? fun s => s.spelling.2 == some c

end Switch

/-! ## Values -/

def color? : String → Option ColorChoice
  | "auto" => some .auto
  | "always" => some .always
  | "never" => some .never
  | _ => none

def format? : String → Option ReportFormat
  | "text" => some .text
  | "json" => some .json
  | _ => none

/-- A path is any word that is not empty. -/
def path? (word : String) : Option String := if word.isEmpty then none else some word

/-- A number of 64 bits. A plus sign and zeros may stand in front. -/
def number? (word : String) : Option Nat :=
  let digits := match word.toList with
    | '+' :: rest => rest
    | cs => cs
  if digits.isEmpty ∨ digits.any (fun c => c < '0' ∨ '9' < c) then none
  else
    let n := digits.foldl (fun n c => 10 * n + (c.toNat - '0'.toNat)) 0
    if n < UInt64.size then some n else none

/-! ## Reading the words of one level -/

/-- The switches that were given at one level, and the words that are no switches. -/
structure Given where
  quiet : Bool
  verbose : Bool
  strict : Bool
  color : Option ColorChoice
  config : Option String
  format : Option ReportFormat
  output : Option String
  indent : Option Nat
  file : Option String
  deriving DecidableEq, Repr

def Given.nothing : Given := ⟨false, false, false, none, none, none, none, none, none⟩

/-- What is wrong with a command line. -/
inductive UsageError where
  | unknownSwitch (word : String)
  | unknownCommand (word : String)
  | unexpectedWord (word : String)
  | unexpectedValue (s : Switch)
  | missingValue (s : Switch)
  | badValue (s : Switch) (word : String)
  | repeated (s : Switch)
  | missingFile
  | missingCommand
  deriving DecidableEq, Repr

def UsageError.message : UsageError → String
  | unknownSwitch word => s!"unexpected argument '{word}' found"
  | unknownCommand word => s!"unrecognized subcommand '{word}'"
  | unexpectedWord word => s!"unexpected argument '{word}' found"
  | unexpectedValue s => s!"unexpected value for '--{s.spelling.fst}'"
  | missingValue s => s!"a value is required for '--{s.spelling.fst}'"
  | badValue s word => s!"invalid value '{word}' for '--{s.spelling.fst}'"
  | repeated s => s!"the argument '--{s.spelling.fst}' cannot be used multiple times"
  | missingFile => "the argument '<FILE>' was not provided"
  | missingCommand => "a subcommand is required but was not provided"

namespace Given

/-- Fills a place that must still be free. -/
def fill {α : Type} (s : Switch) (place : Option α) (word : String) (value : Option α) :
    Except UsageError (Option α) :=
  match place, value with
  | some _, _ => .error (.repeated s)
  | none, none => .error (.badValue s word)
  | none, some a => .ok (some a)

/-- Takes a switch with its value. -/
def setValue (g : Given) (s : Switch) (word : String) : Except UsageError Given :=
  match s with
  | .color => do return { g with color := ← fill s g.color word (color? word) }
  | .config => do return { g with config := ← fill s g.config word (path? word) }
  | .format => do return { g with format := ← fill s g.format word (format? word) }
  | .output => do return { g with output := ← fill s g.output word (path? word) }
  | .indent => do return { g with indent := ← fill s g.indent word (number? word) }
  | _ => .error (.unexpectedValue s)

/-- Takes a switch that has no value. -/
def setFlag (g : Given) (s : Switch) : Except UsageError Given :=
  let once (taken : Bool) (g : Given) := if taken then .error (.repeated s) else .ok g
  match s with
  | .quiet => once g.quiet { g with quiet := true }
  | .verbose => once g.verbose { g with verbose := true }
  | .strict => once g.strict { g with strict := true }
  | _ => .error (.missingValue s)

/-- Takes a word that is no switch: the design file, once. -/
def setFile (g : Given) (word : String) : Except UsageError Given :=
  match g.file, path? word with
  | none, some file => .ok { g with file := some file }
  | _, _ => .error (.unexpectedWord word)

end Given

/-- What a word did: it was taken, and a switch may wait for a value; or it ended the
reading with an answer of its own. -/
inductive Taken where
  | more (g : Given) (pending : Option Switch)
  | answer (r : Request)

/-- A switch without a value in its word. -/
def takeSwitch (g : Given) (s : Switch) : Except UsageError Taken :=
  match s with
  | .version => .ok (.answer .version)
  | .help => .ok (.answer .help)
  | s => if s.takesValue then .ok (.more g (some s)) else do return .more (← g.setFlag s) none

/-- A word that begins with two dashes. A value may follow an equals sign. -/
def takeLong (level : Level) (g : Given) (cs : List Char) : Except UsageError Taken :=
  let (name, tail) := cs.span (· != '=')
  match Switch.ofLong? level (String.ofList name), tail with
  | none, _ => .error (.unknownSwitch (String.ofList ('-' :: '-' :: cs)))
  | some s, [] => takeSwitch g s
  | some s, _ :: value =>
    if s.takesValue then do return .more (← g.setValue s (String.ofList value)) none
    else .error (.unexpectedValue s)

/-- The letters after one dash. The first letter that takes a value takes the rest. -/
def takeShort (level : Level) (g : Given) : List Char → Except UsageError Taken
  | [] => .ok (.more g none)
  | c :: rest =>
    match Switch.ofShort? level c with
    | none => .error (.unknownSwitch (String.ofList ['-', c]))
    | some s =>
      if s.takesValue then
        match rest with
        | [] => .ok (.more g (some s))
        | '=' :: value => do return .more (← g.setValue s (String.ofList value)) none
        | value => do return .more (← g.setValue s (String.ofList value)) none
      else do
        match ← takeSwitch g s with
        | .more g _ => takeShort level g rest
        | answer => return answer

/-- A word of a command line, by its look. -/
inductive Look where
  | escape
  | long (cs : List Char)
  | short (cs : List Char)
  | plain

def Look.ofWord (word : String) : Look :=
  match word.toList with
  | ['-', '-'] => .escape
  | '-' :: '-' :: cs => .long cs
  | '-' :: c :: cs => .short (c :: cs)
  | _ => .plain

/-- The command that a word names. -/
def command? : String → Option Level
  | "check" => some .check
  | "fmt" => some .fmt
  | _ => none

/-- The end of a level, or the command whose words follow. -/
inductive Outcome where
  | ended (g : Given)
  | command (g : Given) (level : Level) (rest : List String)
  | answer (r : Request)

/-- The command `help` may name the command that help is wanted on, and nothing more. -/
def helpOn : List String → Except UsageError Outcome
  | [] => .ok (.answer .help)
  | [word] =>
    if word == "help" || (command? word).isSome then .ok (.answer .help)
    else .error (.unknownCommand word)
  | _ :: word :: _ => .error (.unknownCommand word)

/-- Reads the words of a level. After two dashes alone no word is a switch or a command. -/
def readLevel (level : Level) (g : Given) (pending : Option Switch) (escaped : Bool) :
    List String → Except UsageError Outcome
  | [] =>
    match pending with
    | some s => .error (.missingValue s)
    | none => .ok (.ended g)
  | word :: rest =>
    let proceed (taken : Except UsageError Taken) : Except UsageError Outcome := do
      match ← taken with
      | .more g next => readLevel level g next escaped rest
      | .answer r => return .answer r
    let plain : Except UsageError Outcome :=
      match level with
      | .root =>
        if escaped then .error (.unexpectedWord word)
        else match command? word with
          | some next => .ok (.command g next rest)
          | none => if word == "help" then helpOn rest else .error (.unknownCommand word)
      | _ => do readLevel level (← g.setFile word) none escaped rest
    if escaped then plain
    else match pending, Look.ofWord word with
      | some s, .plain => proceed ((g.setValue s word).map fun g => .more g none)
      | some s, _ => .error (.missingValue s)
      | none, .escape => readLevel level g none true rest
      | none, .long cs => proceed (takeLong level g cs)
      | none, .short cs => proceed (takeShort level g cs)
      | none, .plain => plain

/-! ## The whole line -/

/-- The options of both levels; what is said after the command counts more. -/
def Given.options (outer inner : Given) : Options :=
  { quiet := outer.quiet || inner.quiet
    verbose := outer.verbose || inner.verbose
    color := (inner.color.or outer.color).getD .auto
    config := inner.config.or outer.config }

def Given.command (g : Given) (level : Level) : Except UsageError Command :=
  match g.file with
  | none => .error .missingFile
  | some file =>
    match level with
    | .fmt => .ok (.fmt file g.output g.indent)
    | _ => .ok (.check file (g.format.getD .text) g.strict)

/-- Reads the words after the program's name. -/
def parse (words : List String) : Except UsageError Request := do
  match ← readLevel .root .nothing none false words with
  | .answer r => return r
  | .ended _ => .error .missingCommand
  | .command outer level rest =>
    match ← readLevel level .nothing none false rest with
    | .answer r => return r
    | .command .. => .error .missingCommand
    | .ended inner => return .run (outer.options inner) (← inner.command level)

end Netlist.CommandLine
