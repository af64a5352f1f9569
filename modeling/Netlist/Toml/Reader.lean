-- Reading TOML 1.0. Each reader takes a text and gives what it read and the rest, or
-- nothing if the text does not begin so.
import Netlist.Toml.Scalar

namespace Netlist.Toml

/-! ## Blanks and line ends -/

def isBlank (c : Char) : Bool := c == ' ' || c == '\t'

def skipBlanks (cs : List Char) : List Char := cs.dropWhile isBlank

/-- Characters that may stand in comments and between quotes. -/
def isPlain (c : Char) : Bool := c == '\t' || decide (0x20 ≤ c.toNat ∧ c.toNat ≠ 0x7f)

def newline? : List Char → Option (List Char)
  | '\n' :: rest => some rest
  | '\r' :: '\n' :: rest => some rest
  | _ => none

/-- A comment up to the end of its line, if there is one here. -/
def skipComment (cs : List Char) : List Char :=
  match cs with
  | '#' :: rest => rest.dropWhile isPlain
  | _ => cs

/-- The rest of a line that has nothing more to say. -/
def endLine? (cs : List Char) : Option (List Char) :=
  match skipComment (skipBlanks cs) with
  | [] => some []
  | rest => newline? rest

/-- Blanks, comments and line ends. -/
def skipLines : Nat → List Char → List Char
  | 0, cs => cs
  | fuel + 1, cs =>
    match skipBlanks cs with
    | [] => []
    | rest =>
      match endLine? rest with
      | some after => skipLines fuel after
      | none => rest

/-! ## Strings -/

def hexadecimal? (cs : List Char) : Option Nat :=
  cs.foldlM (fun n c => (digitValue? 16 c).map (16 * n + ·)) 0

/-- The character with a number, unless the number is half of a pair or too large. -/
def scalar? (n : Nat) : Option Char := if n.isValidChar then some (Char.ofNat n) else none

/-- The character that an escape stands for, after the backslash. -/
def escape? : List Char → Option (Char × List Char)
  | 'b' :: rest => some ('\x08', rest)
  | 't' :: rest => some ('\t', rest)
  | 'n' :: rest => some ('\n', rest)
  | 'f' :: rest => some ('\x0c', rest)
  | 'r' :: rest => some ('\r', rest)
  | '"' :: rest => some ('"', rest)
  | '\\' :: rest => some ('\\', rest)
  | 'u' :: rest => unit 4 rest
  | 'U' :: rest => unit 8 rest
  | _ => none
where
  unit (count : Nat) (cs : List Char) : Option (Char × List Char) :=
    if cs.length < count then none
    else ((hexadecimal? (cs.take count)).bind scalar?).map (·, cs.drop count)

/-- The rest of a basic string on one line. -/
def basic? : Nat → List Char → Option (List Char × List Char)
  | 0, _ => none
  | fuel + 1, cs =>
    match cs with
    | '"' :: rest => some ([], rest)
    | '\\' :: rest => do
      let (c, rest) ← escape? rest
      let (s, rest) ← basic? fuel rest
      return (c :: s, rest)
    | c :: rest =>
      if isPlain c then (basic? fuel rest).map fun (s, rest) => (c :: s, rest) else none
    | [] => none

/-- The rest of a literal string on one line. -/
def literal? : List Char → Option (List Char × List Char)
  | [] => none
  | c :: rest =>
    if c = '\'' then some ([], rest)
    else if isPlain c then (literal? rest).map fun (s, rest) => (c :: s, rest)
    else none

/-- The rest of a string over several lines. Up to two quotes may stand before the three
that close it; with `escapes` a backslash escapes, or joins lines if it ends one. -/
def multiline? (quote : Char) (escapes : Bool) : Nat → List Char → Option (List Char × List Char)
  | 0, _ => none
  | fuel + 1, cs =>
    let quotes := (cs.takeWhile (· == quote)).length
    if 3 ≤ quotes then
      let more := min (quotes - 3) 2
      some (List.replicate more quote, cs.drop (more + 3))
    else match cs with
      | [] => none
      | c :: rest =>
        if escapes && c == '\\' then
          match newline? (skipBlanks rest) with
          | some after => multiline? quote escapes fuel (skipSpace after)
          | none => do
            let (c, rest) ← escape? rest
            let (s, rest) ← multiline? quote escapes fuel rest
            return (c :: s, rest)
        else match newline? cs with
          | some after => (multiline? quote escapes fuel after).map fun (s, r) => ('\n' :: s, r)
          | none =>
            if isPlain c then
              (multiline? quote escapes fuel rest).map fun (s, rest) => (c :: s, rest)
            else none
where
  /-- Blanks and line ends after a line that is joined to the next. -/
  skipSpace : List Char → List Char
    | '\r' :: '\n' :: rest => skipSpace rest
    | c :: rest => if isBlank c || c == '\n' then skipSpace rest else c :: rest
    | [] => []

/-- A line end just after the opening quotes is no part of a string. -/
def afterOpening (cs : List Char) : List Char := (newline? cs).getD cs

/-- A string on one line, as it may also stand in a key. -/
def lineString? (cs : List Char) : Option (String × List Char) :=
  let text := Option.map fun (p : List Char × List Char) => (String.ofList p.1, p.2)
  match cs with
  | '"' :: rest => text (basic? (rest.length + 1) rest)
  | '\'' :: rest => text (literal? rest)
  | _ => none

def string? (cs : List Char) : Option (String × List Char) :=
  let text := Option.map fun (p : List Char × List Char) => (String.ofList p.1, p.2)
  match cs with
  | '"' :: '"' :: '"' :: rest => text (multiline? '"' true (rest.length + 1) (afterOpening rest))
  | '\'' :: '\'' :: '\'' :: rest =>
    text (multiline? '\'' false (rest.length + 1) (afterOpening rest))
  | _ => lineString? cs

/-! ## Keys -/

def isBareKeyChar (c : Char) : Bool :=
  isDigit c || decide ('a' ≤ c ∧ c ≤ 'z') || decide ('A' ≤ c ∧ c ≤ 'Z') || c == '_' || c == '-'

def keyPart? (cs : List Char) : Option (String × List Char) :=
  match lineString? cs with
  | some found => some found
  | none =>
    match cs.span isBareKeyChar with
    | ([], _) => none
    | (word, rest) => some (String.ofList word, rest)

/-- How many parts a key may have. -/
def keyLimit : Nat := 79

/-- A key with blanks around its parts, of at most so many parts. -/
def keyOf? : Nat → List Char → Option (Path × List Char)
  | 0, _ => none
  | parts + 1, cs => do
    let (part, rest) ← keyPart? (skipBlanks cs)
    match skipBlanks rest with
    | '.' :: rest =>
      let (path, rest) ← keyOf? parts rest
      return (part :: path, rest)
    | rest => return ([part], rest)

def key? (cs : List Char) : Option (Path × List Char) := keyOf? keyLimit cs

/-! ## Values -/

/-- How many arrays and inline tables may lie inside each other. -/
def nestingLimit : Nat := 79

/-- Characters of words that are no strings. -/
def isWordChar (c : Char) : Bool := isBareKeyChar c || c == '+' || c == '.' || c == ':'

/-- A word, and with it the time that follows a date after a blank. -/
def wordValue? (cs : List Char) : Option (Value × List Char) :=
  let (word, rest) := cs.span isWordChar
  let long := match rest with
    | ' ' :: d :: after => if isDate word && isDigit d then some (d :: after) else none
    | _ => none
  match long with
  | some after =>
    let (time, rest) := after.span isWordChar
    (word? (word ++ ' ' :: time)).map (·, rest)
  | none => (word? word).map (·, rest)

mutual

/-- A value, inside at most `depth` more containers. -/
def value? : Nat → Nat → List Char → Option (Value × List Char)
  | 0, _, _ => none
  | fuel + 1, depth, cs =>
    match cs with
    | '[' :: rest =>
      if depth = 0 then none
      else (items? fuel (depth - 1) (skipLines rest.length rest)).map fun (vs, rest) =>
        (.array vs, rest)
    | '{' :: rest =>
      if depth = 0 then none
      else match skipBlanks rest with
        | '}' :: rest => some (.table [], rest)
        | rest => do
          let (members, rest) ← members? fuel (depth - 1) rest
          match buildInline members with
          | .ok v => return (v, rest)
          | .error _ => none
    | '"' :: _ => (string? cs).map fun (s, rest) => (.string s, rest)
    | '\'' :: _ => (string? cs).map fun (s, rest) => (.string s, rest)
    | _ => wordValue? cs

/-- The items of an array up to its end. A comma may stand before the end. -/
def items? : Nat → Nat → List Char → Option (List Value × List Char)
  | 0, _, _ => none
  | fuel + 1, depth, cs =>
    match cs with
    | ']' :: rest => some ([], rest)
    | _ => do
      let (v, rest) ← value? fuel depth cs
      match skipLines rest.length rest with
      | ',' :: rest =>
        let (vs, rest) ← items? fuel depth (skipLines rest.length rest)
        return (v :: vs, rest)
      | ']' :: rest => return ([v], rest)
      | _ => none

/-- The members of an inline table up to its end, all on one line. -/
def members? : Nat → Nat → List Char → Option (List (Path × Value) × List Char)
  | 0, _, _ => none
  | fuel + 1, depth, cs => do
    let (path, v, rest) ← assignment? fuel depth cs
    match skipBlanks rest with
    | ',' :: rest =>
      let (ms, rest) ← members? fuel depth rest
      return ((path, v) :: ms, rest)
    | '}' :: rest => return ([(path, v)], rest)
    | _ => none

def assignment? : Nat → Nat → List Char → Option (Path × Value × List Char)
  | 0, _, _ => none
  | fuel + 1, depth, cs => do
    let (path, rest) ← key? cs
    match rest with
    | '=' :: rest =>
      let (v, rest) ← value? fuel depth (skipBlanks rest)
      return (path, v, rest)
    | _ => none

end

/-! ## Lines -/

/-- What a line says, if it says anything, and the lines after it. -/
def line? (cs : List Char) : Option (Option Statement × List Char) :=
  match skipBlanks cs with
  | '[' :: '[' :: rest =>
    match key? rest with
    | some (path, ']' :: ']' :: rest) => (endLine? rest).map (some (.openItem path), ·)
    | _ => none
  | '[' :: rest =>
    match key? rest with
    | some (path, ']' :: rest) => (endLine? rest).map (some (.openTable path), ·)
    | _ => none
  | rest =>
    match endLine? rest with
    | some after => some (none, after)
    | none => do
      let (path, v, rest) ← assignment? (2 * rest.length + 2) nestingLimit rest
      return (some (.assign path v), ← endLine? rest)

/-- All lines. Every line takes at least one character. -/
def lines? : Nat → List Char → Option (List Statement)
  | _, [] => some []
  | 0, _ => none
  | fuel + 1, cs => do
    let (s, rest) ← line? cs
    return s.toList ++ (← lines? fuel rest)

/-- Reads a whole text, with or without a byte order mark. -/
def parse (text : String) : Except Error Value :=
  let cs := match text.toList with
    | '\ufeff' :: rest => rest
    | cs => cs
  match lines? (cs.length + 1) cs with
  | some statements => build statements
  | none => .error .malformed

end Netlist.Toml
