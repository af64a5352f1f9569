-- JSON text of a value: on one line without blanks, or with each item and member on a
-- line of its own.
import Netlist.Json.Numeral

namespace Netlist.Json

/-! ## Strings -/

/-- A hexadecimal digit in lower case. -/
def hexChar (d : Nat) : Char := if d < 10 then Char.ofNat (48 + d) else Char.ofNat (87 + d)

/-- A character inside a string. Only the quote, the backslash and the control
characters are escaped. -/
def escape (c : Char) : List Char :=
  match c with
  | '"' => ['\\', '"']
  | '\\' => ['\\', '\\']
  | '\n' => ['\\', 'n']
  | '\r' => ['\\', 'r']
  | '\t' => ['\\', 't']
  | '\x08' => ['\\', 'b']
  | '\x0c' => ['\\', 'f']
  | c =>
    if c.toNat < 0x20 then ['\\', 'u', '0', '0', hexChar (c.toNat / 16), hexChar (c.toNat % 16)]
    else [c]

def quote (s : String) : List Char := '"' :: s.toList.flatMap escape ++ ['"']

/-! ## Values -/

/-- The text of a value that holds no other. -/
def scalarChars : Json → List Char
  | bool true => "true".toList
  | bool false => "false".toList
  | number n => n.render.toList
  | string s => quote s
  | _ => "null".toList

mutual

/-- The text without blanks, with `after` behind it. -/
def compactChars : Json → List Char → List Char
  | array items, after => '[' :: compactItems items (']' :: after)
  | object members, after => '{' :: compactMembers members ('}' :: after)
  | null, after => scalarChars null ++ after
  | bool b, after => scalarChars (bool b) ++ after
  | number n, after => scalarChars (number n) ++ after
  | string s, after => scalarChars (string s) ++ after

def compactItems : List Json → List Char → List Char
  | [], after => after
  | [v], after => compactChars v after
  | v :: rest, after => compactChars v (',' :: compactItems rest after)

def compactMembers : List (String × Json) → List Char → List Char
  | [], after => after
  | [(k, v)], after => quote k ++ ':' :: compactChars v after
  | (k, v) :: rest, after => quote k ++ ':' :: compactChars v (',' :: compactMembers rest after)

end

/-- The start of a line at a depth. -/
def newline (indent depth : Nat) : List Char := '\n' :: List.replicate (indent * depth) ' '

mutual

/-- The text over several lines, from the given depth on, with `after` behind it.
Containers without content stay on one line. -/
def prettyChars (indent depth : Nat) : Json → List Char → List Char
  | array [], after => '[' :: ']' :: after
  | array (v :: rest), after =>
    '[' :: prettyItems indent (depth + 1) (v :: rest) (newline indent depth ++ ']' :: after)
  | object [], after => '{' :: '}' :: after
  | object (m :: rest), after =>
    '{' :: prettyMembers indent (depth + 1) (m :: rest) (newline indent depth ++ '}' :: after)
  | null, after => scalarChars null ++ after
  | bool b, after => scalarChars (bool b) ++ after
  | number n, after => scalarChars (number n) ++ after
  | string s, after => scalarChars (string s) ++ after

def prettyItems (indent depth : Nat) : List Json → List Char → List Char
  | [], after => after
  | [v], after => newline indent depth ++ prettyChars indent depth v after
  | v :: rest, after =>
    newline indent depth ++ prettyChars indent depth v (',' :: prettyItems indent depth rest after)

def prettyMembers (indent depth : Nat) : List (String × Json) → List Char → List Char
  | [], after => after
  | [(k, v)], after =>
    newline indent depth ++ quote k ++ ':' :: ' ' :: prettyChars indent depth v after
  | (k, v) :: rest, after =>
    newline indent depth ++ quote k ++
      ':' :: ' ' :: prettyChars indent depth v (',' :: prettyMembers indent depth rest after)

end

def compact (v : Json) : String := String.ofList (compactChars v [])

def pretty (indent : Nat) (v : Json) : String := String.ofList (prettyChars indent 0 v [])

/-- With no indentation the text is on one line. -/
def render (indent : Nat) (v : Json) : String := if indent = 0 then v.compact else v.pretty indent

end Netlist.Json
