-- The tokens of JSON text. The scanner takes one character at a time and holds the
-- token that it is in, so scanning is a fold over the characters.
import Netlist.Json.Numeral

namespace Netlist.Json

/-- A mark of structure, or a value that holds no other. -/
inductive Token where
  | beginArray
  | endArray
  | beginObject
  | endObject
  | comma
  | colon
  | null
  | bool (b : Bool)
  | number (n : JsonNumber)
  | string (s : String)
  deriving DecidableEq, Repr

/-- What is wrong with a text that is not JSON. -/
inductive TextError where
  | strayCharacter (c : Char)
  | badWord (word : String)
  | badNumber (text : String)
  | badEscape
  | controlCharacter
  | misplacedToken
  | tooDeep
  | endsEarly
  deriving DecidableEq, Repr

def TextError.message : TextError → String
  | strayCharacter c => s!"unexpected character {c}"
  | badWord word => s!"unknown word {word}"
  | badNumber text => s!"bad number {text}"
  | badEscape => "bad escape in a string"
  | controlCharacter => "control character in a string"
  | misplacedToken => "unexpected token"
  | tooDeep => "nested too deeply"
  | endsEarly => "unexpected end of text"

namespace Token

/-- What the scanner is in. Characters of a token are kept in reverse. -/
inductive Mode where
  | between
  | word (seen : List Char)
  | numeral (seen : List Char)
  | text (seen : List Char)
  /-- After a backslash. -/
  | escape (seen : List Char)
  /-- In the four hexadecimal digits of an escape; `lead` is the high half of a pair. -/
  | unit (seen : List Char) (lead : Option Nat) (count value : Nat)
  /-- After the high half of a pair: the backslash of the low half must follow. -/
  | pairBackslash (seen : List Char) (lead : Nat)
  | pairMark (seen : List Char) (lead : Nat)
  deriving DecidableEq, Repr

/-- The scanner: its mode, and the tokens that are complete, the last one first. -/
structure Scanner where
  mode : Mode
  tokens : List Token
  deriving DecidableEq, Repr

def isBlank (c : Char) : Bool := c == ' ' || c == '\n' || c == '\t' || c == '\r'

def isWordChar (c : Char) : Bool := decide ('a' ≤ c ∧ c ≤ 'z')

def isNumeralStart (c : Char) : Bool := c == '-' || decide ('0' ≤ c ∧ c ≤ '9')

def isNumeralChar (c : Char) : Bool :=
  isNumeralStart c || c == '+' || c == '.' || c == 'e' || c == 'E'

def ofWord? : String → Option Token
  | "null" => some .null
  | "true" => some (.bool true)
  | "false" => some (.bool false)
  | _ => none

def hexDigit? (c : Char) : Option Nat :=
  if '0' ≤ c ∧ c ≤ '9' then some (c.toNat - '0'.toNat)
  else if 'a' ≤ c ∧ c ≤ 'f' then some (c.toNat - 'a'.toNat + 10)
  else if 'A' ≤ c ∧ c ≤ 'F' then some (c.toNat - 'A'.toNat + 10)
  else none

/-- The character after a backslash, unless digits follow it. -/
def plainEscape? : Char → Option Char
  | '"' => some '"'
  | '\\' => some '\\'
  | '/' => some '/'
  | 'b' => some '\x08'
  | 'f' => some '\x0c'
  | 'n' => some '\n'
  | 'r' => some '\r'
  | 't' => some '\t'
  | _ => none

def isHighHalf (u : Nat) : Bool := decide (0xD800 ≤ u ∧ u < 0xDC00)

def isLowHalf (u : Nat) : Bool := decide (0xDC00 ≤ u ∧ u < 0xE000)

/-- The mode after a complete escape. Halves of a pair must come together. -/
def afterUnit (seen : List Char) (lead : Option Nat) (u : Nat) : Except TextError Mode :=
  match lead with
  | none =>
    if isHighHalf u then .ok (.pairBackslash seen u)
    else if isLowHalf u then .error .badEscape
    else .ok (.text (Char.ofNat u :: seen))
  | some h =>
    if isLowHalf u then
      .ok (.text (Char.ofNat (0x10000 + (h - 0xD800) * 0x400 + (u - 0xDC00)) :: seen))
    else .error .badEscape

/-- A character outside every token. -/
def startStep (tokens : List Token) (c : Char) : Except TextError Scanner :=
  let single (t : Token) : Except TextError Scanner := .ok ⟨.between, t :: tokens⟩
  if isBlank c then .ok ⟨.between, tokens⟩
  else if c = '[' then single .beginArray
  else if c = ']' then single .endArray
  else if c = '{' then single .beginObject
  else if c = '}' then single .endObject
  else if c = ',' then single .comma
  else if c = ':' then single .colon
  else if c = '"' then .ok ⟨.text [], tokens⟩
  else if isWordChar c then .ok ⟨.word [c], tokens⟩
  else if isNumeralStart c then .ok ⟨.numeral [c], tokens⟩
  else .error (.strayCharacter c)

/-- The tokens once the word or number in hand is complete. -/
def closeWord (tokens : List Token) (seen : List Char) : Except TextError (List Token) :=
  let word := String.ofList seen.reverse
  match ofWord? word with
  | some t => .ok (t :: tokens)
  | none => .error (.badWord word)

def closeNumeral (tokens : List Token) (seen : List Char) : Except TextError (List Token) :=
  match JsonNumber.ofText? seen.reverse with
  | some n => .ok (.number n :: tokens)
  | none => .error (.badNumber (String.ofList seen.reverse))

def Scanner.step (s : Scanner) (c : Char) : Except TextError Scanner :=
  match s.mode with
  | .between => startStep s.tokens c
  | .word seen =>
    if isWordChar c then .ok ⟨.word (c :: seen), s.tokens⟩
    else do startStep (← closeWord s.tokens seen) c
  | .numeral seen =>
    if isNumeralChar c then .ok ⟨.numeral (c :: seen), s.tokens⟩
    else do startStep (← closeNumeral s.tokens seen) c
  | .text seen =>
    if c = '"' then .ok ⟨.between, .string (String.ofList seen.reverse) :: s.tokens⟩
    else if c = '\\' then .ok ⟨.escape seen, s.tokens⟩
    else if c.toNat < 0x20 then .error .controlCharacter
    else .ok ⟨.text (c :: seen), s.tokens⟩
  | .escape seen =>
    if c = 'u' then .ok ⟨.unit seen none 0 0, s.tokens⟩
    else match plainEscape? c with
      | some d => .ok ⟨.text (d :: seen), s.tokens⟩
      | none => .error .badEscape
  | .unit seen lead count value =>
    match hexDigit? c with
    | none => .error .badEscape
    | some d =>
      if count < 3 then .ok ⟨.unit seen lead (count + 1) (16 * value + d), s.tokens⟩
      else do return ⟨← afterUnit seen lead (16 * value + d), s.tokens⟩
  | .pairBackslash seen lead =>
    if c = '\\' then .ok ⟨.pairMark seen lead, s.tokens⟩ else .error .badEscape
  | .pairMark seen lead =>
    if c = 'u' then .ok ⟨.unit seen (some lead) 0 0, s.tokens⟩ else .error .badEscape

/-- The tokens at the end of the text, in order. -/
def Scanner.finish (s : Scanner) : Except TextError (List Token) :=
  match s.mode with
  | .between => .ok s.tokens.reverse
  | .word seen => (closeWord s.tokens seen).map List.reverse
  | .numeral seen => (closeNumeral s.tokens seen).map List.reverse
  | _ => .error .endsEarly

/-- All tokens of a text. -/
def scan (cs : List Char) : Except TextError (List Token) := do
  (← cs.foldlM Scanner.step ⟨.between, []⟩).finish

end Token

end Netlist.Json
