-- From tokens to a value. The reader holds the containers that are open, so reading
-- is a fold over the tokens and the nesting is bounded by the number it may hold.
import Netlist.Json.Token

namespace Netlist.Json

namespace Reader

/-- A container whose end is still to come. Items are kept in reverse. -/
inductive Frame where
  | array (items : List Json)
  /-- An object, and the key whose value is being read. -/
  | object (members : List (String × Json)) (key : String)
  deriving Repr

/-- What must come next. -/
inductive Expect where
  | value
  /-- The first item of an array, or its end. -/
  | firstItem
  /-- A comma or the end of the container. -/
  | separator
  /-- A key of the object whose members so far are given; its end may come if `first`. -/
  | key (members : List (String × Json)) (first : Bool)
  | colon (members : List (String × Json)) (key : String)
  /-- Nothing: the text is complete. -/
  | nothing (v : Json)
  deriving Repr

/-- The open containers, the innermost first, and what must come next. -/
structure State where
  frames : List Frame
  expect : Expect
  deriving Repr

/-- How many containers may be open at once. -/
def depthLimit : Nat := 127

/-- The state after a complete value. -/
def accept (frames : List Frame) (v : Json) : State :=
  match frames with
  | [] => ⟨[], .nothing v⟩
  | .array items :: rest => ⟨.array (v :: items) :: rest, .separator⟩
  | .object members key :: rest => ⟨.object (Assoc.set key v members) key :: rest, .separator⟩

/-- The first token of a value. -/
def beginValue (frames : List Frame) : Token → Except TextError State
  | .null => .ok (accept frames .null)
  | .bool b => .ok (accept frames (.bool b))
  | .number n => .ok (accept frames (.number n))
  | .string s => .ok (accept frames (.string s))
  | .beginArray =>
    if frames.length < depthLimit then .ok ⟨.array [] :: frames, .firstItem⟩
    else .error .tooDeep
  | .beginObject =>
    if frames.length < depthLimit then .ok ⟨frames, .key [] true⟩
    else .error .tooDeep
  | _ => .error .misplacedToken

def State.step (s : State) (t : Token) : Except TextError State :=
  match s.expect, t with
  | .value, t => beginValue s.frames t
  | .firstItem, .endArray =>
    match s.frames with
    | .array items :: rest => .ok (accept rest (.array items.reverse))
    | _ => .error .misplacedToken
  | .firstItem, t => beginValue s.frames t
  | .separator, .comma =>
    match s.frames with
    | .array _ :: _ => .ok { s with expect := .value }
    | .object members _ :: rest => .ok ⟨rest, .key members false⟩
    | [] => .error .misplacedToken
  | .separator, .endArray =>
    match s.frames with
    | .array items :: rest => .ok (accept rest (.array items.reverse))
    | _ => .error .misplacedToken
  | .separator, .endObject =>
    match s.frames with
    | .object members _ :: rest => .ok (accept rest (.object members))
    | _ => .error .misplacedToken
  | .key members _, .string k => .ok { s with expect := .colon members k }
  | .key members true, .endObject => .ok (accept s.frames (.object members))
  | .colon members k, .colon => .ok ⟨.object members k :: s.frames, .value⟩
  | _, _ => .error .misplacedToken

/-- The value that a list of tokens spells. -/
def ofTokens (tokens : List Token) : Except TextError Json := do
  match (← tokens.foldlM State.step ⟨[], .value⟩).expect with
  | .nothing v => .ok v
  | _ => .error .endsEarly

end Reader

/-- Reads a whole text as one JSON value. -/
def parse (text : String) : Except TextError Json := do
  Reader.ofTokens (← Token.scan text.toList)

end Netlist.Json
