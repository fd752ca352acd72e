import FormDesigner.Json.Token
import FormDesigner.Number.Stepwise

/-!
Reading a JSON text.

The tokens are read once from left to right, with a stack of the arrays and
objects that are still open.
-/

namespace FormDesigner

namespace Json

/-- An array or object that is still open, with what it holds so far, the
latest first. -/
inductive Frame where
  | items (done : List Json)
  | members (done : List (Option String × Json))
  /-- An object whose member of the given name is being read. -/
  | member (done : List (Option String × Json)) (name : Option String)

/-- What the next token has to be. -/
inductive Expected where
  | value
  | valueOrClose
  | name
  | nameOrClose
  | colon
  /-- A comma or the end of the innermost array or object. -/
  | separator
  | nothing (result : Json)

/-- A reader of tokens: the open arrays and objects, the innermost first, and
what has to follow. -/
structure Reader where
  stack : List Frame
  expected : Expected

/-- A finite number, or the mark of one that is out of range. -/
def ofFinite (x : Number) : Json :=
  if x.isFinite then .decimal x else .unreadable

/-- The value of a number literal.  Integers of 64 bits stay integers; an
integer zero behind a minus does not.  All others are read in steps. -/
def ofLiteral? (literal : DecimalLiteral) : Option Json :=
  let leadingZero := literal.whole.head? = some '0' && literal.whole.length ≠ 1
  if literal.sign = some '+' || literal.whole.isEmpty || leadingZero
      || literal.fraction = some [] then none
  else if literal.fraction.isNone && literal.exponent.isNone then
    let value := digitsValue literal.whole
    if literal.sign = some '-' then
      if value = 0 || 2 ^ 63 < value then some (ofFinite literal.toNumberStepwise)
      else some (.integer (-(value : Int)))
    else if 2 ^ 64 ≤ value then some (ofFinite literal.toNumberStepwise)
    else some (.integer value)
  else some (ofFinite literal.toNumberStepwise)

/-- The value of a word. -/
def ofWord? (letters : List Char) : Option Json :=
  if letters = ['n', 'u', 'l', 'l'] then some .null
  else if letters = ['t', 'r', 'u', 'e'] then some (.bool true)
  else if letters = ['f', 'a', 'l', 's', 'e'] then some (.bool false)
  else (DecimalLiteral.read? letters).bind ofLiteral?

/-- The object of some members; one unreadable name spoils it. -/
def ofMembers (members : List (Option String × Json)) : Json :=
  match members.mapM (fun member => member.1.map (·, member.2)) with
  | some named => .object named
  | none => .unreadable

namespace Reader

/-- Hands a finished value to the innermost open array or object. -/
def accept (value : Json) : List Frame → Option Reader
  | [] => some ⟨[], .nothing value⟩
  | .items done :: rest => some ⟨.items (value :: done) :: rest, .separator⟩
  | .member done name :: rest => some ⟨.members ((name, value) :: done) :: rest, .separator⟩
  | .members _ :: _ => none

/-- Reads the first token of a value. -/
def startValue (stack : List Frame) : Token → Option Reader
  | .openArray => some ⟨.items [] :: stack, .valueOrClose⟩
  | .openObject => some ⟨.members [] :: stack, .nameOrClose⟩
  | .text (some content) => accept (.string content) stack
  | .text none => accept .unreadable stack
  | .word letters => (ofWord? letters).bind (accept · stack)
  | _ => none

/-- Reads the name of a member. -/
def startName : List Frame → Token → Option Reader
  | .members done :: rest, .text name => some ⟨.member done name :: rest, .colon⟩
  | _, _ => none

/-- Ends the innermost array or object. -/
def close : List Frame → Token → Option Reader
  | .items done :: rest, .closeArray => accept (.array done.reverse) rest
  | .members done :: rest, .closeObject => accept (ofMembers done.reverse) rest
  | _, _ => none

/-- Reads one token; `none` when no JSON text goes on with it. -/
def feed (reader : Reader) (token : Token) : Option Reader :=
  match reader.expected with
  | .value => startValue reader.stack token
  | .valueOrClose =>
      if token = .closeArray then close reader.stack token else startValue reader.stack token
  | .name => startName reader.stack token
  | .nameOrClose =>
      if token = .closeObject then close reader.stack token else startName reader.stack token
  | .colon => if token = .colon then some { reader with expected := .value } else none
  | .separator =>
      if token = .comma then
        match reader.stack with
        | .items _ :: _ => some { reader with expected := .value }
        | .members _ :: _ => some { reader with expected := .name }
        | _ => none
      else close reader.stack token
  | .nothing _ => none

/-- The value of a text that ends here. -/
def finish (reader : Reader) : Option Json :=
  match reader.expected with
  | .nothing result => some result
  | _ => none

end Reader

/-- Reads a whole JSON text. -/
def read? (text : String) : Option Json :=
  (tokens? text.toList).bind fun tokens =>
    (tokens.foldlM Reader.feed ⟨[], .value⟩).bind Reader.finish

end Json

end FormDesigner
