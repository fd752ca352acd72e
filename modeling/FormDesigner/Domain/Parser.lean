import FormDesigner.Domain.Basic
import FormDesigner.Number.Reader
import FormDesigner.Text.Blank

/-!
Domains written as text: `type`, the name of a base type, and then pairs of an
operator and an operand, such as `type number < 10 > 0`.

Words are split at white space.  A word in double quotes may be empty and may
hold white space.
-/

namespace FormDesigner

namespace Domain

/-- What an operand was read as. -/
inductive Operand where
  | integer
  | number
  | length
  deriving DecidableEq, Repr

/-- Why a text describes no domain. -/
inductive ParseError where
  | oddCount (count : Nat)
  | missingType
  | unknownType (name : String)
  | unknownOperator (name : String)
  | unreadable (word : String) (operand : Operand)
  | unclosedQuote (position : Nat)
  /-- The base type is known but has no domain. -/
  | unconstrainable (name : String)
  deriving DecidableEq, Repr

def Operand.text : Operand → String
  | .integer => "an integer"
  | .number => "a number"
  | .length => "a length"

def ParseError.message : ParseError → String
  | .oddCount count =>
      "type expression needs key/value pairs, got " ++ toString count ++ " tokens"
  | .missingType => "type expression must start with 'type <name>'"
  | .unknownType name => "unknown type '" ++ name ++ "'"
  | .unknownOperator name => "unknown operator '" ++ name ++ "'"
  | .unreadable word operand => "cannot read '" ++ word ++ "' as " ++ operand.text
  | .unclosedQuote position =>
      "unterminated quote starting at byte " ++ toString position
  | .unconstrainable name => "type '" ++ name ++ "' cannot carry constraints"

/-- Where the splitting into words stands. -/
inductive WordMode where
  | between
  /-- Inside a word, with its letters so far, the latest first. -/
  | bare (letters : List Char)
  /-- Behind a quote at a byte position, with the letters so far, the latest
  first. -/
  | quoted (position : Nat) (letters : List Char)

/-- Splits a text, of which `position` bytes are already read, into words. -/
def wordsFrom (position : Nat) : WordMode → List Char → Except ParseError (List String)
  | .between, [] => .ok []
  | .bare letters, [] => .ok [String.ofList letters.reverse]
  | .quoted opened _, [] => .error (.unclosedQuote opened)
  | .between, c :: rest =>
      let next := position + c.utf8Size
      if isBlank c then wordsFrom next .between rest
      else if c = '"' then wordsFrom next (.quoted position []) rest
      else wordsFrom next (.bare [c]) rest
  | .bare letters, c :: rest =>
      let next := position + c.utf8Size
      if isBlank c then
        (wordsFrom next .between rest).map (String.ofList letters.reverse :: ·)
      else wordsFrom next (.bare (c :: letters)) rest
  | .quoted opened letters, c :: rest =>
      let next := position + c.utf8Size
      if c = '"' then
        (wordsFrom next .between rest).map (String.ofList letters.reverse :: ·)
      else wordsFrom next (.quoted opened (c :: letters)) rest

/-- The words of a text. -/
def words (text : String) : Except ParseError (List String) :=
  wordsFrom 0 .between text.toList

/-- The base types that a text can name. -/
inductive BaseWord where
  | number
  | float
  | string
  | boolean
  deriving DecidableEq, Repr

namespace BaseWord

def ofName? (name : String) : Option BaseWord :=
  if name = "number" then some .number
  else if name = "float" then some .float
  else if name = "string" then some .string
  else if name = "boolean" then some .boolean
  else none

/-- The shape of the domain's values; a flag cannot be constrained. -/
def scalar? : BaseWord → Option Scalar
  | .number => some .number
  | .float => some .number
  | .string => some .string
  | .boolean => none

end BaseWord

/-- Reads the bound of a comparison: an integer for the base type `number`, and
any number for the others. -/
def readBound (base : BaseWord) (word : String) : Except ParseError Number :=
  if base = .number then
    match readInt64? word.toList with
    | some n => .ok (Number.ofInt n)
    | none => .error (.unreadable word .integer)
  else
    match Number.read? word.toList with
    | some x => .ok x
    | none => .error (.unreadable word .number)

/-- Reads one constraint: an operator and its operand. -/
def readConstraint (base : BaseWord) (operator operand : String) :
    Except ParseError Constraint :=
  if operator = "<" then (readBound base operand).map .lessThan
  else if operator = ">" then (readBound base operand).map .greaterThan
  else if operator = "length" then
    match readUInt64? operand.toList with
    | some limit => .ok (.lengthAtMost limit)
    | none => .error (.unreadable operand .length)
  else .error (.unknownOperator operator)

/-- Reads the pairs behind the base type. -/
def readConstraints (base : BaseWord) : List String → Except ParseError (List Constraint)
  | operator :: operand :: rest => do
      let constraint ← readConstraint base operator operand
      let others ← readConstraints base rest
      return constraint :: others
  | _ => .ok []

/-- Several constraints as one. -/
def joinConstraints : List Constraint → Option Constraint
  | [] => none
  | [constraint] => some constraint
  | constraints => some (.all constraints)

/-- The domain that some words describe. -/
def ofWords (words : List String) : Except ParseError Domain :=
  if words.length % 2 ≠ 0 then .error (.oddCount words.length)
  else
    match words with
    | "type" :: name :: rest =>
        match BaseWord.ofName? name with
        | none => .error (.unknownType name)
        | some base => do
            let constraints ← readConstraints base rest
            match base.scalar? with
            | some scalar => return .plain scalar (joinConstraints constraints)
            | none => throw (.unconstrainable name)
    | _ => .error .missingType

/-- The domain that a text describes. -/
def parse (text : String) : Except ParseError Domain :=
  (words text).bind ofWords

end Domain

end FormDesigner
