import FormDesigner.Json.Basic
import FormDesigner.Number.Style

/-!
Writing a JSON text, on one line or indented.
-/

namespace FormDesigner

namespace Json

/-- Decimals keep their point between the fifth place behind it and the
sixteenth before it. -/
def decimalStyle : NumberStyle where
  positional := fun exponent => -5 ≤ exponent && exponent ≤ 15
  pointZero := true
  plusSign := true
  tie := .even
  infinite := "null"

/-- A character inside quotes. -/
def escape (c : Char) : List Char :=
  if c = '"' then ['\\', '"']
  else if c = '\\' then ['\\', '\\']
  else if c = '\x08' then ['\\', 'b']
  else if c = '\x0c' then ['\\', 'f']
  else if c = '\n' then ['\\', 'n']
  else if c = '\r' then ['\\', 'r']
  else if c = '\t' then ['\\', 't']
  else if c.toNat < 0x20 then
    ['\\', 'u', '0', '0', Nat.digitChar (c.toNat / 16), Nat.digitChar (c.toNat % 16)]
  else [c]

/-- A text in quotes. -/
def quote (text : String) : List Char :=
  '"' :: (text.toList.flatMap escape ++ ['"'])

/-- An integer in decimal digits. -/
def writeInteger (n : Int) : List Char :=
  if n < 0 then '-' :: Nat.toDigits 10 n.natAbs else Nat.toDigits 10 n.natAbs

/-- The text of a value that holds no other. -/
def writeScalar : Json → List Char
  | .bool true => ['t', 'r', 'u', 'e']
  | .bool false => ['f', 'a', 'l', 's', 'e']
  | .integer n => writeInteger n
  | .decimal x => if x.isFinite then decimalStyle.write x else ['n', 'u', 'l', 'l']
  | .string s => quote s
  | _ => ['n', 'u', 'l', 'l']

mutual

/-- The text on one line, without blanks. -/
def write : Json → List Char
  | .array items => '[' :: (writeItems items ++ [']'])
  | .object members => '\x7b' :: (writeMembers members ++ ['\x7d'])
  | scalar => writeScalar scalar

def writeItems : List Json → List Char
  | [] => []
  | [item] => write item
  | item :: rest => write item ++ ',' :: writeItems rest

def writeMembers : List (String × Json) → List Char
  | [] => []
  | [(name, value)] => quote name ++ ':' :: write value
  | (name, value) :: rest => quote name ++ ':' :: (write value ++ ',' :: writeMembers rest)

end

/-- The start of a line at a level of indentation. -/
def newline (level : Nat) : List Char :=
  '\n' :: List.replicate (2 * level) ' '

mutual

/-- The text with every item and member on a line of its own, indented by two
blanks a level. -/
def writeIndented (level : Nat) : Json → List Char
  | .array (item :: rest) =>
      '[' :: (writeIndentedItems (level + 1) (item :: rest) ++ (newline level ++ [']']))
  | .object (member :: rest) =>
      '\x7b' :: (writeIndentedMembers (level + 1) (member :: rest) ++ (newline level ++ ['\x7d']))
  | .array [] => ['[', ']']
  | .object [] => ['\x7b', '\x7d']
  | scalar => writeScalar scalar

def writeIndentedItems (level : Nat) : List Json → List Char
  | [] => []
  | [item] => newline level ++ writeIndented level item
  | item :: rest =>
      newline level ++ (writeIndented level item ++ ',' :: writeIndentedItems level rest)

def writeIndentedMembers (level : Nat) : List (String × Json) → List Char
  | [] => []
  | [(name, value)] =>
      newline level ++ (quote name ++ ':' :: ' ' :: writeIndented level value)
  | (name, value) :: rest =>
      newline level ++ (quote name ++ ':' :: ' ' ::
        (writeIndented level value ++ ',' :: writeIndentedMembers level rest))

end

/-- The text on one line. -/
def compact (json : Json) : String := String.ofList json.write

/-- The indented text. -/
def pretty (json : Json) : String := String.ofList (json.writeIndented 0)

end Json

end FormDesigner
