import FormDesigner.Value.Basic
import FormDesigner.Number.Style
import FormDesigner.Text.Quoted

/-!
Values in messages: each is shown with the name of its shape.
-/

namespace FormDesigner

/-- Numbers in messages keep their point below 10^16 and from 10^-4 on. -/
def Number.messageStyle : NumberStyle where
  positional := fun exponent => -4 ≤ exponent && exponent < 16
  pointZero := true
  plusSign := false
  tie := .up
  infinite := "inf"

/-- The name of a kind in messages. -/
def BindingKind.label : BindingKind → String
  | .literal => "Value"
  | .expression => "Binding"

namespace Value

mutual

/-- A value as it stands in a message. -/
def inspect : Value → String
  | .null => "Null"
  | .bool b => if b then "Bool(true)" else "Bool(false)"
  | .number x => "Number(" ++ String.ofList (Number.messageStyle.write x) ++ ")"
  | .string s => "String(" ++ messageQuote s ++ ")"
  | .list items => "List([" ++ ", ".intercalate (inspectItems items) ++ "])"
  | .record fields => "Record(\x7b" ++ ", ".intercalate (inspectFields fields) ++ "\x7d)"
  | .binding kind inner =>
      "Binding(Binding \x7b kind: " ++ kind.label ++ ", value: " ++ inspect inner ++ " \x7d)"

def inspectItems : List Value → List String
  | [] => []
  | item :: rest => inspect item :: inspectItems rest

def inspectFields : List (String × Value) → List String
  | [] => []
  | (name, value) :: rest => (messageQuote name ++ ": " ++ inspect value) :: inspectFields rest

end

end Value

end FormDesigner
