import FormDesigner.Property

/-!
Properties of the standard catalog whose markup is not their plain text.
-/

namespace FormDesigner

namespace Catalog

/-- Whether a value counts as given: not `null`, false, zero, NaN or empty. -/
def isGiven : Value → Bool
  | .null => false
  | .bool b => b
  | .number x => !x.isZero && !x.isNaN
  | .string s => !s.isEmpty
  | _ => true

/-- A part of a stored value, if it is given. -/
def givenPart (node : Node) (name part : String) : Option Value :=
  ((node.value? name).bind (Value.field? part)).filter isGiven

/-- Every field of a record as an attribute. -/
def attributesMarkup (_ : Node) (value : Value) : String :=
  match value with
  | .record fields =>
      String.join (fields.map fun field =>
        " " ++ field.1 ++ "=\"" ++ field.2.markup ++ "\"")
  | _ => ""

/-- The parts of a font, and the style rules that they become. -/
def fontRules : List (String × String) :=
  [("weight", "font-weight"), ("size", "font-size"), ("family", "font-family"),
    ("align", "text-align"), ("style", "font-style"), ("color", "color")]

/-- The kinds of space around an element, each with its four sides. -/
def spaceParts : List (String × String) :=
  ["padding", "margin"].flatMap fun kind =>
    ["left", "top", "right", "bottom"].map fun side => (kind, side)

/-- The rules for the font of a node. -/
def fontMarkup (node : Node) : String :=
  String.join (fontRules.map fun rule =>
    match givenPart node "font" rule.1 with
    | some value => rule.2 ++ ": " ++ value.markup ++ ";"
    | none => "")

/-- The rules for the space around a node. -/
def spaceMarkup (node : Node) : String :=
  String.join (spaceParts.map fun part =>
    match givenPart node "box" (part.1 ++ part.2) with
    | some value => part.1 ++ "-" ++ part.2 ++ ": " ++ value.markup ++ "px;"
    | none => "")

/-- The style attribute of a node, from its font and the space around it. -/
def styleMarkup (node : Node) (_ : Value) : String :=
  let style := fontMarkup node ++ spaceMarkup node
  if style.isEmpty then "" else "style=\"" ++ style ++ "\""

end Catalog

end FormDesigner
