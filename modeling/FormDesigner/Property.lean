import FormDesigner.Domain.Basic
import FormDesigner.Tree.Node
import FormDesigner.Value.Difference
import FormDesigner.Value.Markup

/-!
The properties of form elements.

A property says which values it accepts, what it holds when nothing is stored,
and how its value is shown in markup.  A property that can be bound to data
holds its value inside a binding.
-/

namespace FormDesigner

/-- The values that a property is made for. -/
inductive PropertyType where
  | string
  | number
  | boolean
  | record
  | list
  | any
  | domain (range : Domain)
  deriving Inhabited

namespace PropertyType

/-- The value that stands for a missing default.  A choice starts as the list
of all its values. -/
def defaultValue? : PropertyType → Option Datum
  | .string => some (.string "")
  | .number => some (.number Number.zero)
  | .domain (.choice _ values) => some (.list values)
  | .domain (.plain .string _) => some (.string "")
  | .domain (.plain .number _) => some (.number Number.zero)
  | _ => none

/-- Whether a bare value fits; `null` always does. -/
def accepts : PropertyType → Value → Bool
  | _, .null => true
  | .any, _ => true
  | .string, .string _ => true
  | .number, .number _ => true
  | .boolean, .bool _ => true
  | .record, .record _ => true
  | .list, .list _ => true
  | .domain range, .list items =>
      range.values?.any fun values => Value.equalsItems (values.map Datum.value) items
  | .domain range, value => range.admits value
  | _, _ => false

end PropertyType

/-- One property of a component. -/
structure Property where
  name : String
  /-- The heading under which the property editor shows it. -/
  group : String := "main"
  type : PropertyType := .any
  /-- Whether the value is held inside a binding. -/
  bindable : Bool := false
  /-- Whether the property editor leaves it out. -/
  artificial : Bool := false
  /-- The parts of a value that is edited part by part. -/
  composite : Option (List String) := none
  /-- The value of a property that nothing is stored for.  What makes it is taken to be pure: it
  makes the same value each time. -/
  default : Option Datum := none
  /-- How the value is shown in markup, where that is not its plain text.  A hook is taken to be
  pure as well. -/
  hook : Option (Node → Value → String) := none
  tooltip : Option String := none
  editor : Option String := none
  deriving Inhabited

namespace Property

/-- The value of a property that nothing is stored for, if it has one. -/
def default? (property : Property) : Option Datum :=
  let datum := match property.default with
    | some datum => some datum
    | none => property.type.defaultValue?
  if property.bindable then some (.literal (datum.getD .null)) else datum

/-- The inside of the default of a property that can be bound. -/
def defaultInner (property : Property) : Datum :=
  match property.default? with
  | some ⟨.binding _ inner, h⟩ => ⟨inner, h⟩
  | _ => .null

/-- A stored value with the default in the place of what is missing. -/
def completed (property : Property) (stored : Option Datum) : Option Datum :=
  match stored with
  | none => property.default?
  | some ⟨.null, _⟩ => property.default?
  | some ⟨.binding kind .null, _⟩ =>
      if property.bindable then some (.binding kind property.defaultInner)
      else some (.binding kind .null)
  | some datum => some datum

/-- The differences between two stored values, missing ones taken as the
default. -/
def differences (property : Property) (path : String) (left right : Option Datum) :
    List Difference :=
  Value.compare path ((property.completed left).map Datum.value)
    ((property.completed right).map Datum.value)

/-- Whether two stored values count as the same. -/
def agrees (property : Property) (left right : Option Datum) : Bool :=
  (property.differences "" left right).isEmpty

/-- Whether a value may be stored.  In a property that can be bound it has to
be a binding, of a text as expression or of a literal that fits. -/
def accepts (property : Property) (value : Value) : Bool :=
  if property.bindable then
    match value with
    | .binding .expression (.string _) => true
    | .binding .literal inner => property.type.accepts inner
    | _ => false
  else property.type.accepts value

/-- The stored value of a node, or the default if that is missing or `null`. -/
def effective? (property : Property) (node : Node) : Option Value :=
  match node.value? property.name with
  | none => property.default?.map Datum.value
  | some .null => property.default?.map Datum.value
  | some value => some value

/-- A value of this property in markup. -/
def display (property : Property) (node : Node) (value : Option Value) : String :=
  match property.hook with
  | some hook => hook node (value.getD .null)
  | none => (value.map Value.markup).getD ""

/-- The value that a node has for this property, in markup. -/
def render (property : Property) (node : Node) : String :=
  property.display node (property.effective? node)

end Property

end FormDesigner
