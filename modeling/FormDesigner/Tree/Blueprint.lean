import FormDesigner.Value.Datum

/-!
Blueprints: form elements apart from any tree, with all that is below them.
-/

namespace FormDesigner

/-- An element with its properties and children, without links. -/
structure Blueprint where
  component : String
  fields : Fields Datum
  /-- The ordered children; `none` for an element that has no child list. -/
  children : Option (List Blueprint)
  deriving Inhabited

namespace Blueprint

/-- The children, without the difference between no list and an empty one. -/
def childList (blueprint : Blueprint) : List Blueprint := blueprint.children.getD []

/-- The stored value of a property. -/
def value? (name : String) (blueprint : Blueprint) : Option Value :=
  (Fields.get? name blueprint.fields).map Datum.value

/-- Takes an empty child list away. -/
def clearEmptyChildren (blueprint : Blueprint) : Blueprint :=
  match blueprint.children with
  | some [] => { blueprint with children := none }
  | _ => blueprint

mutual

/-- The number of elements. -/
def count : Blueprint → Nat
  | ⟨_, _, none⟩ => 1
  | ⟨_, _, some children⟩ => 1 + countAll children

def countAll : List Blueprint → Nat
  | [] => 0
  | child :: rest => count child + countAll rest

end

end Blueprint

end FormDesigner
