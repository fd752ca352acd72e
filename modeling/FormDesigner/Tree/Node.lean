import FormDesigner.Value.Datum

/-!
The elements of a form under construction.
-/

namespace FormDesigner

/-- The place of a node in its tree. -/
abbrev NodeId := Nat

/-- A node id in messages. -/
def NodeId.text (id : NodeId) : String := "#" ++ toString id

/-- One element of a form: an instance of a component, the values of its
properties, and its links. -/
structure Node where
  component : String
  fields : Fields Datum
  /-- The ordered children; `none` for a node that never had a child list. -/
  children : Option (List NodeId)
  parent : Option NodeId
  deriving Inhabited

namespace Node

/-- The stored value of a property. -/
def value? (name : String) (node : Node) : Option Value :=
  (Fields.get? name node.fields).map Datum.value

theorem value?_of_get? {name : String} {node : Node} {datum : Datum}
    (h : Fields.get? name node.fields = some datum) : node.value? name = some datum.value :=
  congrArg (Option.map Datum.value) h

theorem value?_congr {name : String} {node other : Node}
    (h : Fields.get? name node.fields = Fields.get? name other.fields) :
    node.value? name = other.value? name :=
  congrArg (Option.map Datum.value) h

/-- The children, without the difference between no list and an empty one. -/
def childList (node : Node) : List NodeId := node.children.getD []

/-- Gives a node an empty child list if it has none. -/
def ensureChildren (node : Node) : Node :=
  { node with children := some node.childList }

/-- Takes an empty child list away. -/
def clearEmptyChildren (node : Node) : Node :=
  if node.children = some [] then { node with children := none } else node

end Node

end FormDesigner
