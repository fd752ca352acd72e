import FormDesigner.Component.Basic

/-!
Drags: what the user holds before dropping it.

The type of a drag names what is dragged and the component of it, with a slash
between them.
-/

namespace FormDesigner

/-- What is dragged. -/
inductive DragSubject where
  /-- A new element, made when it is dropped. -/
  | create
  /-- A node of the tree. -/
  | move (node : NodeId)
  deriving DecidableEq, Repr

/-- A drag. -/
structure DragPayload where
  type : String
  subject : DragSubject
  /-- The text shown while dragging. -/
  displayText : Option String := none
  deriving DecidableEq, Repr

/-- The part of a text before the first slash, and what is behind the slash if
there is one. -/
def splitSlash (text : List Char) : List Char × Option (List Char) :=
  (text.takeWhile (· ≠ '/'), (text.dropWhile (· ≠ '/')).tail?)

namespace DragPayload

/-- The first part of the type of a new element's drag. -/
def componentType : String := "component"

/-- The first part of the type of a node's drag. -/
def nodeType : String := "node"

/-- The drag of a new element. -/
def create (component : String) : DragPayload :=
  ⟨componentType ++ "/" ++ component, .create, none⟩

/-- The drag of a node. -/
def move (node : NodeId) (component : String) : DragPayload :=
  ⟨nodeType ++ "/" ++ component, .move node, none⟩

/-- The drag out of the palette. -/
def ofComponent (component : Component) : DragPayload :=
  { create component.id with displayText := some component.labelText }

/-- The component that the type names: what is behind the first slash, or all
of it if there is none. -/
def component (payload : DragPayload) : String :=
  match (splitSlash payload.type.toList).2 with
  | some rest => String.ofList rest
  | none => payload.type

/-- The node of a node's drag. -/
def node? (payload : DragPayload) : Option NodeId :=
  match payload.subject with
  | .create => none
  | .move node => some node

/-- Whether a pattern ends in a slash and a star, and what is before them. -/
def wildcard? (pattern : List Char) : Option (List Char) :=
  match pattern.reverse with
  | '*' :: '/' :: rest => some rest.reverse
  | _ => none

/-- Whether the type fits a pattern: a star for anything, a start with a slash
and a star for all types with that start and a slash behind it, or the type
itself. -/
def matchesType (payload : DragPayload) (pattern : String) : Bool :=
  if pattern = "*" || pattern = "*/*" then true
  else
    match wildcard? pattern.toList with
    | some start => (start ++ ['/']).isPrefixOf payload.type.toList
    | none => payload.type = pattern

end DragPayload

end FormDesigner
