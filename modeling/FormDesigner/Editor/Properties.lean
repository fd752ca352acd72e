import FormDesigner.Editor.Error
import FormDesigner.Registry.Basic
import FormDesigner.Tree.Exchange

/-!
Elements compared and copied property by property.

The component of an element says which properties count.  Names that start
with a dollar sign are bookkeeping: they are never compared and never copied.
-/

namespace FormDesigner

/-- Whether a property is bookkeeping. -/
def Property.isInternal (property : Property) : Bool := property.name.toList.head? = some '$'

/-- The properties of a component that are compared and copied. -/
def Component.visibleProperties (component : Component) : List Property :=
  component.properties.filter fun property => !property.isInternal

namespace Editor

/-- The differences between the values of two elements, by the component of the
left one. -/
def differences (registry : Registry) (component : String) (left right : Fields Datum) :
    Except RegistryError (List Difference) := do
  let component ← registry.require component
  return component.visibleProperties.flatMap fun property =>
    property.differences property.name (Fields.get? property.name left)
      (Fields.get? property.name right)

/-- Whether the values of two elements differ. -/
def differs (registry : Registry) (component : String) (left right : Fields Datum) :
    Except RegistryError Bool :=
  (differences registry component left right).map fun found => !found.isEmpty

/-- Copies the value of one property, also when there is none. -/
def copyProperty (source : Fields Datum) (target : Fields Datum) (property : Property) :
    Fields Datum :=
  match Fields.get? property.name source with
  | some datum => Fields.put property.name datum target
  | none => Fields.drop property.name target

/-- Copies the values of an element of the given component onto others. -/
def copyProperties (registry : Registry) (component : String) (source target : Fields Datum) :
    Except RegistryError (Fields Datum) := do
  let component ← registry.require component
  return component.visibleProperties.foldl (copyProperty source) target

/-- The node of an id. -/
def requireNode (tree : Tree) (id : NodeId) : Except EditorError Node :=
  match tree.node? id with
  | some node => .ok node
  | none => .error (.tree (.unknownNode id))

/-- A blueprint of one node with the values that its component declares. -/
def copyNode (registry : Registry) (tree : Tree) (id : NodeId) : Except EditorError Blueprint := do
  let node ← requireNode tree id
  let fields ← (copyProperties registry node.component node.fields .empty).mapError .registry
  return ⟨node.component, fields, none⟩

/-- A blueprint of a node and of at most `bound` levels in all. -/
def copyBelow (registry : Registry) (tree : Tree) : Nat → NodeId → Except EditorError Blueprint
  | 0, id => .error (.tree (.unknownNode id))
  | bound + 1, id => do
      let copy ← copyNode registry tree id
      match (tree.node? id).bind Node.children with
      | none => return copy
      | some children => do
          let copies ← children.mapM (copyBelow registry tree bound)
          return { copy with children := some copies }

/-- A blueprint of a node and all that is below it, with the values that the
components declare. -/
def copySubtree (registry : Registry) (tree : Tree) (root : NodeId) :
    Except EditorError Blueprint :=
  copyBelow registry tree tree.size root

mutual

/-- Removes from a blueprint all that loading it puts back: values that count
as defaults, and empty child lists.  An unknown component ends the work; what
was done up to there stays. -/
def strip (registry : Registry) : Blueprint → Blueprint × Option RegistryError
  | ⟨id, fields, children⟩ =>
      match registry.require id with
      | .error failure => (⟨id, fields, children⟩, some failure)
      | .ok component =>
          match children with
          | none => (⟨id, component.deleteDefaults fields, none⟩, none)
          | some [] => (⟨id, component.deleteDefaults fields, none⟩, none)
          | some (first :: rest) =>
              let stripped := stripAll registry (first :: rest)
              (⟨id, component.deleteDefaults fields, some stripped.1⟩, stripped.2)

def stripAll (registry : Registry) : List Blueprint → List Blueprint × Option RegistryError
  | [] => ([], none)
  | child :: rest =>
      match strip registry child with
      | (stripped, some failure) => (stripped :: rest, some failure)
      | (stripped, none) =>
          let others := stripAll registry rest
          (stripped :: others.1, others.2)

end

mutual

/-- Looks up the components of a blueprint, each element before its children. -/
def checkKnown (registry : Registry) : Blueprint → Except RegistryError Unit
  | ⟨id, _, children⟩ => do
      let _ ← registry.require id
      match children with
      | none => return ()
      | some children => checkAllKnown registry children

def checkAllKnown (registry : Registry) : List Blueprint → Except RegistryError Unit
  | [] => .ok ()
  | child :: rest => do
      checkKnown registry child
      checkAllKnown registry rest

end

end Editor

end FormDesigner
