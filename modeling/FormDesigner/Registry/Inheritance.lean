import FormDesigner.Component.Basic
import FormDesigner.Registry.Error

/-!
The properties that components inherit.

A component has the properties of its parents, in the order in which it names
them, and then its own.  A property that comes from two sides counts once; two
different properties of one name are refused.
-/

namespace FormDesigner

namespace Inheritance

/-- Adds a property behind others, unless it is there already. -/
def addProperty (component : String) (list : PropertyList) (added : SharedProperty) :
    Except RegistryError PropertyList :=
  match h : list.find? added.property.name with
  | none => .ok (list.snoc added h)
  | some present =>
      if present.serial = added.serial then .ok list
      else .error (.duplicateProperty component added.property.name)

theorem addProperty_of_new {component : String} {list : PropertyList} {added : SharedProperty}
    (h : list.find? added.property.name = none) :
    addProperty component list added = .ok (list.snoc added h) := by
  rw [addProperty]
  split
  · rfl
  · next hfound => cases h.symm.trans hfound

theorem addProperty_of_present {component : String} {list : PropertyList}
    {added present : SharedProperty} (h : list.find? added.property.name = some present) :
    addProperty component list added =
      if present.serial = added.serial then .ok list
      else .error (.duplicateProperty component added.property.name) := by
  rw [addProperty]
  split
  · next hnone => cases h.symm.trans hnone
  · next hfound =>
      cases h.symm.trans hfound
      rfl

/-- The properties of a component, from those of its parents and its own. -/
def merge (component : String) (properties : List SharedProperty) :
    Except RegistryError PropertyList :=
  properties.foldlM (addProperty component) .empty

/-- The components that are done, with all their properties. -/
abbrev Resolved := List (String × PropertyList)

/-- The properties of a component that is done. -/
def Resolved.properties (done : Resolved) (id : String) : PropertyList :=
  (done.lookup id).getD .empty

/-- The ids of a circle that closes at `id`. -/
def circle (path : List String) (id : String) : List String :=
  path.dropWhile (· ≠ id) ++ [id]

/-- Finds the properties of a component and of all that it inherits from.  The
path holds the heirs that wait for it.  It never holds an id twice, so it is no
longer than the list of declarations, which bounds its length here. -/
def resolve (declarations : List ComponentDeclaration) :
    Nat → List String → Resolved → ComponentDeclaration → Except RegistryError Resolved
  | 0, path, _, component => .error (.cyclicInheritance (circle path component.id))
  | bound + 1, path, done, component =>
      if (done.lookup component.id).isSome then .ok done
      else if path.contains component.id then
        .error (.cyclicInheritance (circle path component.id))
      else do
        let done ← component.inherits.foldlM (fun done name =>
          match declarations.find? (fun parent => parent.id = name) with
          | some parent =>
              resolve declarations bound (path ++ [component.id]) done parent
          | none => .error (.unknownParent component.id name)) done
        let properties ← merge component.id
          (component.inherits.flatMap (fun id => (done.properties id).items) ++ component.own)
        return done ++ [(component.id, properties)]

/-- Finds the properties of all components. -/
def resolveAll (declarations : List ComponentDeclaration) : Except RegistryError Resolved :=
  declarations.foldlM (fun done component =>
    resolve declarations (declarations.length + 1) [] done component) []

end Inheritance

end FormDesigner
