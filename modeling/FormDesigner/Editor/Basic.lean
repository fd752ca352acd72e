import FormDesigner.Editor.Properties
import FormDesigner.Tree.Edit

/-!
Operations of the editor on a tree.
-/

namespace FormDesigner

namespace Editor

/-- Runs a change to a tree as an operation of the editor. -/
def onTree {α : Type} (change : TreeM TreeError α) : TreeM EditorError α :=
  change.adaptExcept .tree

/-- An answer of the registry inside an operation of the editor. -/
def fromRegistry {α : Type} (answer : Except RegistryError α) : TreeM EditorError α :=
  match answer with
  | .ok value => pure value
  | .error failure => throw (.registry failure)

/-- Stores the missing defaults of one node. -/
def fillNode (registry : Registry) (id : NodeId) : TreeM EditorError Unit := do
  let node ← onTree (Tree.requireNode id)
  let component ← fromRegistry (registry.require node.component)
  onTree (Tree.update id component.withDefaults)

/-- Sets the parent links below a node and stores the missing defaults. -/
def connect (registry : Registry) (root : NodeId) : TreeM EditorError Unit := do
  onTree (Tree.relink root)
  ((← get).descendants root).forM (fillNode registry)

/-- Adds a blueprint to a tree, with all defaults.  Its components are looked up
before anything is added. -/
def instantiate (registry : Registry) (blueprint : Blueprint) : TreeM EditorError NodeId := do
  fromRegistry (checkKnown registry blueprint)
  let root ← modifyGet fun tree => tree.plant blueprint
  connect registry root
  return root

/-- Stores a value that the property accepts.  The result is the value that was
stored before. -/
def setProperty (registry : Registry) (id : NodeId) (name : String) (datum : Datum) :
    TreeM EditorError (Option Value) := do
  let node ← onTree (Tree.requireNode id)
  let component ← fromRegistry (registry.require node.component)
  let property ← fromRegistry (Registry.requireProperty component name)
  if property.accepts datum.value then onTree (Tree.store id name datum)
  else throw (.rejected component.id name datum.value)

end Editor

end FormDesigner
