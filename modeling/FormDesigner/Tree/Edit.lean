import FormDesigner.Tree.Basic

/-!
Changes to the links of a tree.

A change that fails may already have done a part of its work, and what it has
done stays.
-/

namespace FormDesigner

/-- A change to a tree that can fail; what was done before the failure stays. -/
abbrev TreeM (ε : Type) := EStateM ε Tree

namespace Tree

/-- The node with an id. -/
def requireNode (id : NodeId) : TreeM TreeError Node := do
  match (← get).node? id with
  | some node => return node
  | none => throw (.unknownNode id)

/-- Changes one node. -/
def update (id : NodeId) (change : Node → Node) : TreeM TreeError Unit := do
  let _ ← requireNode id
  modify fun tree => tree.mapNode id change

/-- Puts a node that has no parent at `index` among the children of `parent`. -/
def insertChild (parent : NodeId) (index : Nat) (child : NodeId) : TreeM TreeError Unit := do
  let _ ← requireNode parent
  let node ← requireNode child
  if let some existing := node.parent then
    throw (.attached child existing)
  if (← get).isAncestorOrSelf child parent then
    throw (.cycle child parent)
  update parent Node.ensureChildren
  let children := (← get).children parent
  if children.length < index then
    throw (.indexOutOfRange parent index children.length)
  update parent fun node => { node with children := some (children.insertIdx index child) }
  update child fun node => { node with parent := some parent }

/-- Puts a node that has no parent behind the children of `parent`. -/
def appendChild (parent child : NodeId) : TreeM TreeError Unit := do
  insertChild parent ((← get).children parent).length child

/-- Takes a node out of its parent.  The result is the parent and the place
that the node had there. -/
def detach (child : NodeId) : TreeM TreeError (Option (NodeId × Nat)) := do
  let node ← requireNode child
  match node.parent with
  | none => return none
  | some parent =>
      let index := (← get).indexOf? parent child
      if let some place := index then
        update parent fun node =>
          { node with children := node.children.map (·.eraseIdx place) }
      update child fun node => { node with parent := none }
      return index.map (parent, ·)

/-- Stores a value in a node.  The result is the value that was stored before. -/
def store (id : NodeId) (name : String) (datum : Datum) : TreeM TreeError (Option Value) := do
  let node ← requireNode id
  modify fun tree => tree.setValue id name datum
  return node.value? name

/-- Removes a stored value from a node.  The result is the value that was
stored. -/
def remove (id : NodeId) (name : String) : TreeM TreeError (Option Value) := do
  let node ← requireNode id
  modify fun tree => tree.dropValue id name
  return node.value? name

/-- Takes an empty child list away.  The result says whether there was one. -/
def clearEmptyChildren (id : NodeId) : TreeM TreeError Bool := do
  let node ← requireNode id
  update id Node.clearEmptyChildren
  return node.children = some []

/-- A list with two of its items exchanged. -/
def swapItems {α : Type} (items : List α) (first second : Nat) : List α :=
  match items[first]?, items[second]? with
  | some a, some b => (items.set first b).set second a
  | _, _ => items

/-- Exchanges two children of a node. -/
def swapChildren (parent : NodeId) (first second : Nat) : TreeM TreeError Unit := do
  let count := ((← get).children parent).length
  if count ≤ first then throw (.indexOutOfRange parent first count)
  if count ≤ second then throw (.indexOutOfRange parent second count)
  update parent fun node =>
    { node with children := node.children.map (swapItems · first second) }

/-- Sets the parent links of all nodes below `root` by the child lists. -/
def relink (root : NodeId) : TreeM TreeError Unit := do
  let _ ← requireNode root
  ((← get).descendants root).forM fun id => do
    ((← get).children id).forM fun child =>
      update child fun node => { node with parent := some id }

end Tree

end FormDesigner
