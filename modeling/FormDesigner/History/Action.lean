import FormDesigner.Editor.Basic

/-!
Actions: changes to a tree that can be taken back.

Applying an action notes what taking it back needs.  An action that cannot be
applied leaves the tree as it is; one that cannot be taken back may leave a
part of the work done.
-/

namespace FormDesigner

/-- A change to a tree. -/
inductive Action where
  /-- The values of a node were edited in place, starting from `baseline`. -/
  | modification (node : NodeId) (baseline : Blueprint)
  /-- A node moves under another one, or out of its parent.  `origin` is where
  it was, and `createdList` says that the move gave the new parent its child
  list. -/
  | reparent (node : NodeId) (target : Option NodeId) (origin : Option (NodeId × Nat))
      (createdList : Bool)
  /-- Two children of a node change places. -/
  | reorder (parent : NodeId) (first second : Nat)
  /-- A node that has no parent becomes the last child of another one. -/
  | create (node parent : NodeId) (createdList : Bool)
  /-- A node leaves its parent. -/
  | delete (node : NodeId) (origin : Option (NodeId × Nat))

/-- Why an action fails. -/
inductive HistoryError where
  | tree (cause : TreeError)
  | editor (cause : EditorError)
  /-- A node that has no parent cannot be deleted. -/
  | notAttached (node : NodeId)

namespace HistoryError

def message : HistoryError → String
  | .tree cause => "history: " ++ cause.message
  | .editor cause => "history: " ++ cause.message
  | .notAttached node => "history: node " ++ node.text ++ " has no parent"

/-- The messages of what lies behind an error. -/
def causes : HistoryError → List String
  | .tree cause => [cause.message]
  | .editor cause => cause.message :: cause.causes
  | .notAttached _ => []

end HistoryError

namespace Action

/-- The move of a node, not yet applied. -/
def move (node : NodeId) (target : Option NodeId) : Action := .reparent node target none false

/-- The attachment of a new node, not yet applied. -/
def attach (node parent : NodeId) : Action := .create node parent false

/-- The removal of a node, not yet applied. -/
def remove (node : NodeId) : Action := .delete node none

/-- The name of an action in the history. -/
def label : Action → String
  | .modification _ _ => "property change"
  | .reparent _ _ _ _ => "reparent"
  | .reorder _ _ _ => "reorder"
  | .create _ _ _ => "create"
  | .delete _ _ => "delete"

/-- Runs a change to a tree as part of an action. -/
def onTree {α : Type} (change : TreeM TreeError α) : TreeM HistoryError α :=
  change.adaptExcept .tree

/-- Whether a node has no child list. -/
def lacksList (id : NodeId) : TreeM TreeError Bool := do
  return (← Tree.requireNode id).children.isNone

/-- Applies an action.  The result is the action with what taking it back
needs. -/
def apply : Action → TreeM HistoryError Action
  | .modification node baseline => do
      let _ ← onTree (Tree.requireNode node)
      return .modification node baseline
  | .reparent node none _ createdList => do
      let origin ← onTree (Tree.detach node)
      return .reparent node none origin createdList
  | .reparent node (some parent) _ _ => do
      let _ ← onTree (Tree.requireNode node)
      let _ ← onTree (Tree.requireNode parent)
      if (← get).isAncestorOrSelf node parent then
        throw (.tree (.cycle node parent))
      let origin ← onTree (Tree.detach node)
      let createdList ← onTree (lacksList parent)
      onTree (Tree.appendChild parent node)
      return .reparent node (some parent) origin createdList
  | .reorder parent first second => do
      onTree (Tree.swapChildren parent first second)
      return .reorder parent first second
  | .create node parent _ => do
      let createdList ← onTree (lacksList parent)
      onTree (Tree.appendChild parent node)
      return .create node parent createdList
  | .delete node _ => do
      let found ← onTree (Tree.requireNode node)
      if found.parent.isNone then throw (.notAttached node)
      let origin ← onTree (Tree.detach node)
      return .delete node origin

/-- Takes a child list away that the action created, if it is empty again. -/
def clearCreated (parent : NodeId) (createdList : Bool) : TreeM TreeError Unit :=
  if createdList then Tree.update parent Node.clearEmptyChildren else pure ()

/-- Puts a node back where it was. -/
def restore (node : NodeId) : Option (NodeId × Nat) → TreeM TreeError Unit
  | none => pure ()
  | some (parent, index) => Tree.insertChild parent index node

/-- Copies the values of a blueprint back onto a node. -/
def restoreValues (registry : Registry) (node : NodeId) (baseline : Blueprint) :
    TreeM HistoryError Unit := do
  let live ← onTree (Tree.requireNode node)
  match Editor.copyProperties registry baseline.component baseline.fields live.fields with
  | .ok fields => onTree (Tree.update node fun live => { live with fields })
  | .error failure => throw (.editor (.registry failure))

/-- Takes an applied action back. -/
def revert (registry : Registry) : Action → TreeM HistoryError Unit
  | .modification node baseline => restoreValues registry node baseline
  | .reparent node target origin createdList => do
      let _ ← onTree (Tree.detach node)
      if let some parent := target then
        onTree (clearCreated parent createdList)
      onTree (restore node origin)
  | .reorder parent first second => onTree (Tree.swapChildren parent first second)
  | .create node parent createdList => do
      let _ ← onTree (Tree.detach node)
      onTree (clearCreated parent createdList)
  | .delete node origin => do
      let _ ← onTree (Tree.detach node)
      onTree (restore node origin)

end Action

end FormDesigner
