import FormDesigner.History.Log

/-!
An editing session: a tree, its log, and the selected node.

Edits of the selected node's values come one by one, but the log holds one
entry for all of them.  The entry goes away again when the values are back
where they were when the node was selected.
-/

namespace FormDesigner

/-- The selected node. -/
structure Selection where
  node : NodeId
  /-- The values of the node when it was selected, or at the last change of the
  tree's links since then. -/
  baseline : Blueprint
  /-- The entry that stands for the edits since. -/
  pending : Option Nat

/-- A tree under construction, its log, and the selected node. -/
structure Session extends Journal where
  selection : Option Selection

/-- An operation of a session that can fail; what was done before the failure
stays. -/
abbrev SessionM := EStateM HistoryError Session

namespace Session

/-- A session that starts with a tree. -/
def start (tree : Tree) : Session := ⟨⟨tree, Log.empty⟩, none⟩

/-- Runs an operation on the journal of a session. -/
def onJournal {α : Type} (operation : JournalM α) : SessionM α := fun session =>
  match operation session.toJournal with
  | .ok value journal => .ok value { session with toJournal := journal }
  | .error failure journal => .error failure { session with toJournal := journal }

/-- Runs a change to the tree of a session. -/
def onTree {α : Type} (change : TreeM EditorError α) : SessionM α :=
  onJournal (Journal.onTree (change.adaptExcept .editor))

/-- An answer of the editor inside an operation of a session. -/
def fromEditor {α : Type} (answer : Except EditorError α) : SessionM α :=
  match answer with
  | .ok value => pure value
  | .error failure => throw (.editor failure)

def setSelection (selection : Option Selection) : SessionM Unit :=
  modify fun session => { session with selection }

/-- Selects a node, or none.  After a failure none is selected. -/
def select (registry : Registry) (node : Option NodeId) : SessionM Unit := do
  setSelection none
  match node with
  | none => return ()
  | some id =>
      let baseline ← fromEditor (Editor.copyNode registry (← get).tree id)
      setSelection (some ⟨id, baseline, none⟩)

/-- The entry of the selected node's edits, if it is still in the log. -/
def pendingEntry (session : Session) (selection : Selection) : Option Nat :=
  selection.pending.filter session.log.contains

/-- Whether the values of the selected node differ from the remembered ones. -/
def isModified (registry : Registry) (selection : Selection) : SessionM Bool := do
  match (← get).tree.node? selection.node with
  | none => throw (.tree (.unknownNode selection.node))
  | some live =>
      fromEditor ((Editor.differs registry selection.baseline.component
        selection.baseline.fields live.fields).mapError .registry)

/-- Takes note of an edit of the selected node's values.  The first edit makes
an entry; a later one that restores the values takes it away. -/
def objectChanged (registry : Registry) : SessionM Unit := do
  let session ← get
  match session.selection with
  | none => return ()
  | some selection =>
      match session.pendingEntry selection with
      | none =>
          let action := Action.modification selection.node selection.baseline
          let number ← onJournal (Journal.push action.label action)
          setSelection (some { selection with pending := some number })
      | some number =>
          if ← isModified registry selection then return ()
          else
            modify fun session => { session with log := (session.log.remove number).2 }
            setSelection (some { selection with pending := none })

/-- Applies a change of the tree's links.  The selected node's values are
remembered anew. -/
def pushStructural (registry : Registry) (action : Action) : SessionM Nat := do
  let number ← onJournal (Journal.push action.label action)
  match (← get).selection with
  | none => return number
  | some selection =>
      setSelection (some { selection with pending := none })
      let baseline ← fromEditor (Editor.copyNode registry (← get).tree selection.node)
      setSelection (some { selection with pending := none, baseline })
      return number

/-- Moves a node under another one, or out of its parent. -/
def reparent (registry : Registry) (node : NodeId) (target : Option NodeId) : SessionM Nat :=
  pushStructural registry (Action.move node target)

/-- Attaches a new node. -/
def created (registry : Registry) (node parent : NodeId) : SessionM Nat :=
  pushStructural registry (Action.attach node parent)

/-- Takes a node out of its parent. -/
def deleted (registry : Registry) (node : NodeId) : SessionM Nat :=
  pushStructural registry (Action.remove node)

/-- Exchanges two children of a node. -/
def reorderChild (registry : Registry) (parent : NodeId) (first second : Nat) : SessionM Nat :=
  pushStructural registry (.reorder parent first second)

/-- Takes the latest action back. -/
def undo (registry : Registry) : SessionM Bool := onJournal (Journal.undo registry)

/-- Takes all actions back. -/
def revert (registry : Registry) : SessionM Nat := onJournal (Journal.revert registry)

/-- Makes the tree as it is the start of the session. -/
def clear : SessionM Unit :=
  modify fun session => { session with log := session.log.clear }

/-- Whether anything was done that can be taken back. -/
def isDirty (session : Session) : Bool := session.log.isDirty

end Session

end FormDesigner
