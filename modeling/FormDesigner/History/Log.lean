import FormDesigner.History.Action

/-!
The log of the actions that were applied to a tree.

The latest entry comes first.  Every entry has a number of its own, which is
never given out again.
-/

namespace FormDesigner

/-- An applied action. -/
structure Entry where
  label : String
  number : Nat
  action : Action

/-- The applied actions, the latest first. -/
structure Log where
  entries : List Entry
  /-- The number of the next entry.  It has no bound here: a counter of 64 bits is the same for
  fewer than 2 ^ 64 entries, which is assumed of every log. -/
  next : Nat

namespace Log

def empty : Log := ⟨[], 0⟩

/-- Whether there is anything to take back. -/
def isDirty (log : Log) : Bool := !log.entries.isEmpty

def contains (log : Log) (number : Nat) : Bool :=
  log.entries.any fun entry => entry.number = number

/-- Adds an entry for an action that was applied. -/
def add (log : Log) (label : String) (action : Action) : Log :=
  ⟨⟨label, log.next, action⟩ :: log.entries, log.next + 1⟩

/-- Forgets an entry without taking its action back. -/
def remove (log : Log) (number : Nat) : Option Entry × Log :=
  (log.entries.find? fun entry => entry.number = number,
    { log with entries := log.entries.eraseP fun entry => entry.number = number })

/-- Forgets all entries: the tree as it is becomes the start. -/
def clear (log : Log) : Log := { log with entries := [] }

end Log

/-- A tree with the log of what was done to it. -/
structure Journal where
  tree : Tree
  log : Log

/-- An operation on a journal that can fail; what was done before the failure
stays. -/
abbrev JournalM := EStateM HistoryError Journal

namespace Journal

/-- Runs a change to the tree of a journal. -/
def onTree {α : Type} (change : TreeM HistoryError α) : JournalM α := fun journal =>
  match change journal.tree with
  | .ok value tree => .ok value { journal with tree }
  | .error failure tree => .error failure { journal with tree }

/-- Applies an action and records it.  The result is the number of its entry.
A failed action is not recorded. -/
def push (label : String) (action : Action) : JournalM Nat := do
  let applied ← onTree action.apply
  modifyGet fun journal =>
    (journal.log.next, { journal with log := journal.log.add label applied })

/-- Takes the latest action back and forgets it.  The result says whether there
was one.  An action that cannot be taken back stays in the log. -/
def undo (registry : Registry) : JournalM Bool := do
  match (← get).log.entries with
  | [] => return false
  | entry :: rest =>
      onTree (entry.action.revert registry)
      modify fun journal => { journal with log := { journal.log with entries := rest } }
      return true

/-- Takes actions back, the latest first, until none is left or one fails.  The
bound is the number of entries. -/
def revertAll (registry : Registry) : Nat → JournalM Nat
  | 0 => return 0
  | bound + 1 => do
      if ← undo registry then
        return (← revertAll registry bound) + 1
      else return 0

/-- Takes all actions back.  The result is their number. -/
def revert (registry : Registry) : JournalM Nat := do
  revertAll registry (← get).log.entries.length

end Journal

end FormDesigner
