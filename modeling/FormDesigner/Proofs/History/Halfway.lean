import FormDesigner.Proofs.History.Nesting
import FormDesigner.Proofs.Tree.Refusals

/-!
What a failed undo leaves behind.

As long as every action is undone right after what came on top of it, undoing does not fail.  It
can fail once entries were forgotten or the tree was changed without the log.  The entry stays
then, but the first steps of taking the action back are done: the node has left its place, a
child list that the action made may be gone, and the place to go back to may have got one.
-/

namespace FormDesigner

open Program

namespace Tree

variable {tree : Tree} {target : Option NodeId} {createdList : Bool}

/-- The tree without the child list that an action made, if the list is empty. -/
def cleared (tree : Tree) (target : Option NodeId) (createdList : Bool) : Tree :=
  match target with
  | none => tree
  | some above => finish (Action.clearCreated above createdList) tree

/-- There is no empty child list to take away. -/
def NoneToClear (tree : Tree) (target : Option NodeId) (createdList : Bool) : Prop :=
  createdList = true → ∀ above, target = some above → tree.childList? above ≠ some []

theorem cleared_of_noneToClear (hnone : tree.NoneToClear target createdList) :
    tree.cleared target createdList = tree := by
  cases target with
  | none => rfl
  | some above =>
      cases createdList with
      | false => rfl
      | true =>
          change finish (update above Node.clearEmptyChildren) tree = tree
          rw [finish_update]
          by_cases hknown : above < tree.size
          · obtain ⟨node, hnode⟩ := exists_node?_of_lt hknown
            have hlist : node.children ≠ some [] := by
              have hkept := hnone rfl above rfl
              rwa [childList?, hnode] at hkept
            rw [mapNode_clearEmptyChildren hnode, if_neg hlist]
          · exact mapNode_of_le (Nat.le_of_not_lt hknown) _

theorem cleared_of_empty {above : NodeId} (hempty : tree.childList? above = some []) :
    tree.cleared (some above) true = tree.setChildren above none := by
  obtain ⟨node, hnode, hchildren⟩ := Option.bind_eq_some_iff.mp hempty
  change finish (update above Node.clearEmptyChildren) tree = _
  rw [finish_update, mapNode_clearEmptyChildren hnode, if_pos hchildren]

/-- There is none to clear, or there is one. -/
theorem cleared_cases (tree : Tree) (target : Option NodeId) (createdList : Bool) :
    tree.NoneToClear target createdList ∨
      ∃ above, target = some above ∧ createdList = true ∧ tree.childList? above = some [] := by
  by_cases hnone : tree.NoneToClear target createdList
  · exact Or.inl hnone
  · rw [NoneToClear] at hnone
    push Not at hnone
    obtain ⟨hcreated, above, htarget, hempty⟩ := hnone
    exact Or.inr ⟨above, htarget, hcreated, hempty⟩

theorem parent?_cleared (id : NodeId) :
    (tree.cleared target createdList).parent? id = tree.parent? id := by
  rcases tree.cleared_cases target createdList with hnone | ⟨above, rfl, rfl, hempty⟩
  · rw [cleared_of_noneToClear hnone]
  · rw [cleared_of_empty hempty, parent?_setChildren]

theorem contents_cleared : (tree.cleared target createdList).contents = tree.contents := by
  cases target with
  | none => rfl
  | some above => exact Action.keepsContents_clearCreated above createdList tree

/-- The node has no parent, and where it came from there is a child list, or no way back. -/
structure AtRest (tree : Tree) (node : NodeId) (origin : Option (NodeId × Nat)) : Prop where
  free : tree.parent? node = none
  place : ∀ above index, origin = some (above, index) → tree.childList? above = none →
    node = above ∨ Ancestor tree node above

end Tree

namespace Action

variable {registry : Registry} {tree left : Tree} {failure : HistoryError}

/-- What an action in the log speaks of is among the first `size` nodes, and a move that made a
child list did not start from there. -/
def Grounded (size : Nat) : Action → Prop
  | .modification node _ => node < size
  | .reparent node target origin createdList => node < size ∧
      (∀ above, target = some above → above < size) ∧
      ∀ above index, origin = some (above, index) →
        above < size ∧ (createdList = true → target ≠ some above)
  | .reorder _ _ _ => True
  | .create node parent _ => node < size ∧ parent < size
  | .delete node origin => node < size ∧ ∀ above index, origin = some (above, index) → above < size

theorem Grounded.mono {action : Action} {size more : Nat} (h : action.Grounded size)
    (hle : size ≤ more) : action.Grounded more := by
  cases action with
  | modification node baseline => exact Nat.lt_of_lt_of_le h hle
  | reparent node target origin createdList =>
      obtain ⟨hnode, htarget, horigin⟩ := h
      refine ⟨Nat.lt_of_lt_of_le hnode hle, ?_, ?_⟩
      · exact fun above habove => Nat.lt_of_lt_of_le (htarget above habove) hle
      · intro above index hplace
        have hknown := horigin above index hplace
        exact ⟨Nat.lt_of_lt_of_le hknown.1 hle, hknown.2⟩
  | reorder parent first second => trivial
  | create node parent createdList =>
      exact ⟨Nat.lt_of_lt_of_le h.1 hle, Nat.lt_of_lt_of_le h.2 hle⟩
  | delete node origin =>
      refine ⟨Nat.lt_of_lt_of_le h.1 hle, fun above index hplace => ?_⟩
      exact Nat.lt_of_lt_of_le (h.2 above index hplace) hle

/-- A removal is recorded as a move out of the parent is. -/
theorem Grounded.leave {node : NodeId} {origin : Option (NodeId × Nat)} {size : Nat}
    (h : (Action.delete node origin).Grounded size) :
    (Action.reparent node none origin false).Grounded size := by
  refine ⟨h.1, fun above htarget => ?_, fun above index hplace => ?_⟩
  · cases htarget
  · exact ⟨h.2 above index hplace, Bool.noConfusion⟩

/-- A failed attempt to take the action back does nothing. -/
def Spares (tree : Tree) : Action → Prop
  | .reparent node target origin createdList =>
      tree.AtRest node origin ∧ tree.NoneToClear target createdList
  | .delete node origin => tree.AtRest node origin
  | _ => True

section Apply

variable {after : Tree}

theorem lt_size_of_detach {id : NodeId} {origin : Option (NodeId × Nat)}
    (h : Tree.detach id tree = .ok origin after) : id < tree.size := by
  by_contra hunknown
  rw [Tree.detach_unknown (Nat.le_of_not_lt hunknown)] at h
  cases h

theorem of_lacksList {id : NodeId} {lacks : Bool} (h : lacksList id tree = .ok lacks tree) :
    id < tree.size ∧ (lacks = true → tree.childList? id = none) := by
  by_cases hknown : id < tree.size
  · obtain ⟨node, hnode⟩ := Tree.exists_node?_of_lt hknown
    rw [lacksList_ok hnode] at h
    cases h
    refine ⟨hknown, fun hlacks => ?_⟩
    rw [Tree.childList?, hnode]
    exact Option.isNone_iff_eq_none.mp hlacks
  · rw [lacksList_error (Nat.le_of_not_lt hknown)] at h
    cases h

/-- The parent that a node is taken out of keeps its child list. -/
theorem childList?_of_detach (h : tree.WellFormed) {node above : NodeId} {index : Nat}
    (hdetach : Tree.detach node tree = .ok (some (above, index)) after) :
    above < tree.size ∧ after.childList? above ≠ none := by
  have hparent := h.parent?_of_detach hdetach
  refine ⟨h.parent_lt_size hparent, ?_⟩
  rw [(h.freed_of_detach (lt_size_of_detach hdetach) hdetach).list,
    h.childList?_of_parent? hparent]
  exact Option.some_ne_none _

/-- What is recorded of an applied action speaks of nodes that are there. -/
theorem grounded_of_apply (h : tree.WellFormed) {action applied : Action}
    (happly : action.apply tree = .ok applied after) : applied.Grounded tree.size := by
  cases applied_of_apply happly with
  | modification hnode => exact hnode
  | reorder => trivial
  | @create node parent _ _ _ hlacks happend =>
      rw [Tree.appendChild_eq] at happend
      have hjoin := ((h.insertChild_ok_iff parent _ node).mp ⟨_, happend⟩).1
      exact ⟨hjoin.child_lt, hjoin.parent_lt⟩
  | delete hdetach =>
      refine ⟨lt_size_of_detach hdetach, ?_⟩
      rintro above index rfl
      exact (childList?_of_detach h hdetach).1
  | leave hdetach =>
      refine ⟨lt_size_of_detach hdetach, ?_, ?_⟩
      · intro above htarget
        cases htarget
      · rintro above index rfl
        exact ⟨(childList?_of_detach h hdetach).1, fun _ htarget => nomatch htarget⟩
  | move hparent hdetach hlacks =>
      refine ⟨lt_size_of_detach hdetach, ?_, ?_⟩
      · rintro above ⟨⟩
        exact hparent
      · rintro above index rfl
        obtain ⟨habove, hlist⟩ := childList?_of_detach h hdetach
        refine ⟨habove, fun hcreated htarget => hlist ?_⟩
        cases htarget
        exact (of_lacksList hlacks).2 hcreated

end Apply

section Revert

/-- The links after a node was taken out. -/
theorem exists_freed (h : tree.WellFormed) {node : NodeId} (hnode : node < tree.size) :
    ∃ origin between, Tree.detach node tree = .ok origin between ∧ between.size = tree.size ∧
      between.contents = tree.contents ∧ tree.Freed node between := by
  obtain ⟨origin, between, hdetach, _, hsize, _⟩ := detach_known h hnode
  exact ⟨origin, between, hdetach, hsize, (KeepsContents.detach node).of_ok hdetach,
    h.freed_of_detach hnode hdetach⟩

theorem clearCreated_ok {above : NodeId} (habove : above < tree.size) (createdList : Bool) :
    clearCreated above createdList tree = .ok () (tree.cleared (some above) createdList) := by
  cases createdList with
  | false => rfl
  | true =>
      have hrun := Tree.update_ok habove Node.clearEmptyChildren
      rw [Tree.cleared, clearCreated, if_pos rfl, finish_of_ok hrun]
      exact hrun

/-- What fails when a move is taken back is putting the node back, after all the rest. -/
theorem revert_reparent {node : NodeId} {target : Option NodeId} {between : Tree}
    {noted origin : Option (NodeId × Nat)} (hdetach : Tree.detach node tree = .ok noted between)
    (htarget : ∀ above, target = some above → above < between.size) (createdList : Bool) :
    (Action.reparent node target origin createdList).revert registry tree =
      onTree (restore node origin) (between.cleared target createdList) := by
  rw [revert, bind_ok (onTree_ok hdetach)]
  cases target with
  | none => rfl
  | some above =>
      dsimp only
      rw [bind_ok (onTree_ok (clearCreated_ok (htarget above rfl) createdList))]

/-- A removal is taken back as a move out of the parent is. -/
theorem revert_delete (node : NodeId) (origin : Option (NodeId × Nat)) :
    (Action.delete node origin).revert registry =
      (Action.reparent node none origin false).revert registry := rfl

/-- To take a creation back succeeds as long as the two nodes are there. -/
theorem revert_create_ok (registry : Registry) (h : tree.WellFormed) {node parent : NodeId}
    {createdList : Bool}
    (hground : (Action.create node parent createdList).Grounded tree.size) :
    ∃ after, (Action.create node parent createdList).revert registry tree = .ok () after := by
  obtain ⟨_, between, hdetach, hsize, _⟩ := exists_freed h hground.1
  have hparent : parent < between.size := hsize.symm ▸ hground.2
  rw [revert, bind_ok (onTree_ok hdetach)]
  exact ⟨_, onTree_ok (clearCreated_ok hparent createdList)⟩

/-- What a failed attempt to take an action back leaves. -/
structure Stuck (action : Action) (tree left : Tree) : Prop where
  contents : left.contents = tree.contents
  /-- No node has got another parent, but one may have lost its own. -/
  parent : ∀ child above, left.parent? child = some above → tree.parent? child = some above
  stays : left = tree ↔ action.Spares tree

theorem Stuck.refl {action : Action} (h : action.Spares tree) : action.Stuck tree tree where
  contents := rfl
  parent := fun _ _ hparent => hparent
  stays := iff_of_true rfl h

/-- Putting a node back fails where its old place refuses it. -/
theorem of_restore_error {node : NodeId} {origin : Option (NodeId × Nat)}
    (hfail : onTree (restore node origin) tree = .error failure left) :
    ∃ place index cause, origin = some (place, index) ∧
      Tree.insertChild place index node tree = .error cause left := by
  cases origin with
  | none => cases hfail
  | some origin =>
      obtain ⟨cause, hinsert⟩ := of_adaptExcept_error hfail
      exact ⟨origin.1, origin.2, cause, rfl, hinsert⟩

/-- A move of a node that is out of its parent already cannot be taken back. -/
theorem spares_iff_of_free (h : tree.WellFormed) {node place : NodeId} {target : Option NodeId}
    {index : Nat} {createdList : Bool} {cause : TreeError}
    (hground : (Action.reparent node target (some (place, index)) createdList).Grounded tree.size)
    (hfree : tree.parent? node = none)
    (hinsert : Tree.insertChild place index node (tree.cleared target createdList) =
      .error cause left) :
    left = tree ↔ (Action.reparent node target (some (place, index)) createdList).Spares tree := by
  obtain ⟨hnode, htarget, horigin⟩ := hground
  obtain ⟨hplace, hother⟩ := horigin place index rfl
  rcases tree.cleared_cases target createdList with hnone | ⟨above, rfl, rfl, hempty⟩
  · rw [Tree.cleared_of_noneToClear hnone] at hinsert
    rw [h.insertChild_error_iff hinsert]
    constructor
    · intro hstays
      refine ⟨⟨hfree, ?_⟩, hnone⟩
      rintro _ _ ⟨⟩ hlist
      by_contra hapart
      exact hstays ⟨⟨hplace, hnode, hfree, hapart⟩, hlist⟩
    · rintro ⟨hrest, _⟩ ⟨hjoin, hlist⟩
      exact hjoin.apart (hrest.place place index rfl hlist)
  · -- The list that the move made is gone, and the old place is another one.
    rw [Tree.cleared_of_empty hempty] at hinsert
    have hgone : left.childList? above = none := by
      rw [Tree.childList?_of_insertChild_error hinsert fun heq => hother rfl (congrArg some heq),
        Tree.childList?_setChildren (htarget above rfl), if_pos rfl]
    refine iff_of_false ?_ fun hspares => hspares.2 rfl above rfl hempty
    rintro rfl
    rw [hempty] at hgone
    cases hgone

/-- A move that cannot be taken back: the node was taken out, and a child list that the move made
was taken away, before the old place refuses the node. -/
theorem stuck_reparent (h : tree.WellFormed) {node : NodeId} {target : Option NodeId}
    {origin : Option (NodeId × Nat)} {createdList : Bool}
    (hground : (Action.reparent node target origin createdList).Grounded tree.size)
    (hfail : (Action.reparent node target origin createdList).revert registry tree =
      .error failure left) :
    (Action.reparent node target origin createdList).Stuck tree left := by
  obtain ⟨noted, between, hdetach, hsize, hcontents, hfreed⟩ := exists_freed h hground.1
  rw [revert_reparent hdetach (hsize.symm ▸ hground.2.1)] at hfail
  obtain ⟨place, index, cause, rfl, hinsert⟩ := of_restore_error hfail
  have hparents : ∀ id, left.parent? id = if id = node then none else tree.parent? id := by
    intro id
    rw [Tree.parent?_of_insertChild_error hinsert, Tree.parent?_cleared, hfreed.above]
  constructor
  · have hkept := KeepsContents.insertChild place index node (between.cleared target createdList)
    rw [finish_of_error hinsert] at hkept
    rw [hkept, Tree.contents_cleared, hcontents]
  · intro child above hparent
    rw [hparents] at hparent
    split at hparent
    · cases hparent
    · exact hparent
  · cases hattached : tree.parent? node with
    | some old =>
        refine iff_of_false ?_ fun hspares => ?_
        · rintro rfl
          have hnone := hparents node
          rw [if_pos rfl, hattached] at hnone
          cases hnone
        · exact absurd (hattached.symm.trans hspares.1.free) (Option.some_ne_none old)
    | none =>
        rw [Tree.detach_free hground.1 hattached] at hdetach
        cases hdetach
        exact spares_iff_of_free h hground hattached hinsert

theorem stuck_of_revert (h : tree.WellFormed) {action : Action}
    (hground : action.Grounded tree.size)
    (hfail : action.revert registry tree = .error failure left) : action.Stuck tree left := by
  cases action with
  | modification node baseline =>
      obtain ⟨live, hlive⟩ := Tree.exists_node?_of_lt hground
      have hnode : onTree (Tree.requireNode node) tree = .ok live tree :=
        onTree_ok (Tree.requireNode_ok hlive)
      rw [revert, restoreValues, bind_ok hnode] at hfail
      cases hcopy : Editor.copyProperties registry baseline.component baseline.fields
          live.fields with
      | ok fields =>
          rw [hcopy] at hfail
          dsimp only at hfail
          rw [onTree_ok (Tree.update_ok hground _)] at hfail
          cases hfail
      | error refusal =>
          rw [hcopy] at hfail
          cases hfail
          exact .refl trivial
  | reparent node target origin createdList => exact stuck_reparent h hground hfail
  | delete node origin =>
      rw [revert_delete] at hfail
      have hstuck := stuck_reparent h hground.leave hfail
      refine ⟨hstuck.contents, hstuck.parent, hstuck.stays.trans ?_⟩
      exact and_iff_left Bool.noConfusion
  | reorder parent first second =>
      cases hrun : Tree.swapChildren parent first second tree with
      | ok done after =>
          rw [revert, onTree_ok hrun] at hfail
          cases hfail
      | error cause after =>
          rw [revert, onTree_error hrun] at hfail
          cases hfail
          rw [Tree.swapChildren_error hrun]
          exact .refl trivial
  | create node parent createdList =>
      obtain ⟨after, hdone⟩ := revert_create_ok registry h hground
      rw [hdone] at hfail
      cases hfail

end Revert

end Action

/-- What may happen to a tree and its log: actions are recorded and undone, entries are forgotten,
and the tree is changed without the log. -/
inductive LooseStep where
  | push (label : String) (action : Action)
  | undo
  | forget (number : Nat)
  | edit (change : TreeEdit)

/-- The journal after a step, also after one that fails. -/
def LooseStep.perform (registry : Registry) (journal : Journal) : LooseStep → Journal
  | .push label action => finish (Journal.push label action) journal
  | .undo => finish (Journal.undo registry) journal
  | .forget number => { journal with log := (journal.log.remove number).2 }
  | .edit change => { journal with tree := change.perform journal.tree }

/-- What the log speaks of is in the tree. -/
structure Journal.Grounded (journal : Journal) : Prop where
  wellFormed : journal.tree.WellFormed
  entries : ∀ entry ∈ journal.log.entries, entry.action.Grounded journal.tree.size

namespace Journal

variable {registry : Registry} {journal : Journal}

namespace Grounded

/-- Nodes may be added and links changed. -/
theorem of_size_le (h : journal.Grounded) {after : Tree} (hafter : after.WellFormed)
    (hsize : journal.tree.size ≤ after.size) : Grounded { journal with tree := after } where
  wellFormed := hafter
  entries := fun entry hentry => (h.entries entry hentry).mono hsize

theorem of_relinked (h : journal.Grounded) {allowed : NodeId → NodeId → Prop} {after : Tree}
    (hrelinked : journal.tree.Relinked allowed after) : Grounded { journal with tree := after } :=
  h.of_size_le hrelinked.wellFormed hrelinked.size_le

/-- Entries may be forgotten. -/
theorem of_sublist (h : journal.Grounded) {log : Log}
    (hentries : log.entries.Sublist journal.log.entries) : Grounded { journal with log } where
  wellFormed := h.wellFormed
  entries := fun entry hentry => h.entries entry (hentries.subset hentry)

theorem push (h : journal.Grounded) (label : String) (action : Action) :
    Grounded (finish (Journal.push label action) journal) := by
  have hrelinked := action.relinks_apply journal.tree h.wellFormed
  cases happly : action.apply journal.tree with
  | ok applied after =>
      rw [finish_of_ok happly] at hrelinked
      rw [finish_of_ok (push_ok happly)]
      refine ⟨hrelinked.wellFormed, fun entry hentry => ?_⟩
      rcases List.mem_cons.mp hentry with rfl | hearlier
      · exact (Action.grounded_of_apply h.wellFormed happly).mono hrelinked.size_le
      · exact (h.entries entry hearlier).mono hrelinked.size_le
  | error failure after =>
      rw [finish_of_error happly] at hrelinked
      rw [finish_of_error (push_error happly)]
      exact h.of_relinked hrelinked

theorem undo (h : journal.Grounded) : Grounded (finish (Journal.undo registry) journal) := by
  refine keeps_undo_of_revert ?_ ?_ journal h
  · intro journal entry rest h _
    exact h.of_relinked (entry.action.relinks_revert registry journal.tree h.wellFormed)
  · exact fun journal log h hentries => h.of_sublist hentries

theorem perform (h : journal.Grounded) :
    ∀ step : LooseStep, (step.perform registry journal).Grounded
  | .push label action => h.push label action
  | .undo => h.undo
  | .forget _ => h.of_sublist List.eraseP_sublist
  | .edit change => h.of_size_le (h.wellFormed.perform change) (journal.tree.size_le_perform change)

theorem performAll (h : journal.Grounded) (steps : List LooseStep) :
    (steps.foldl (LooseStep.perform registry) journal).Grounded := by
  induction steps generalizing journal with
  | nil => exact h
  | cons step rest ih => exact ih (h.perform step)

end Grounded

/-- Undoing fails only if taking the latest action back does. -/
theorem of_undo_error {failure : HistoryError} {left : Journal}
    (hfail : undo registry journal = .error failure left) :
    ∃ entry rest after, journal.log.entries = entry :: rest ∧
      entry.action.revert registry journal.tree = .error failure after ∧
      left = { journal with tree := after } := by
  cases hentries : journal.log.entries with
  | nil =>
      rw [undo_empty hentries] at hfail
      cases hfail
  | cons entry rest =>
      cases hrevert : entry.action.revert registry journal.tree with
      | ok done after =>
          rw [undo_ok hentries hrevert] at hfail
          cases hfail
      | error cause after =>
          rw [undo_error hentries hrevert] at hfail
          cases hfail
          exact ⟨entry, rest, after, rfl, hrevert, rfl⟩

/-- After any steps from a well-formed tree without a log, an undo that fails leaves the log and
all values as they are, keeps the tree well formed and makes no link.  It is never a creation that
cannot be taken back.  The undo leaves the links as they are too if and only if the entry is about
values or the order of children, or if its node has no parent to leave, there is no empty list to
take away, and the old place has a child list or is below the node. -/
theorem failed_undo_stays_iff (registry : Registry) {tree : Tree} (h : tree.WellFormed)
    (steps : List LooseStep) {journal left : Journal} {failure : HistoryError}
    (hrun : journal = steps.foldl (LooseStep.perform registry) ⟨tree, .empty⟩)
    (hfail : undo registry journal = .error failure left) :
    left.log = journal.log ∧ left.tree.contents = journal.tree.contents ∧
    left.tree.WellFormed ∧
    (∀ child above, left.tree.parent? child = some above →
      journal.tree.parent? child = some above) ∧
    ∃ entry rest, journal.log.entries = entry :: rest ∧
      (∀ node parent createdList, entry.action ≠ .create node parent createdList) ∧
      (left = journal ↔ entry.action.Spares journal.tree) := by
  have hground : journal.Grounded := by
    rw [hrun]
    exact Grounded.performAll ⟨h, fun entry hentry => absurd hentry List.not_mem_nil⟩ steps
  have hleft : (finish (undo registry) journal).Grounded := hground.undo
  rw [finish_of_error hfail] at hleft
  obtain ⟨entry, rest, after, hentries, hrevert, rfl⟩ := of_undo_error hfail
  have hentry := hground.entries entry (hentries ▸ List.mem_cons_self)
  have hstuck := Action.stuck_of_revert hground.wellFormed hentry hrevert
  refine ⟨rfl, hstuck.contents, hleft.wellFormed, hstuck.parent, entry, rest, hentries, ?_, ?_⟩
  · intro node parent createdList hcreate
    rw [hcreate] at hentry hrevert
    obtain ⟨_, hdone⟩ := Action.revert_create_ok registry hground.wellFormed hentry
    rw [hdone] at hrevert
    cases hrevert
  · rw [← hstuck.stays]
    exact ⟨fun hsame => congrArg Journal.tree hsame, fun hsame => by rw [hsame]⟩

/-- A label was moved from one form to another, and the entry of the removal of its neighbour was
forgotten. -/
def movedLabel : Journal where
  tree := ⟨#[⟨"form", .empty, some [], none⟩, ⟨"label", .empty, none, none⟩,
    ⟨"label", .empty, none, some 3⟩, ⟨"form", .empty, some [2], none⟩]⟩
  log := ⟨[⟨"reparent", 0, .reparent 2 (some 3) (some (0, 1)) false⟩], 2⟩

/-- The steps that lead there. -/
def movedLabelSteps : List LooseStep :=
  [.edit (.insert ⟨"form", .empty, some [], none⟩), .edit (.insert ⟨"label", .empty, none, none⟩),
    .edit (.insert ⟨"label", .empty, none, none⟩), .edit (.appendChild 0 1),
    .edit (.appendChild 0 2), .edit (.insert ⟨"form", .empty, some [], none⟩),
    .push "reparent" (.move 2 (some 3)), .push "delete" (.remove 1), .forget 1]

theorem movedLabel_eq : movedLabel =
    movedLabelSteps.foldl (LooseStep.perform .empty) ⟨.empty, .empty⟩ := rfl

/-- The label leaves its form and does not get back to where it was. -/
theorem undo_movedLabel : undo .empty movedLabel = .error (.tree (.indexOutOfRange 0 1 0))
    { movedLabel with tree := (movedLabel.tree.setChildren 3 (some [])).setParent 2 none } := rfl

theorem undo_movedLabel_ne :
    { movedLabel with tree := (movedLabel.tree.setChildren 3 (some [])).setParent 2 none } ≠
      movedLabel := by
  intro hsame
  have hparent := congrArg (fun journal : Journal => journal.tree.parent? 2) hsame
  cases hparent

theorem failed_undo_stays_iff_of_movedLabel :
    Tree.empty.WellFormed ∧
    ∃ left, undo .empty movedLabel = .error (.tree (.indexOutOfRange 0 1 0)) left ∧
      left.log = movedLabel.log ∧ left.tree.contents = movedLabel.tree.contents ∧
      ¬(Action.reparent 2 (some 3) (some (0, 1)) false).Spares movedLabel.tree := by
  obtain ⟨hlog, hcontents, _, _, entry, rest, hentries, _, hstays⟩ :=
    failed_undo_stays_iff .empty Tree.empty_wellFormed movedLabelSteps movedLabel_eq
      undo_movedLabel
  cases hentries
  exact ⟨Tree.empty_wellFormed, _, undo_movedLabel, hlog, hcontents,
    hstays.not.mp undo_movedLabel_ne⟩

/-- A failed undo does not always leave everything as it is. -/
theorem not_failed_undo_stays :
    ¬∀ (registry : Registry) (tree : Tree), tree.WellFormed →
      ∀ (steps : List LooseStep) (failure : HistoryError) (left : Journal),
        undo registry (steps.foldl (LooseStep.perform registry) ⟨tree, .empty⟩) =
          .error failure left →
        left = steps.foldl (LooseStep.perform registry) ⟨tree, .empty⟩ := by
  intro hstays
  have hsame := hstays .empty .empty Tree.empty_wellFormed movedLabelSteps
  rw [← movedLabel_eq] at hsame
  exact undo_movedLabel_ne (hsame _ _ undo_movedLabel)

end Journal

end FormDesigner
