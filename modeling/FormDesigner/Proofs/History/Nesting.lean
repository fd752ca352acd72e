import FormDesigner.Drop
import FormDesigner.Proofs.History.Freshness
import FormDesigner.Proofs.Tree.Relinking

/-!
Every element stays in a place where it may stand.

A place is checked when something is dropped there, and never again.  What the log can put
back was in its place before, and the component of an element never changes.
-/

namespace FormDesigner

open Program

/-- The element `child` may stand in `above`: its component is known and not abstract, and
names that of `above` as a parent. -/
def Tree.Fits (registry : Registry) (tree : Tree) (child above : NodeId) : Prop :=
  ∃ node holder component, tree.node? child = some node ∧ tree.node? above = some holder ∧
    registry.find? node.component = some component ∧ component.isAbstract = false ∧
    holder.component ∈ component.validParents

/-- Every element that has a parent may stand in it. -/
def Tree.Nested (registry : Registry) (tree : Tree) : Prop :=
  ∀ child above, tree.parent? child = some above → tree.Fits registry child above

theorem Tree.Fits.relinked {registry : Registry} {tree after : Tree} {child above : NodeId}
    (h : tree.Fits registry child above) {allowed : NodeId → NodeId → Prop}
    (hrelinked : tree.Relinked allowed after) : after.Fits registry child above := by
  obtain ⟨node, holder, component, hnode, hholder, hfind, hconcrete, hallows⟩ := h
  obtain ⟨found, hfound, hname⟩ := hrelinked.component child node hnode
  obtain ⟨place, hplace, hkind⟩ := hrelinked.component above holder hholder
  exact ⟨found, place, component, hfound, hplace, hname ▸ hfind, hconcrete, hkind ▸ hallows⟩

namespace Action

/-- The parent link that an action makes. -/
def Links : Action → NodeId → NodeId → Prop
  | .reparent node (some parent) _ _, child, above => child = node ∧ above = parent
  | .create node parent _, child, above => child = node ∧ above = parent
  | _, _, _ => False

/-- The parent link that taking an action back makes. -/
def Restores : Action → NodeId → NodeId → Prop
  | .reparent node _ origin _, child, above => child = node ∧ ∃ index, origin = some (above, index)
  | .delete node origin, child, above => child = node ∧ ∃ index, origin = some (above, index)
  | _, _, _ => False

variable {allowed : NodeId → NodeId → Prop} {registry : Registry}

theorem relinks_lacksList (id : NodeId) : Relinks allowed (lacksList id) :=
  (Relinks.requireNode id).bind fun _ => .pure _

theorem relinks_clearCreated (parent : NodeId) (createdList : Bool) :
    Relinks allowed (clearCreated parent createdList) := by
  cases createdList with
  | false => exact .pure ()
  | true => exact .clearEmptyChildren parent

theorem relinks_restore (node : NodeId) (origin : Option (NodeId × Nat)) :
    Relinks (fun child above => child = node ∧ ∃ index, origin = some (above, index))
      (restore node origin) := by
  cases origin with
  | none => exact .pure ()
  | some place => exact .insertChild ⟨rfl, place.2, rfl⟩ place.2

theorem relinks_onTree {α : Type} {change : TreeM TreeError α} (h : Relinks allowed change) :
    Relinks allowed (onTree change) :=
  h.adaptExcept HistoryError.tree

/-- A move that was checked. -/
theorem relinks_move (node parent : NodeId) :
    Relinks (fun child above => child = node ∧ above = parent) do
      let origin ← onTree (Tree.detach node)
      let createdList ← onTree (lacksList parent)
      onTree (Tree.appendChild parent node)
      return Action.reparent node (some parent) origin createdList := by
  apply (relinks_onTree (.detach node)).bind
  intro _
  apply (relinks_onTree (relinks_lacksList parent)).bind
  intro _
  exact (relinks_onTree (.appendChild ⟨rfl, rfl⟩)).bind fun _ => .pure _

/-- An action makes no link but its own. -/
theorem relinks_apply (action : Action) : Relinks action.Links action.apply := by
  cases action with
  | modification node baseline =>
      exact (relinks_onTree (.requireNode node)).bind fun _ => .pure _
  | reparent node target origin createdList =>
      cases target with
      | none => exact (relinks_onTree (.detach node)).bind fun _ => .pure _
      | some parent =>
          apply (relinks_onTree (.requireNode node)).bind
          intro _
          apply (relinks_onTree (.requireNode parent)).bind
          intro _
          apply Relinks.get.bind
          intro tree
          dsimp only
          split
          · exact (Relinks.throw _).bind fun _ => relinks_move node parent
          · exact relinks_move node parent
  | reorder parent first second =>
      exact (relinks_onTree (.swapChildren parent first second)).bind fun _ => .pure _
  | create node parent createdList =>
      apply (relinks_onTree (relinks_lacksList parent)).bind
      intro _
      exact (relinks_onTree (.appendChild ⟨rfl, rfl⟩)).bind fun _ => .pure _
  | delete node origin =>
      apply (relinks_onTree (.requireNode node)).bind
      intro found
      have hremove : Relinks (Action.delete node origin).Links do
          let origin ← onTree (Tree.detach node)
          return Action.delete node origin :=
        (relinks_onTree (.detach node)).bind fun _ => .pure _
      dsimp only
      split
      · exact (Relinks.throw _).bind fun _ => hremove
      · exact hremove

theorem relinks_restoreValues (node : NodeId) (baseline : Blueprint) :
    Relinks allowed (restoreValues registry node baseline) := by
  apply (relinks_onTree (.requireNode node)).bind
  intro live
  cases Editor.copyProperties registry baseline.component baseline.fields live.fields with
  | ok fields => exact relinks_onTree (.refill node fun _ => fields)
  | error failure => exact .throw _

/-- Taking an action back makes no link but the one that is noted. -/
theorem relinks_revert (registry : Registry) (action : Action) :
    Relinks action.Restores (action.revert registry) := by
  cases action with
  | modification node baseline => exact relinks_restoreValues node baseline
  | reparent node target origin createdList =>
      apply (relinks_onTree (.detach node)).bind
      intro _
      cases target with
      | none => exact relinks_onTree (relinks_restore node origin)
      | some parent =>
          apply (relinks_onTree (relinks_clearCreated parent createdList)).bind
          exact fun _ => relinks_onTree (relinks_restore node origin)
  | reorder parent first second => exact relinks_onTree (.swapChildren parent first second)
  | create node parent createdList =>
      apply (relinks_onTree (.detach node)).bind
      exact fun _ => relinks_onTree (relinks_clearCreated parent createdList)
  | delete node origin =>
      apply (relinks_onTree (.detach node)).bind
      exact fun _ => relinks_onTree (relinks_restore node origin)

/-- A node that can be looked up is there, and to look it up changes nothing. -/
theorem of_requireNode_ok {tree after : Tree} {id : NodeId} {node : Node}
    (h : onTree (Tree.requireNode id) tree = .ok node after) : id < tree.size ∧ after = tree := by
  have hrun := of_adaptExcept_ok h
  by_cases hknown : id < tree.size
  · obtain ⟨found, hfound⟩ := Tree.exists_node?_of_lt hknown
    rw [Tree.requireNode_ok hfound] at hrun
    cases hrun
    exact ⟨hknown, rfl⟩
  · rw [Tree.requireNode_error (Nat.le_of_not_lt hknown)] at hrun
    cases hrun

/-- What an action does that can be applied: the action that is recorded, and the tree after it. -/
inductive Applied (tree : Tree) : Action → Action → Tree → Prop where
  | modification {node : NodeId} {baseline : Blueprint} (hnode : node < tree.size) :
      Applied tree (.modification node baseline) (.modification node baseline) tree
  | leave {node : NodeId} {noted origin : Option (NodeId × Nat)} {createdList : Bool}
      {after : Tree} (hdetach : Tree.detach node tree = .ok origin after) :
      Applied tree (.reparent node none noted createdList)
        (.reparent node none origin createdList) after
  | move {node parent : NodeId} {noted origin : Option (NodeId × Nat)} {before createdList : Bool}
      {between after : Tree} (hparent : parent < tree.size)
      (hdetach : Tree.detach node tree = .ok origin between)
      (hlacks : lacksList parent between = .ok createdList between)
      (happend : Tree.appendChild parent node between = .ok () after) :
      Applied tree (.reparent node (some parent) noted before)
        (.reparent node (some parent) origin createdList) after
  | reorder {parent : NodeId} {first second : Nat} {after : Tree}
      (hswap : Tree.swapChildren parent first second tree = .ok () after) :
      Applied tree (.reorder parent first second) (.reorder parent first second) after
  | create {node parent : NodeId} {before createdList : Bool} {after : Tree}
      (hlacks : lacksList parent tree = .ok createdList tree)
      (happend : Tree.appendChild parent node tree = .ok () after) :
      Applied tree (.create node parent before) (.create node parent createdList) after
  | delete {node : NodeId} {noted origin : Option (NodeId × Nat)} {after : Tree}
      (hdetach : Tree.detach node tree = .ok origin after) :
      Applied tree (.delete node noted) (.delete node origin) after

/-- To ask for a child list changes nothing. -/
theorem of_lacksList_ok {tree after : Tree} {id : NodeId} {lacks : Bool}
    (h : onTree (lacksList id) tree = .ok lacks after) :
    lacksList id tree = .ok lacks tree ∧ after = tree := by
  have hrun := of_adaptExcept_ok h
  by_cases hknown : id < tree.size
  · obtain ⟨node, hnode⟩ := Tree.exists_node?_of_lt hknown
    rw [lacksList_ok hnode] at hrun ⊢
    cases hrun
    exact ⟨rfl, rfl⟩
  · rw [lacksList_error (Nat.le_of_not_lt hknown)] at hrun
    cases hrun

theorem applied_of_apply {tree after : Tree} {action applied : Action}
    (h : action.apply tree = .ok applied after) : Applied tree action applied after := by
  cases action with
  | modification node baseline =>
      obtain ⟨_, _, hnode, hdone⟩ := of_bind_ok h
      obtain ⟨hknown, rfl⟩ := of_requireNode_ok hnode
      cases hdone
      exact .modification hknown
  | reorder parent first second =>
      obtain ⟨_, _, hswap, hdone⟩ := of_bind_ok h
      cases hdone
      exact .reorder (of_adaptExcept_ok hswap)
  | create node parent before =>
      obtain ⟨_, _, hlacks, hrest⟩ := of_bind_ok h
      obtain ⟨hanswer, rfl⟩ := of_lacksList_ok hlacks
      obtain ⟨_, _, happend, hdone⟩ := of_bind_ok hrest
      cases hdone
      exact .create hanswer (of_adaptExcept_ok happend)
  | delete node noted =>
      obtain ⟨_, _, hnode, hrest⟩ := of_bind_ok h
      obtain ⟨_, rfl⟩ := of_requireNode_ok hnode
      dsimp only at hrest
      split at hrest
      · cases hrest
      · obtain ⟨_, _, hdetach, hdone⟩ := of_bind_ok hrest
        cases hdone
        exact .delete (of_adaptExcept_ok hdetach)
  | reparent node target noted before =>
      cases target with
      | none =>
          obtain ⟨_, _, hdetach, hdone⟩ := of_bind_ok h
          cases hdone
          exact .leave (of_adaptExcept_ok hdetach)
      | some parent =>
          obtain ⟨_, _, hnode, hlooked⟩ := of_bind_ok h
          obtain ⟨_, rfl⟩ := of_requireNode_ok hnode
          obtain ⟨_, _, hparent, hfound⟩ := of_bind_ok hlooked
          obtain ⟨hknown, rfl⟩ := of_requireNode_ok hparent
          rw [bind_ok (get_apply _)] at hfound
          dsimp only at hfound
          split at hfound
          · cases hfound
          · obtain ⟨_, _, hdetach, hleft⟩ := of_bind_ok hfound
            obtain ⟨_, _, hlacks, hasked⟩ := of_bind_ok hleft
            obtain ⟨hanswer, rfl⟩ := of_lacksList_ok hlacks
            obtain ⟨_, _, happend, hdone⟩ := of_bind_ok hasked
            cases hdone
            exact .move hknown (of_adaptExcept_ok hdetach) hanswer (of_adaptExcept_ok happend)

/-- The link that is noted was there before the action. -/
theorem parent?_of_apply {tree after : Tree} (h : tree.WellFormed) {action applied : Action}
    (happly : action.apply tree = .ok applied after) {child above : NodeId}
    (hrestores : applied.Restores child above) : tree.parent? child = some above := by
  have hnoted : ∀ {node : NodeId} {origin : Option (NodeId × Nat)} {between : Tree},
      Tree.detach node tree = .ok origin between →
      child = node ∧ (∃ index, origin = some (above, index)) → tree.parent? child = some above := by
    rintro node _ between hdetach ⟨rfl, index, rfl⟩
    exact h.parent?_of_detach hdetach
  cases applied_of_apply happly with
  | modification => exact hrestores.elim
  | leave hdetach => exact hnoted hdetach hrestores
  | move _ hdetach => exact hnoted hdetach hrestores
  | reorder => exact hrestores.elim
  | create => exact hrestores.elim
  | delete hdetach => exact hnoted hdetach hrestores

end Action

/-- Every element stands where it may, and so does one that is put back. -/
structure Journal.Nested (registry : Registry) (journal : Journal) : Prop where
  wellFormed : journal.tree.WellFormed
  nested : journal.tree.Nested registry
  restores : ∀ entry ∈ journal.log.entries, ∀ child above, entry.action.Restores child above →
    journal.tree.Fits registry child above

namespace Journal.Nested

variable {registry : Registry} {journal : Journal}

/-- A change that makes links only between what fits. -/
theorem relinked (h : journal.Nested registry) {allowed : NodeId → NodeId → Prop} {after : Tree}
    (hrelinked : journal.tree.Relinked allowed after)
    (hallowed : ∀ child above, allowed child above → journal.tree.Fits registry child above) :
    Journal.Nested registry { journal with tree := after } where
  wellFormed := hrelinked.wellFormed
  nested := by
    intro child above hparent
    rcases hrelinked.parent child above hparent with hold | hnew
    · exact (h.nested child above hold).relinked hrelinked
    · exact (hallowed child above hnew).relinked hrelinked
  restores := fun entry hentry child above hrestores =>
    (h.restores entry hentry child above hrestores).relinked hrelinked

/-- Entries may be forgotten. -/
theorem of_sublist (h : journal.Nested registry) {log : Log}
    (hentries : log.entries.Sublist journal.log.entries) :
    Journal.Nested registry { journal with log } where
  wellFormed := h.wellFormed
  nested := h.nested
  restores := fun entry hentry => h.restores entry (hentries.subset hentry)

theorem add (h : journal.Nested registry) (label : String) {action : Action}
    (hrestores : ∀ child above, action.Restores child above →
      journal.tree.Fits registry child above) :
    Journal.Nested registry { journal with log := journal.log.add label action } where
  wellFormed := h.wellFormed
  nested := h.nested
  restores := by
    intro entry hentry
    rcases List.mem_cons.1 hentry with hlatest | hearlier
    · rw [hlatest]
      exact hrestores
    · exact h.restores entry hearlier

/-- What an action takes out of its place stood there before. -/
theorem push (h : journal.Nested registry) (label : String) {action : Action}
    (hlinks : ∀ child above, action.Links child above → journal.tree.Fits registry child above) :
    Journal.Nested registry (finish (Journal.push label action) journal) := by
  have hrelinked := action.relinks_apply journal.tree h.wellFormed
  cases happly : action.apply journal.tree with
  | ok applied after =>
      rw [finish_of_ok happly] at hrelinked
      rw [finish_of_ok (Journal.push_ok happly)]
      apply (h.relinked hrelinked hlinks).add label
      intro child above hrestores
      have hparent := Action.parent?_of_apply h.wellFormed happly hrestores
      exact (h.nested child above hparent).relinked hrelinked
  | error failure after =>
      rw [finish_of_error happly] at hrelinked
      rw [finish_of_error (Journal.push_error happly)]
      exact h.relinked hrelinked hlinks

end Journal.Nested

namespace Journal

/-- Undoing puts an element back where it may stand, also if it fails. -/
theorem keeps_undo (registry : Registry) :
    Keeps (Journal.Nested registry) (Journal.undo registry) := by
  apply keeps_undo_of_revert
  · intro journal entry rest h hentries
    have hrelinked := entry.action.relinks_revert registry journal.tree h.wellFormed
    exact h.relinked hrelinked (h.restores entry (hentries ▸ List.mem_cons_self))
  · exact fun journal log h hentries => h.of_sublist hentries

theorem keeps_revert (registry : Registry) :
    Keeps (Journal.Nested registry) (Journal.revert registry) :=
  keeps_revert_of_undo (keeps_undo registry)

end Journal

end FormDesigner
