import FormDesigner.Proofs.History.Freshness

/-!
Clearing the log makes the tree as it is the start, if the remembered values of
the selected node are those that it has.

The selection outlives the log.  An edit after that makes an entry with the
values from before, and to revert is to come back to these.
-/

namespace FormDesigner

open Program

section Steps

variable {registry : Registry} {start : Tree} {session : Session}

theorem Tracked.step_of_settled (h : Tracked registry start session.settled)
    (hdeclared : start.Declared registry) {next : Session}
    (hstep : SessionStep registry session next) : Tracked registry start next.settled := by
  have hreversible : Reversible registry start session.toJournal := h.reversible
  have hcopy : ∀ selection, session.selection = some selection →
      FaithfulCopy registry start selection.node selection.baseline := by
    intro selection hselection
    exact (h.anchored _ (congrArg Session.selection (Session.settled_of_some hselection))).copy
  have hstructural {action : Action} (haction : action.isStructural = true) :
      Tracked registry start (finish (Session.pushStructural registry action) session).settled := by
    rcases hreversible.pushStructural hdeclared hcopy haction with hsame | ⟨_, hnext⟩
    · rw [hsame]
      exact h
    · rw [hnext.settled_eq]
      exact hnext
  cases hstep with
  | select node =>
      have hnext := hreversible.select hdeclared node
      rw [hnext.settled_eq]
      exact hnext
  | @edit selection hselection changes =>
      have hnext := h.edit_of_settled hselection
        (Tree.refilled_changeValues session.tree selection.node changes)
      rw [hnext.settled_eq]
      exact hnext
  | reparent node target => exact hstructural rfl
  | created node parent => exact hstructural rfl
  | deleted node => exact hstructural rfl
  | reorderChild parent first second => exact hstructural rfl

theorem Tracked.run_of_settled (h : Tracked registry start session.settled)
    (hdeclared : start.Declared registry) {later : Session}
    (hrun : Relation.ReflTransGen (SessionStep registry) session later) :
    Tracked registry start later.settled := by
  induction hrun with
  | refl => exact h
  | tail _ hstep ih => exact ih.step_of_settled hdeclared hstep

/-- A copy of a node of the start is one of the same node later on. -/
theorem Reversible.faithfulCopy {journal : Journal} (h : Reversible registry start journal)
    {node : NodeId} {copy : Blueprint} (hcopy : FaithfulCopy registry start node copy) :
    FaithfulCopy registry journal.tree node copy := by
  obtain ⟨first, component, hfirst, hname, hfind⟩ := hcopy
  obtain ⟨found, hfound, hsame, _⟩ := h.nodes node first hfirst
  exact ⟨found, component, hfound, hname.trans hsame.symm, hsame.symm ▸ hfind⟩

/-- A cleared session leads back to its own tree. -/
theorem Tracked.clear (h : Tracked registry start session) :
    Retraceable registry session.tree (finish Session.clear session) where
  reversible := h.reversible.of_empty rfl
  numbered := List.pairwise_singleton _ _
  copy selection hselection := h.reversible.faithfulCopy (h.anchored selection hselection).copy
  pending selection _ hkept := absurd (Session.pendingEntry_of_empty rfl selection) hkept

end Steps

namespace Session

variable {registry : Registry} {session : Session}

/-- An edit without entries below it is taken back to the remembered values, whatever
the node had before. -/
theorem exists_revert_edit {start : Tree} (h : Retraceable registry start session)
    (hempty : session.log.entries = []) {selection : Selection}
    (hselection : session.selection = some selection) {after : Tree}
    (hrefilled : Tree.Refilled selection.node session.tree after) :
    ∃ back node, (∃ count, revert registry
        (finish (objectChanged registry) { session with tree := after }) = .ok count back) ∧
      back.tree.node? selection.node = some node ∧
      registry.view selection.baseline.component node.fields =
        registry.view selection.baseline.component selection.baseline.fields := by
  have hgone := pendingEntry_of_empty hempty selection
  obtain ⟨origin, horigin, hfields, hnext⟩ := h.staleEdit hselection hgone hrefilled
  obtain ⟨back, hrevert, hnothing, hback⟩ := hnext.reversible.revert_session
  obtain ⟨first, _, hfirst, hname, _⟩ := (h.copy selection hselection).refilled horigin
  obtain ⟨node, hnode, _, hview⟩ := hback.nodes selection.node first hfirst
  refine ⟨back, node, ⟨_, hrevert⟩, hnode, ?_⟩
  rw [hnothing, hfields first hfirst, hempty] at hview
  rw [hname]
  exact hview

/-- After the log was cleared, reverting leads back to the tree as it was then,
whatever happens in between, if and only if the selected node had the values that are
remembered. -/
theorem clear_starts_iff {tree : Tree} (htree : tree.WellFormed)
    (hdeclared : tree.Declared registry)
    (hrun : Relation.ReflTransGen (SessionStep registry) (start tree) session) :
    (∀ later, Relation.ReflTransGen (SessionStep registry) (finish clear session) later →
      ∃ back, revert registry later = .ok later.log.entries.length back ∧
        back.log.entries = [] ∧ session.tree.SameAs registry back.tree) ↔
    session.Current registry := by
  have htracked : Tracked registry tree session := by
    induction hrun with
    | refl => exact tracked_start htree
    | tail _ hstep ih => exact ih.step hdeclared hstep
  have hcleared := htracked.clear
  have hdeclared' := htracked.reversible.declared hdeclared
  constructor
  · intro hreturn selection live hselection hlive
    obtain ⟨node, component, hnode, hname, hfind⟩ := hcleared.copy selection hselection
    cases hnode.symm.trans hlive
    have hchosen : (finish clear session).selection = some selection := hselection
    -- An edit that changes nothing is enough to see what is remembered.
    have hedit : SessionStep registry (finish clear session) _ := .edit hchosen []
    obtain ⟨back, hrevert, _, hsame⟩ := hreturn _ (.single hedit)
    obtain ⟨found, reverted, ⟨_, hfound⟩, hreverted, hview⟩ :=
      exists_revert_edit hcleared rfl hchosen (.refl selection.node session.tree)
    cases hfound.symm.trans hrevert
    have hkept := (hsame.values selection.node live reverted hlive hreverted).1
    rw [← hname] at hfind hkept
    rw [Editor.differs_eq_false_iff hfind, hview] at hkept
    exact (Editor.differs_eq_false_iff hfind _ _).2 hkept.symm
  · intro hcurrent later hlater
    have hfresh : (finish clear session).Fresh registry := fun _ => hcurrent
    have hlast := (hcleared.tracked hfresh).run_of_settled hdeclared' hlater
    have hreversible : Reversible registry session.tree later.toJournal := hlast.reversible
    obtain ⟨back, hrevert, hempty, hback⟩ := hreversible.revert_session
    exact ⟨back, hrevert, hempty, hback.sameAs hdeclared' hempty⟩

/-- A node gets a label and is selected anew before the log is cleared. -/
theorem clear_starts_iff_of_label :
    Tree.labels.WellFormed ∧ Tree.labels.Declared Registry.labels ∧
    ∃ session, Relation.ReflTransGen (SessionStep Registry.labels) (start Tree.labels) session ∧
      (session.tree.node? 0).map Node.fields = some (.single "label" (.string "x")) ∧
      ∀ later, Relation.ReflTransGen (SessionStep Registry.labels) (finish clear session) later →
        ∃ back, revert Registry.labels later = .ok later.log.entries.length back ∧
          back.log.entries = [] ∧ session.tree.SameAs Registry.labels back.tree := by
  have hselected : (finish (select Registry.labels (some 0)) (start Tree.labels)).selection =
      some ⟨0, ⟨"text", .empty, none⟩, none⟩ := rfl
  have hselect : SessionStep Registry.labels (start Tree.labels) _ := .select (some 0)
  have hedit : SessionStep Registry.labels _ _ :=
    .edit hselected (Tree.labelled "x")
  have hrun := ((Relation.ReflTransGen.single hselect).tail hedit).tail (.select (some 0))
  have hiff := clear_starts_iff Tree.labels_wellFormed Tree.labels_declared hrun
  refine ⟨Tree.labels_wellFormed, Tree.labels_declared, _, hrun, rfl, hiff.2 ?_⟩
  intro selection live hselection hlive
  cases hselection
  cases hlive
  rfl

/-- A node gets a label, the log is cleared, and the node gets another label: to revert is
to come back to a node without a label. -/
theorem not_clear_starts :
    ¬ ∀ (registry : Registry) (tree : Tree) (session later : Session),
      tree.WellFormed → tree.Declared registry →
      Relation.ReflTransGen (SessionStep registry) (start tree) session →
      Relation.ReflTransGen (SessionStep registry) (finish clear session) later →
      ∃ back, revert registry later = .ok later.log.entries.length back ∧
        session.tree.SameAs registry back.tree := by
  intro h
  have hselected : (finish (select Registry.labels (some 0)) (start Tree.labels)).selection =
      some ⟨0, ⟨"text", .empty, none⟩, none⟩ := rfl
  have hselect : SessionStep Registry.labels (start Tree.labels) _ := .select (some 0)
  have hfirst : SessionStep Registry.labels _ _ :=
    .edit hselected (Tree.labelled "x")
  have hkept : (finish clear (finish (objectChanged Registry.labels)
      { (finish (select Registry.labels (some 0)) (start Tree.labels)) with
        tree := Tree.labels.changeValues 0 (Tree.labelled "x") })).selection =
      some ⟨0, ⟨"text", .empty, none⟩, some 0⟩ := rfl
  have hsecond : SessionStep Registry.labels _ _ :=
    .edit hkept (Tree.labelled "y")
  obtain ⟨back, hrevert, hsame⟩ := h Registry.labels Tree.labels _ _ Tree.labels_wellFormed
    Tree.labels_declared ((Relation.ReflTransGen.single hselect).tail hfirst) (.single hsecond)
  cases hrevert
  have hvalues := hsame.values 0 ⟨"text", .single "label" (.string "x"), some [1], none⟩
    ⟨"text", .empty, some [1], none⟩ rfl rfl
  have hdiffers : Editor.differs Registry.labels "text" (.single "label" (.string "x")) .empty =
      .ok true := rfl
  rw [hdiffers] at hvalues
  cases hvalues.1

end Session

end FormDesigner
