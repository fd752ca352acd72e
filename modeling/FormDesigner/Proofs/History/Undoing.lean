import FormDesigner.Proofs.History.Freshness

/-!
Undoing in the middle of a session.

When there is nothing left to take back, the links are those of the start.  The
values are those of the start as well, if every edit that made an entry was of
a node with the remembered values; to undo is what may give it other ones.
-/

namespace FormDesigner

open Program

/-- What may happen in a session where actions are undone as well, whether it
succeeds or fails.  Values are edited only in sessions that are `editable`. -/
inductive UndoStep (registry : Registry) (editable : Session → Prop) (session : Session) :
    Session → Prop where
  | select (node : Option NodeId) :
      UndoStep registry editable session (finish (Session.select registry node) session)
  | edit (hallowed : editable session) {selection : Selection}
      (hselection : session.selection = some selection)
      (changes : List (String × Option Datum)) :
      UndoStep registry editable session (finish (Session.objectChanged registry)
        { session with tree := session.tree.changeValues selection.node changes })
  | change {action : Action} (hstructural : action.isStructural = true) :
      UndoStep registry editable session (finish (Session.pushStructural registry action) session)
  | undo : UndoStep registry editable session (finish (Session.undo registry) session)

/-- Every edit leads back to the start, or to one where the selected node has other
values. -/
theorem Retraceable.anyEdit {registry : Registry} {start : Tree} {session : Session}
    (h : Retraceable registry start session) {selection : Selection}
    (hselection : session.selection = some selection) {after : Tree}
    (hrefilled : Tree.Refilled selection.node session.tree after) :
    ∃ origin, Tree.Refilled selection.node start origin ∧ Retraceable registry origin
      (finish (Session.objectChanged registry) { session with tree := after }) := by
  cases hgone : session.pendingEntry selection with
  | none =>
      obtain ⟨origin, horigin, _, hnext⟩ := h.staleEdit hselection hgone hrefilled
      exact ⟨origin, horigin, hnext⟩
  | some number =>
      have hfresh : session.Fresh registry := by
        intro hnone
        rw [hnone selection hselection] at hgone
        cases hgone
      exact ⟨start, .refl _ start, h.edit hfresh hselection hrefilled⟩

namespace Session

variable {registry : Registry} {tree : Tree} {session : Session}

theorem retraceable_start (htree : tree.WellFormed) : Retraceable registry tree (start tree) :=
  (tracked_start htree).retraceable Log.numbered_empty

/-- Edits of nodes with the remembered values lead back to the start. -/
theorem retraceable_of_fresh (htree : tree.WellFormed) (hdeclared : tree.Declared registry)
    (hrun : Relation.ReflTransGen (UndoStep registry (Session.Fresh registry)) (start tree)
      session) : Retraceable registry tree session := by
  induction hrun with
  | refl => exact retraceable_start htree
  | tail _ hstep ih =>
      cases hstep with
      | select node => exact ih.select hdeclared node
      | edit hfresh hselection changes =>
          exact ih.edit hfresh hselection (Tree.refilled_changeValues _ _ changes)
      | change hstructural => exact ih.pushStructural hdeclared hstructural
      | undo => exact ih.undo

/-- Any edits lead back to a tree with the links of the start. -/
theorem exists_retraceable (htree : tree.WellFormed) (hdeclared : tree.Declared registry)
    (hrun : Relation.ReflTransGen (UndoStep registry fun _ => True) (start tree) session) :
    ∃ origin, origin.links = tree.links ∧ origin.Declared registry ∧
      Retraceable registry origin session := by
  induction hrun with
  | refl => exact ⟨tree, rfl, hdeclared, retraceable_start htree⟩
  | @tail middle last _ hstep ih =>
      obtain ⟨origin, hlinks, hknown, hback⟩ := ih
      cases hstep with
      | select node => exact ⟨origin, hlinks, hknown, hback.select hknown node⟩
      | @edit _ selection hselection changes =>
          have hrefilled := Tree.refilled_changeValues middle.tree selection.node changes
          rcases hback.anyEdit hselection hrefilled with ⟨other, hother, hnext⟩
          exact ⟨other, hother.links.trans hlinks, hknown.refilled hother, hnext⟩
      | change hstructural =>
          exact ⟨origin, hlinks, hknown, hback.pushStructural hknown hstructural⟩
      | undo => exact ⟨origin, hlinks, hknown, hback.undo⟩

/-- When a session has nothing left to take back, all links are those of the start.  If
no edit made an entry while the selected node had other values than the remembered ones,
then also no node differs from what it was at the start. -/
theorem clean_sameAs (htree : tree.WellFormed) (hdeclared : tree.Declared registry)
    (hclean : session.isDirty = false) :
    (Relation.ReflTransGen (UndoStep registry fun _ => True) (start tree) session →
      session.tree.links = tree.links) ∧
    (Relation.ReflTransGen (UndoStep registry (Session.Fresh registry)) (start tree) session →
      tree.SameAs registry session.tree) := by
  have hempty : session.log.entries = [] := by
    simpa [isDirty, Log.isDirty] using hclean
  constructor
  · intro hrun
    obtain ⟨origin, hlinks, _, hback⟩ := exists_retraceable htree hdeclared hrun
    exact (hback.reversible.links_of_empty hempty).trans hlinks
  · intro hrun
    have hback := retraceable_of_fresh htree hdeclared hrun
    exact hback.reversible.sameAs hdeclared hempty

/-- A label is edited, and the edit is undone. -/
theorem clean_sameAs_of_label :
    Tree.labels.WellFormed ∧ Tree.labels.Declared Registry.labels ∧
    ∃ session, session.isDirty = false ∧
      Relation.ReflTransGen (UndoStep Registry.labels (Session.Fresh Registry.labels))
        (start Tree.labels) session ∧
      Tree.labels.SameAs Registry.labels session.tree := by
  have hselected : (finish (select Registry.labels (some 0)) (start Tree.labels)).selection =
      some ⟨0, ⟨"text", .empty, none⟩, none⟩ := rfl
  have hfresh := fresh_select Registry.labels (start Tree.labels) (some 0)
  have hselect : UndoStep Registry.labels (Session.Fresh Registry.labels) (start Tree.labels) _ :=
    .select (some 0)
  have hedit : UndoStep Registry.labels (Session.Fresh Registry.labels) _ _ :=
    .edit hfresh hselected (Tree.labelled "x")
  obtain ⟨session, hrun, hclean⟩ : ∃ session, Relation.ReflTransGen
      (UndoStep Registry.labels (Session.Fresh Registry.labels)) (start Tree.labels) session ∧
        session.isDirty = false :=
    ⟨_, ((Relation.ReflTransGen.single hselect).tail hedit).tail .undo, rfl⟩
  have hsame := (clean_sameAs Tree.labels_wellFormed Tree.labels_declared hclean).2 hrun
  exact ⟨Tree.labels_wellFormed, Tree.labels_declared, session, hclean, hrun, hsame⟩

/-- A label is edited, the node selected anew, the edit undone, and then the label is edited
and undone once more: nothing is left to take back, but the node has the first label. -/
theorem not_clean_sameAs :
    ¬ ∀ (registry : Registry) (tree : Tree) (session : Session),
      tree.WellFormed → tree.Declared registry →
      Relation.ReflTransGen (UndoStep registry fun _ => True) (start tree) session →
      session.isDirty = false → tree.SameAs registry session.tree := by
  intro h
  have hselected : (finish (select Registry.labels (some 0)) (start Tree.labels)).selection =
      some ⟨0, ⟨"text", .empty, none⟩, none⟩ := rfl
  have hselect : UndoStep Registry.labels (fun _ => True) (start Tree.labels) _ := .select (some 0)
  have hfirst : UndoStep Registry.labels (fun _ => True) _ _ :=
    .edit trivial hselected (Tree.labelled "x")
  have hundone := (((Relation.ReflTransGen.single hselect).tail hfirst).tail
    (.select (some 0))).tail .undo
  have hsecond := hundone.tail (.edit trivial
    (show _ = some ⟨0, ⟨"text", .single "label" (.string "x"), none⟩, none⟩ from rfl)
    (Tree.labelled "y"))
  have hsame := h Registry.labels Tree.labels _ Tree.labels_wellFormed Tree.labels_declared
    (hsecond.tail .undo) rfl
  have hvalues := hsame.values 0 ⟨"text", .empty, some [1], none⟩
    ⟨"text", .single "label" (.string "x"), some [1], none⟩ rfl rfl
  have hdiffers : Editor.differs Registry.labels "text" .empty (.single "label" (.string "x")) =
      .ok true := rfl
  rw [hdiffers] at hvalues
  cases hvalues.1

end Session

end FormDesigner
