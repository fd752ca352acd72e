import FormDesigner.Proofs.Editor.Copying
import FormDesigner.Proofs.History.Revert

/-!
Taking a modification back brings the tree back.

A modification remembers a copy of a node.  Whatever was changed since then under shown names of
the node comes back exactly, and all else in the tree stays as it is.
-/

namespace FormDesigner

variable {declarations : List ComponentDeclaration} {settings : RenderSettings}
  {registry : Registry}

namespace Editor

variable {id : String} {component : Component} {source document : Fields Datum}

/-- Copying there and back leaves under the shown names what was there first. -/
theorem copied_back (hbuild : Registry.build declarations settings = .ok registry)
    (hfind : registry.find? id = some component)
    (hcopy : copyProperties registry id source .empty = .ok document) (changed : Fields Datum) :
    ∃ restored, copyProperties registry id document changed = .ok restored ∧
      Copied (Shown declarations id) source changed restored := by
  have hdocument := copied_of_copyProperties hbuild hcopy
  have hback := copyProperties_ok hfind document changed
  have hrestored := copied_of_copyProperties hbuild hback
  exact ⟨_, hback, hdocument.trans hrestored⟩

end Editor

namespace Action

/-- Changes of a node under shown names are undone by copying back what it was. -/
theorem revert_edits (hbuild : Registry.build declarations settings = .ok registry) {tree : Tree}
    {place : NodeId} {node : Node} (hnode : tree.node? place = some node) {component : Component}
    (hfind : registry.find? node.component = some component) {baseline : Blueprint}
    (hcopy : Editor.copyNode registry tree place = .ok baseline) {edits : List Edit}
    (hshown : ∀ edit ∈ edits, Shown declarations node.component edit.name) :
    (Action.modification place baseline).revert registry (edits.foldl (Edit.performAt place) tree) =
      .ok () tree := by
  rw [Editor.copyNode_ok hnode hfind] at hcopy
  cases hcopy
  obtain ⟨restored, hrestored, hcopied⟩ := Editor.copied_back hbuild hfind
    (Editor.copyProperties_ok hfind node.fields .empty) (edits.foldl Edit.perform node.fields)
  have hsame : restored = node.fields := hcopied.eq_source (Edit.agreeOutside_foldl hshown)
  rw [Editor.copyProperties_ok hfind, Except.ok.injEq] at hrestored
  have hlive : (edits.foldl (Edit.performAt place) tree).node? place =
      some { node with fields := edits.foldl Edit.perform node.fields } := by
    rw [Edit.foldl_performAt, Tree.node?_mapNode, if_pos rfl, hnode]
    rfl
  rw [revert_modification hfind hlive, hrestored, hsame, Edit.foldl_performAt,
    Tree.mapNode_mapNode, Tree.mapNode_of_fixed hnode rfl]

end Action

namespace Editor

/-- A copy does not differ from its source, keeps all names that are not shown, and is not changed
by copying once more.  A copy on an empty document brings back, onto the source as it was changed
since then, what the source had under shown names, and leaves the rest alone; if only shown names
were changed, all is as it was.  So it is in a tree when a modification is taken back. -/
theorem copying_restores (hbuild : Registry.build declarations settings = .ok registry) :
    (∀ (id : String) (source target copied : Fields Datum),
      copyProperties registry id source target = .ok copied →
      differs registry id source copied = .ok false ∧
      Copied (Shown declarations id) source target copied ∧
      copyProperties registry id source copied = .ok copied) ∧
    (∀ (id : String) (component : Component) (source : Fields Datum),
      registry.find? id = some component →
      ∃ document, copyProperties registry id source .empty = .ok document ∧
        ∀ changed, ∃ restored, copyProperties registry id document changed = .ok restored ∧
          Copied (Shown declarations id) source changed restored ∧
          (AgreeOutside (Shown declarations id) changed source → restored = source)) ∧
    ∀ (tree : Tree) (place : NodeId) (node : Node) (component : Component),
      tree.node? place = some node → registry.find? node.component = some component →
      ∃ baseline, copyNode registry tree place = .ok baseline ∧
        ∀ edits : List Edit, (∀ edit ∈ edits, Shown declarations node.component edit.name) →
          (Action.modification place baseline).revert registry
            (edits.foldl (Edit.performAt place) tree) = .ok () tree := by
  refine ⟨?_, ?_, ?_⟩
  · intro id source target copied hcopy
    have hcopied := copied_of_copyProperties hbuild hcopy
    cases hfind : registry.find? id with
    | none =>
        rw [copyProperties, Registry.require_error hfind] at hcopy
        cases hcopy
    | some component =>
        have hagain := copyProperties_ok hfind source copied
        have hsame := (copied_of_copyProperties hbuild hagain).unique hcopied.again
        refine ⟨?_, hcopied, hagain.trans (congrArg Except.ok hsame)⟩
        rw [copyProperties_ok hfind] at hcopy
        cases hcopy
        rw [differs_eq_false_iff hfind, view_copy hfind source target]
  · intro id component source hfind
    have hcopy := copyProperties_ok hfind source .empty
    refine ⟨_, hcopy, fun changed => ?_⟩
    obtain ⟨restored, hrestored, hcopied⟩ := copied_back hbuild hfind hcopy changed
    exact ⟨restored, hrestored, hcopied, hcopied.eq_source⟩
  · intro tree place node component hnode hfind
    have hcopy := copyNode_ok hnode hfind
    exact ⟨_, hcopy, fun edits hshown => Action.revert_edits hbuild hnode hfind hcopy hshown⟩

/-- The label of a field. -/
def fieldLabel : SharedProperty := ⟨0, { name := "label", type := .string }⟩

/-- A mark that is kept with a field. -/
def fieldMark : SharedProperty := ⟨1, { name := "$open", type := .any }⟩

/-- The second text of a note. -/
def noteHint : SharedProperty := ⟨2, { name := "hint", type := .string }⟩

/-- Fields, and notes, which add a second text. -/
def noteDeclarations : List ComponentDeclaration :=
  [{ id := "field", own := [fieldLabel, fieldMark] },
    { id := "note", inherits := ["field"], own := [noteHint] }]

/-- A component with the properties of a field. -/
def fieldComponent : Component :=
  { id := "field", own := [fieldLabel, fieldMark]
    shared := ⟨[fieldLabel, fieldMark], by decide⟩
    templates := none, settings := {}, compiled := fun _ => rfl }

/-- A component with the properties of a field and those of a note. -/
def noteComponent : Component :=
  { id := "note", inherits := ["field"], own := [noteHint]
    shared := ⟨[fieldLabel, fieldMark, noteHint], by decide⟩
    templates := none, settings := {}, compiled := fun _ => rfl }

/-- The registry of fields and notes. -/
def noteRegistry : Registry :=
  ⟨[fieldComponent, noteComponent], {}, by decide, by simp [fieldComponent, noteComponent]⟩

/-- A note with a label and no hint, with a mark and a field that is not declared. -/
def noteFields : Fields Datum :=
  ⟨[("$open", .bool true), ("label", .string "a"), ("width", .bool false)], by decide⟩

/-- The note alone in its tree. -/
def noteTree : Tree := (Tree.empty.plant ⟨"note", noteFields, none⟩).2

/-- Copied onto another element, the note differs from it neither in its label nor in the hint that
it lacks.  When its label is taken away and it gets a hint, the note comes back both from a copy of
its values and in its tree. -/
theorem copying_restores_of_note :
    Registry.build noteDeclarations {} = .ok noteRegistry ∧
      differs noteRegistry "note" noteFields
          (.collect [("$open", .null), ("label", .string "a")]) = .ok false ∧
      copyProperties noteRegistry "note" (.single "label" (.string "a"))
          (.collect [("$open", .bool true), ("hint", .string "b"), ("width", .bool false)]) =
        .ok noteFields ∧
      (Action.modification 0 ⟨"note", .single "label" (.string "a"), none⟩).revert noteRegistry
        ([⟨"label", none⟩, ⟨"hint", some (.string "b")⟩].foldl (Edit.performAt 0) noteTree) =
          .ok () noteTree := by
  have hbuild : Registry.build noteDeclarations {} = .ok noteRegistry := rfl
  obtain ⟨hcopy, hback, htree⟩ := copying_restores hbuild
  have hlabel : Shown noteDeclarations "note" "label" := by
    rw [← mem_visible_iff_shown hbuild rfl]
    decide
  have hhint : Shown noteDeclarations "note" "hint" := by
    rw [← mem_visible_iff_shown hbuild rfl]
    decide
  refine ⟨hbuild, ?_, ?_, ?_⟩
  · exact (hcopy "note" noteFields (.collect [("$open", .null), ("hint", .null)]) _ rfl).1
  · obtain ⟨document, hdocument, hchanged⟩ := hback "note" _ noteFields rfl
    cases hdocument
    obtain ⟨restored, hrestored, -, hsame⟩ := hchanged
      ⟨[("$open", .bool true), ("hint", .string "b"), ("width", .bool false)], by decide⟩
    rw [← hsame ?_]
    · exact hrestored
    · intro name hname
      have hnot : name ≠ "label" := fun heq => hname (heq ▸ hlabel)
      have hnot' : name ≠ "hint" := fun heq => hname (heq ▸ hhint)
      simp [noteFields, Fields.get?, Entries.get?, Ne.symm hnot, Ne.symm hnot']
  · obtain ⟨baseline, hbaseline, hrevert⟩ := htree noteTree 0 _ _ rfl rfl
    cases hbaseline
    refine hrevert [⟨"label", none⟩, ⟨"hint", some (.string "b")⟩] ?_
    exact List.forall_mem_cons.mpr ⟨hlabel, List.forall_mem_singleton.mpr hhint⟩

end Editor

end FormDesigner
