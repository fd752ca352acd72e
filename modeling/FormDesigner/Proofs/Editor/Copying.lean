import FormDesigner.Proofs.Editor.View
import FormDesigner.Proofs.Registry.Declared

/-!
What copying an element changes, and what copying back brings back.

Values are copied under the shown names, which are the declared ones that are not bookkeeping.
A copy has there what its source has, present or absent, and what it had before everywhere else.
There is only one such list of values, so that copying once more changes nothing, and copying
back what was copied undoes all changes under shown names.
-/

namespace FormDesigner

/-- The component declares the name, of its own or from above, and it is not bookkeeping. -/
def Shown (declarations : List ComponentDeclaration) (id name : String) : Prop :=
  Inheritance.Declares declarations id name ∧ name.toList.head? ≠ some '$'

/-- Under the shown names there is what the source has, and under all others what the target
has. -/
structure Copied (shown : String → Prop) (source target copied : Fields Datum) : Prop where
  same : ∀ name, shown name → Fields.get? name copied = Fields.get? name source
  kept : ∀ name, ¬shown name → Fields.get? name copied = Fields.get? name target

/-- The elements agree under all names that are not shown. -/
def AgreeOutside (shown : String → Prop) (left right : Fields Datum) : Prop :=
  ∀ name, ¬shown name → Fields.get? name left = Fields.get? name right

namespace Copied

variable {shown : String → Prop} {source target document changed copied other : Fields Datum}

/-- Nothing is left open by what a copy is. -/
theorem unique (h : Copied shown source target copied) (hother : Copied shown source target other) :
    copied = other := by
  apply Fields.ext_get?
  intro name
  by_cases hname : shown name
  · rw [h.same name hname, hother.same name hname]
  · rw [h.kept name hname, hother.kept name hname]

/-- A copy is a copy onto itself. -/
theorem again (h : Copied shown source target copied) : Copied shown source copied copied :=
  ⟨h.same, fun _ _ => rfl⟩

/-- A copy of a copy has what the first source had. -/
theorem trans (h : Copied shown source target document)
    (hnext : Copied shown document changed copied) : Copied shown source changed copied where
  same name hname := (hnext.same name hname).trans (h.same name hname)
  kept := hnext.kept

/-- What was changed under shown names only is the source again. -/
theorem eq_source (h : Copied shown source changed copied)
    (hchanged : AgreeOutside shown changed source) : copied = source :=
  h.unique ⟨fun _ _ => rfl, fun name hname => (hchanged name hname).symm⟩

end Copied

namespace Editor

variable {declarations : List ComponentDeclaration} {settings : RenderSettings}
  {registry : Registry} {id : String}

theorem not_isInternal_iff {property : Property} :
    (!property.isInternal) = true ↔ property.name.toList.head? ≠ some '$' := by
  simp [Property.isInternal]

/-- Compared and copied are the values under the shown names. -/
theorem mem_visible_iff_shown (hbuild : Registry.build declarations settings = .ok registry)
    {component : Component} (hfind : registry.find? id = some component) {name : String} :
    name ∈ component.visibleProperties.map Property.name ↔ Shown declarations id name := by
  rw [Shown, ← Registry.mem_names_iff_declares hbuild hfind, Component.visibleProperties]
  constructor
  · intro hmem
    obtain ⟨property, hproperty, rfl⟩ := List.mem_map.mp hmem
    obtain ⟨hlisted, hvisible⟩ := List.mem_filter.mp hproperty
    exact ⟨List.mem_map_of_mem hlisted, not_isInternal_iff.mp hvisible⟩
  · rintro ⟨hmem, hname⟩
    obtain ⟨property, hlisted, rfl⟩ := List.mem_map.mp hmem
    exact List.mem_map_of_mem (List.mem_filter.mpr ⟨hlisted, not_isInternal_iff.mpr hname⟩)

theorem copied_of_copyProperties (hbuild : Registry.build declarations settings = .ok registry)
    {source target copied : Fields Datum}
    (h : copyProperties registry id source target = .ok copied) :
    Copied (Shown declarations id) source target copied := by
  cases hfind : registry.find? id with
  | none =>
      rw [copyProperties, Registry.require_error hfind] at h
      cases h
  | some component =>
      rw [copyProperties_ok hfind] at h
      cases h
      constructor
      · intro name hname
        rw [get?_copy, if_pos ((mem_visible_iff_shown hbuild hfind).mpr hname)]
      · intro name hname
        rw [get?_copy, if_neg (mt (mem_visible_iff_shown hbuild hfind).mp hname)]

end Editor

/-- A change to one value of an element: to another one, or to none. -/
structure Edit where
  name : String
  value : Option Datum

namespace Edit

/-- Makes a change to the values of an element. -/
def perform (fields : Fields Datum) (edit : Edit) : Fields Datum :=
  match edit.value with
  | some datum => Fields.put edit.name datum fields
  | none => Fields.drop edit.name fields

/-- Makes a change to a node of a tree. -/
def performAt (place : NodeId) (tree : Tree) (edit : Edit) : Tree :=
  match edit.value with
  | some datum => tree.setValue place edit.name datum
  | none => tree.dropValue place edit.name

variable {fields : Fields Datum} {edit : Edit} {edits : List Edit}

theorem get?_perform_of_ne {name : String} (h : name ≠ edit.name) :
    Fields.get? name (edit.perform fields) = Fields.get? name fields := by
  obtain ⟨other, value⟩ := edit
  cases value with
  | none => exact Fields.get?_drop_of_ne h fields
  | some datum => exact Fields.get?_put_of_ne h datum fields

/-- Changes under shown names keep all other values. -/
theorem agreeOutside_foldl {shown : String → Prop} (hedits : ∀ edit ∈ edits, shown edit.name) :
    AgreeOutside shown (edits.foldl perform fields) fields := by
  induction edits generalizing fields with
  | nil => exact fun _ _ => rfl
  | cons edit rest ih =>
      obtain ⟨hfirst, hrest⟩ := List.forall_mem_cons.mp hedits
      intro name hname
      have hne : name ≠ edit.name := fun heq => hname (heq ▸ hfirst)
      rw [List.foldl_cons, ih hrest name hname, get?_perform_of_ne hne]

theorem performAt_eq (place : NodeId) (tree : Tree) (edit : Edit) :
    edit.performAt place tree =
      tree.mapNode place fun node => { node with fields := edit.perform node.fields } := by
  obtain ⟨name, value⟩ := edit
  cases value <;> rfl

/-- Changes to a node of a tree are changes to its values. -/
theorem foldl_performAt (place : NodeId) (tree : Tree) (edits : List Edit) :
    edits.foldl (performAt place) tree =
      tree.mapNode place fun node => { node with fields := edits.foldl perform node.fields } := by
  induction edits generalizing tree with
  | nil => exact (Tree.mapNode_id tree place).symm
  | cons edit rest ih =>
      rw [List.foldl_cons, ih, performAt_eq, Tree.mapNode_mapNode]
      rfl

end Edit

end FormDesigner
