import Mathlib.Data.List.Induction
import Mathlib.Data.List.Nodup
import Mathlib.Logic.Relation
import FormDesigner.Proofs.Answers
import FormDesigner.Registry.Inheritance

/-!
The properties of a component, by recursion on what it inherits.

Looking up what all components inherit succeeds exactly when the parents are known,
no component inherits from itself, and what a component collects agrees on its names.
What is found for a component is then the list given by recursion.
-/

namespace FormDesigner

namespace Inheritance

/-- Keeps the first of all occurrences of a property. -/
def distinct : List SharedProperty → List SharedProperty
  | [] => []
  | first :: rest =>
      first :: (distinct rest).filter fun other => other.serial ≠ first.serial

/-- Properties of one name are the same one. -/
def NamesAgree (properties : List SharedProperty) : Prop :=
  ∀ first ∈ properties, ∀ second ∈ properties,
    first.property.name = second.property.name → first.serial = second.serial

/-- Properties of one serial number are the same one. -/
def SerialsIdentify (properties : List SharedProperty) : Prop :=
  ∀ first ∈ properties, ∀ second ∈ properties, first.serial = second.serial → first = second

/-- The properties that are declared anywhere. -/
def declared (declarations : List ComponentDeclaration) : List SharedProperty :=
  declarations.flatMap fun declaration => declaration.own

/-- A declaration of `heir` names `parent`. -/
def Inherits (declarations : List ComponentDeclaration) (parent heir : String) : Prop :=
  ∃ declaration ∈ declarations, declaration.id = heir ∧ parent ∈ declaration.inherits

/-- All properties of a component: those of the components that it names, in the order
in which it names them, and then its own, each once. -/
inductive Effective (declarations : List ComponentDeclaration) :
    String → List SharedProperty → Prop where
  | declared {declaration : ComponentDeclaration} (known : declaration ∈ declarations)
      (share : String → List SharedProperty)
      (parents : ∀ parent ∈ declaration.inherits, Effective declarations parent (share parent)) :
      Effective declarations declaration.id
        (distinct (declaration.inherits.flatMap share ++ declaration.own))

/-- What a component collects before repeated properties are left out. -/
def Collects (declarations : List ComponentDeclaration) (declaration : ComponentDeclaration)
    (properties : List SharedProperty) : Prop :=
  ∃ share : String → List SharedProperty,
    (∀ parent ∈ declaration.inherits, Effective declarations parent (share parent)) ∧
    properties = declaration.inherits.flatMap share ++ declaration.own

section Distinct

variable {properties : List SharedProperty} {component : String}

theorem distinct_sublist (properties : List SharedProperty) :
    (distinct properties).Sublist properties := by
  induction properties with
  | nil => exact .slnil
  | cons first rest ih => exact (List.filter_sublist.trans ih).cons_cons first

theorem exists_mem_distinct {shared : SharedProperty} (h : shared ∈ properties) :
    ∃ kept ∈ distinct properties, kept.serial = shared.serial := by
  induction properties with
  | nil => cases h
  | cons first rest ih =>
      by_cases hsame : shared.serial = first.serial
      · exact ⟨first, List.mem_cons_self, hsame.symm⟩
      · rcases List.mem_cons.mp h with rfl | hrest
        · exact absurd rfl hsame
        · obtain ⟨kept, hkept, hserial⟩ := ih hrest
          refine ⟨kept, List.mem_cons_of_mem first (List.mem_filter.mpr ⟨hkept, ?_⟩), hserial⟩
          exact decide_eq_true fun heq => hsame (hserial ▸ heq)

theorem mem_distinct_iff (h : SerialsIdentify properties) {shared : SharedProperty} :
    shared ∈ distinct properties ↔ shared ∈ properties := by
  constructor
  · intro hmem
    exact (distinct_sublist properties).mem hmem
  · intro hmem
    obtain ⟨kept, hkept, hserial⟩ := exists_mem_distinct hmem
    have hsame : kept = shared :=
      h kept ((distinct_sublist properties).mem hkept) shared hmem hserial
    exact hsame ▸ hkept

theorem distinct_append (properties others : List SharedProperty) :
    distinct (properties ++ others) = distinct properties ++ (distinct others).filter fun other =>
      properties.all fun shared => other.serial ≠ shared.serial := by
  induction properties with
  | nil => simp [distinct]
  | cons first rest ih =>
      rw [List.cons_append, distinct, ih, distinct, List.filter_append, List.filter_filter,
        List.cons_append]
      rfl

theorem distinct_snoc_of_mem {last : SharedProperty}
    (h : ∃ shared ∈ properties, shared.serial = last.serial) :
    distinct (properties ++ [last]) = distinct properties := by
  obtain ⟨shared, hmem, hserial⟩ := h
  have hrefused : (properties.all fun shared => last.serial ≠ shared.serial) = false :=
    List.all_eq_false.mpr ⟨shared, hmem, by simp [hserial]⟩
  rw [distinct_append, distinct, distinct, List.filter_nil, List.filter_cons, hrefused]
  exact List.append_nil _

theorem distinct_snoc_of_forall_ne {last : SharedProperty}
    (h : ∀ shared ∈ properties, shared.serial ≠ last.serial) :
    distinct (properties ++ [last]) = distinct properties ++ [last] := by
  have hkept : (properties.all fun shared => last.serial ≠ shared.serial) = true := by
    rw [List.all_eq_true]
    intro shared hmem
    exact decide_eq_true (h shared hmem).symm
  rw [distinct_append, distinct, distinct, List.filter_nil, List.filter_cons, hkept]
  rfl

theorem SerialsIdentify.mono {others : List SharedProperty} (h : SerialsIdentify properties)
    (hsubset : ∀ shared ∈ others, shared ∈ properties) : SerialsIdentify others := by
  intro first hfirst second hsecond
  exact h first (hsubset first hfirst) second (hsubset second hsecond)

theorem NamesAgree.of_append {others : List SharedProperty}
    (h : NamesAgree (properties ++ others)) :
    NamesAgree properties := by
  intro first hfirst second hsecond
  exact h first (List.mem_append_left _ hfirst) second (List.mem_append_left _ hsecond)

theorem NamesAgree.snoc {last : SharedProperty} (h : NamesAgree properties)
    (hlast : ∀ shared ∈ properties, shared.property.name = last.property.name →
      shared.serial = last.serial) : NamesAgree (properties ++ [last]) := by
  intro first hfirst second hsecond hname
  rw [List.mem_append, List.mem_singleton] at hfirst hsecond
  rcases hfirst with hfirst | rfl
  · rcases hsecond with hsecond | rfl
    · exact h first hfirst second hsecond hname
    · exact hlast first hfirst hname
  · rcases hsecond with hsecond | rfl
    · exact (hlast second hsecond hname.symm).symm
    · rfl

/-- When names agree, those of the properties that are kept differ. -/
theorem names_nodup_distinct (h : NamesAgree properties) :
    ((distinct properties).map fun shared => shared.property.name).Nodup := by
  induction properties with
  | nil => exact List.nodup_nil
  | cons first rest ih =>
      have hrest : NamesAgree rest := fun shared hshared other hother =>
        h shared (List.mem_cons_of_mem first hshared) other (List.mem_cons_of_mem first hother)
      rw [distinct, List.map_cons, List.nodup_cons]
      refine ⟨?_, (ih hrest).sublist (List.filter_sublist.map _)⟩
      intro hmem
      obtain ⟨other, hother, hname⟩ := List.mem_map.mp hmem
      obtain ⟨hkept, hserial⟩ := List.mem_filter.mp hother
      have hlisted : other ∈ first :: rest :=
        List.mem_cons_of_mem first ((distinct_sublist rest).mem hkept)
      exact of_decide_eq_true hserial (h other hlisted first List.mem_cons_self hname)

/-- Adding a property to those that are kept succeeds if the names still agree. -/
theorem addProperty_ok_iff {last : SharedProperty} {kept merged : PropertyList}
    (hserials : SerialsIdentify (properties ++ [last])) (hnames : NamesAgree properties)
    (hitems : kept.items = distinct properties) :
    addProperty component kept last = .ok merged ↔
      NamesAgree (properties ++ [last]) ∧ merged.items = distinct (properties ++ [last]) := by
  have hbelow : SerialsIdentify properties := hserials.mono fun _ => List.mem_append_left _
  have hkept : ∀ shared, shared ∈ kept.items ↔ shared ∈ properties := fun _ =>
    hitems ▸ mem_distinct_iff hbelow
  have hlast : last ∈ properties ++ [last] := List.mem_append_right _ List.mem_cons_self
  cases hfind : kept.find? last.property.name with
  | none =>
      have hnew : ∀ shared ∈ properties, shared.property.name ≠ last.property.name := by
        intro shared hmem hname
        exact List.find?_eq_none.mp hfind shared ((hkept shared).mpr hmem) (decide_eq_true hname)
      have hserial : ∀ shared ∈ properties, shared.serial ≠ last.serial := by
        intro shared hmem heq
        have hsame := hserials shared (List.mem_append_left _ hmem) last hlast heq
        exact hnew shared hmem (hsame ▸ rfl)
      have hagree : NamesAgree (properties ++ [last]) :=
        hnames.snoc fun shared hmem hname => absurd hname (hnew shared hmem)
      simp [addProperty_of_new hfind, distinct_snoc_of_forall_ne hserial, hagree, ← hitems,
        PropertyList.ext_iff, PropertyList.snoc, eq_comm]
  | some present =>
      have hpresent : present ∈ properties := (hkept present).mp (List.mem_of_find?_eq_some hfind)
      have hname : present.property.name = last.property.name := by
        simpa using List.find?_some hfind
      by_cases hserial : present.serial = last.serial
      · have hagree : NamesAgree (properties ++ [last]) := by
          apply hnames.snoc
          intro shared hmem heq
          exact (hnames shared hmem present hpresent (heq.trans hname.symm)).trans hserial
        simp [addProperty_of_present hfind, hserial,
          distinct_snoc_of_mem ⟨present, hpresent, hserial⟩, hagree, ← hitems,
          PropertyList.ext_iff, eq_comm]
      · have hclash : ¬NamesAgree (properties ++ [last]) := fun hagree =>
          hserial (hagree present (List.mem_append_left _ hpresent) last hlast hname)
        simp [addProperty_of_present hfind, hserial, hclash]

/-- Properties can be merged if their names agree, and then each of them is kept once. -/
theorem merge_ok_iff {merged : PropertyList} (hserials : SerialsIdentify properties) :
    merge component properties = .ok merged ↔
      NamesAgree properties ∧ merged.items = distinct properties := by
  induction properties using List.reverseRecOn generalizing merged with
  | nil =>
      have hagree : NamesAgree [] := fun _ hmem => absurd hmem List.not_mem_nil
      constructor
      · intro h
        cases h
        exact ⟨hagree, rfl⟩
      · rintro ⟨_, hitems⟩
        exact congrArg Except.ok (PropertyList.ext hitems.symm)
  | append_singleton properties last ih =>
      have hbelow : SerialsIdentify properties := hserials.mono fun _ => List.mem_append_left _
      have hsplit : merge component (properties ++ [last]) =
          merge component properties >>= fun kept => addProperty component kept last := by
        rw [merge, List.foldlM_append]
        exact bind_congr fun kept => bind_pure _
      rw [hsplit]
      constructor
      · intro h
        obtain ⟨kept, hkept, hadded⟩ := Answer.of_bind_ok h
        obtain ⟨hnames, hitems⟩ := (ih hbelow).mp hkept
        exact (addProperty_ok_iff hserials hnames hitems).mp hadded
      · rintro ⟨hagree, hitems⟩
        have hnames := hagree.of_append
        have hkept : merge component properties =
            .ok ⟨distinct properties, names_nodup_distinct hnames⟩ :=
          (ih hbelow).mpr ⟨hnames, rfl⟩
        rw [hkept]
        exact (addProperty_ok_iff hserials hnames rfl).mpr ⟨hagree, hitems⟩

end Distinct

section Effective

variable {declarations others : List ComponentDeclaration}

theorem Inherits.mono {parent heir : String}
    (hsubset : ∀ declaration ∈ declarations, declaration ∈ others)
    (h : Inherits declarations parent heir) : Inherits others parent heir := by
  obtain ⟨declaration, hmem, hnames⟩ := h
  exact ⟨declaration, hsubset declaration hmem, hnames⟩

theorem Effective.mono {id : String} {properties : List SharedProperty}
    (hsubset : ∀ declaration ∈ declarations, declaration ∈ others)
    (h : Effective declarations id properties) : Effective others id properties := by
  induction h with
  | declared known share _ ih => exact .declared (hsubset _ known) share ih

theorem Effective.exists_declaration {id : String} {properties : List SharedProperty}
    (h : Effective declarations id properties) :
    ∃ declaration ∈ declarations, declaration.id = id := by
  cases h with
  | declared known => exact ⟨_, known, rfl⟩

theorem Collects.mono {declaration : ComponentDeclaration} {properties : List SharedProperty}
    (hsubset : ∀ declaration ∈ declarations, declaration ∈ others)
    (h : Collects declarations declaration properties) :
    Collects others declaration properties := by
  obtain ⟨share, hparents, hlist⟩ := h
  exact ⟨share, fun parent hmem => (hparents parent hmem).mono hsubset, hlist⟩

theorem eq_of_id_eq (hids : (declarations.map ComponentDeclaration.id).Nodup)
    {first second : ComponentDeclaration} (hfirst : first ∈ declarations)
    (hsecond : second ∈ declarations) (hid : first.id = second.id) : first = second :=
  List.inj_on_of_nodup_map hids hfirst hsecond hid

/-- A component has one list of properties. -/
theorem Effective.unique (hids : (declarations.map ComponentDeclaration.id).Nodup) {id : String}
    {properties same : List SharedProperty} (h : Effective declarations id properties)
    (hsame : Effective declarations id same) : properties = same := by
  induction h generalizing same with
  | @declared declaration known share _ ih =>
      generalize hid : declaration.id = id at hsame
      cases hsame with
      | @declared other hother share' hparents =>
          cases eq_of_id_eq hids known hother hid
          have hshare : declaration.inherits.flatMap share = declaration.inherits.flatMap share' :=
            List.flatMap_congr fun parent hmem => ih parent hmem (hparents parent hmem)
          rw [hshare]

theorem Collects.unique (hids : (declarations.map ComponentDeclaration.id).Nodup)
    {declaration : ComponentDeclaration} {properties same : List SharedProperty}
    (h : Collects declarations declaration properties)
    (hsame : Collects declarations declaration same) : properties = same := by
  obtain ⟨share, hparents, rfl⟩ := h
  obtain ⟨share', hparents', rfl⟩ := hsame
  have hshare : declaration.inherits.flatMap share = declaration.inherits.flatMap share' :=
    List.flatMap_congr fun parent hmem => (hparents parent hmem).unique hids (hparents' parent hmem)
  rw [hshare]

theorem Collects.effective {declaration : ComponentDeclaration} (known : declaration ∈ declarations)
    {properties : List SharedProperty} (h : Collects declarations declaration properties) :
    Effective declarations declaration.id (distinct properties) := by
  obtain ⟨share, hparents, rfl⟩ := h
  exact .declared known share hparents

theorem forall_mem_declared {declaration : ComponentDeclaration}
    (known : declaration ∈ declarations)
    {share : String → List SharedProperty}
    (hparents : ∀ parent ∈ declaration.inherits, ∀ shared ∈ share parent,
      shared ∈ Inheritance.declared declarations) :
    ∀ shared ∈ declaration.inherits.flatMap share ++ declaration.own,
      shared ∈ Inheritance.declared declarations := by
  intro shared hmem
  rcases List.mem_append.mp hmem with hinherited | hown
  · obtain ⟨parent, hparent, hshared⟩ := List.mem_flatMap.mp hinherited
    exact hparents parent hparent shared hshared
  · exact List.mem_flatMap.mpr ⟨declaration, known, hown⟩

/-- What a component has is declared somewhere. -/
theorem Effective.declared_mem {id : String} {properties : List SharedProperty}
    (h : Effective declarations id properties) :
    ∀ shared ∈ properties, shared ∈ Inheritance.declared declarations := by
  induction h with
  | declared known share _ ih =>
      intro shared hmem
      exact forall_mem_declared known ih shared ((distinct_sublist _).mem hmem)

theorem Collects.serialsIdentify {declaration : ComponentDeclaration}
    (known : declaration ∈ declarations)
    (hserials : SerialsIdentify (Inheritance.declared declarations))
    {properties : List SharedProperty} (h : Collects declarations declaration properties) :
    SerialsIdentify properties := by
  obtain ⟨share, hparents, rfl⟩ := h
  apply hserials.mono
  exact forall_mem_declared known fun parent hmem => (hparents parent hmem).declared_mem

/-- A component whose properties can be found by recursion does not inherit from itself. -/
theorem Effective.acyclic (hids : (declarations.map ComponentDeclaration.id).Nodup) {id : String}
    {properties : List SharedProperty} (h : Effective declarations id properties) :
    ¬Relation.TransGen (Inherits declarations) id id := by
  -- Recursion ends here, so that there is no endless way upwards, and a circle is one.
  have hreached : Acc (Inherits declarations) id := by
    induction h with
    | @declared declaration known share _ ih =>
        constructor
        rintro parent ⟨other, hother, hid, hparent⟩
        cases eq_of_id_eq hids hother known hid
        exact ih parent hparent
  clear h
  have hbelow := hreached.transGen
  clear hreached
  induction hbelow with
  | intro id _ ih => exact fun hcycle => ih id hcycle hcycle

end Effective

end Inheritance

end FormDesigner
