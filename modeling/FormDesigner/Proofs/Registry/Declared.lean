import FormDesigner.Proofs.Registry.Circles

/-!
The names that a component declares.

A component declares the names of its own properties, and those that the components it inherits
from declare.  In a registry that was built these are the names of its properties.
-/

namespace FormDesigner

namespace Inheritance

/-- The component has a property of the name, of its own or from above. -/
inductive Declares (declarations : List ComponentDeclaration) : String → String → Prop where
  | own {declaration : ComponentDeclaration} {shared : SharedProperty}
      (known : declaration ∈ declarations) (listed : shared ∈ declaration.own) :
      Declares declarations declaration.id shared.property.name
  | inherited {declaration : ComponentDeclaration} {parent name : String}
      (known : declaration ∈ declarations) (inherits : parent ∈ declaration.inherits)
      (above : Declares declarations parent name) : Declares declarations declaration.id name

/-- One of the properties has the name. -/
def ListsName (properties : List SharedProperty) (name : String) : Prop :=
  ∃ shared ∈ properties, shared.property.name = name

/-- What is done has the names that are declared for it. -/
def Resolved.Declaring (declarations : List ComponentDeclaration) (done : Resolved) : Prop :=
  ∀ id properties, done.lookup id = some properties →
    ∀ name, ListsName properties.items name ↔ Declares declarations id name

section Merging

variable {properties others : List SharedProperty} {list merged : PropertyList}
  {component name : String}

theorem listsName_append :
    ListsName (properties ++ others) name ↔ ListsName properties name ∨ ListsName others name := by
  simp only [ListsName, List.mem_append, or_and_right, exists_or]

theorem listsName_cons {shared : SharedProperty} :
    ListsName (shared :: properties) name ↔
      shared.property.name = name ∨ ListsName properties name := by
  simp only [ListsName, List.mem_cons, or_and_right, exists_or, exists_eq_left]

theorem listsName_flatMap {ids : List String} {share : String → List SharedProperty} :
    ListsName (ids.flatMap share) name ↔ ∃ id ∈ ids, ListsName (share id) name := by
  simp only [ListsName, List.mem_flatMap]
  grind

/-- A property that is added is there, or one of its name was there before. -/
theorem listsName_addProperty {added : SharedProperty}
    (h : addProperty component list added = .ok merged) :
    ListsName merged.items name ↔ ListsName list.items name ∨ added.property.name = name := by
  rw [addProperty] at h
  split at h
  · cases h
    rw [PropertyList.snoc, listsName_append, listsName_cons]
    simp [ListsName]
  · next present hfind =>
      have hsame : present.property.name = added.property.name := by
        simpa using List.find?_some hfind
      have hthere : ListsName list.items added.property.name :=
        ⟨present, List.mem_of_find?_eq_some hfind, hsame⟩
      split at h
      · cases h
        constructor
        · exact .inl
        · rintro (hlists | rfl)
          · exact hlists
          · exact hthere
      · cases h

theorem listsName_foldlM (h : others.foldlM (addProperty component) list = .ok merged) :
    ListsName merged.items name ↔ ListsName list.items name ∨ ListsName others name := by
  induction others generalizing list with
  | nil =>
      cases h
      simp [ListsName]
  | cons added rest ih =>
      rw [List.foldlM_cons] at h
      obtain ⟨middle, hfirst, hrest⟩ := Answer.of_bind_ok h
      rw [ih hrest, listsName_addProperty hfirst, listsName_cons, or_assoc]

/-- Merging loses no name. -/
theorem listsName_merge (h : merge component properties = .ok merged) :
    ListsName merged.items name ↔ ListsName properties name := by
  rw [listsName_foldlM h]
  simp [ListsName, PropertyList.empty]

end Merging

variable {declarations : List ComponentDeclaration} {done after : Resolved} {name : String}

/-- A component declares what its parents declare and its own names. -/
theorem declares_iff (hids : (declarations.map ComponentDeclaration.id).Nodup)
    {component : ComponentDeclaration} (hknown : component ∈ declarations) :
    Declares declarations component.id name ↔
      (∃ parent ∈ component.inherits, Declares declarations parent name) ∨
        ListsName component.own name := by
  constructor
  · intro h
    generalize hid : component.id = id at h
    cases h with
    | own known listed =>
        cases eq_of_id_eq hids hknown known hid
        exact .inr ⟨_, listed, rfl⟩
    | inherited known inherits above =>
        cases eq_of_id_eq hids hknown known hid
        exact .inl ⟨_, inherits, above⟩
  · rintro (⟨parent, hparent, habove⟩ | ⟨shared, hshared, rfl⟩)
    · exact .inherited hknown hparent habove
    · exact .own hknown hshared

/-- When all parents are done, so is the component, with the names that are declared for it. -/
theorem Resolved.Declaring.complete (hids : (declarations.map ComponentDeclaration.id).Nodup)
    {component : ComponentDeclaration} (hknown : component ∈ declarations)
    (hdone : done.Declaring declarations)
    (hparents : ∀ parent ∈ component.inherits, (done.lookup parent).isSome = true)
    (h : Inheritance.complete component done = .ok after) : after.Declaring declarations := by
  obtain ⟨properties, hmerge, hlast⟩ := Answer.of_bind_ok h
  cases hlast
  intro id found hfound name
  rw [List.lookup_append, Option.or_eq_some_iff] at hfound
  rcases hfound with hold | ⟨_, hnew⟩
  · exact hdone id found hold name
  · rw [List.lookup_cons] at hnew
    split at hnew
    · next heq =>
        cases hnew
        cases beq_iff_eq.mp heq
        rw [listsName_merge hmerge, listsName_append, listsName_flatMap, declares_iff hids hknown]
        refine or_congr_left (exists_congr fun parent => and_congr_right fun hparent => ?_)
        obtain ⟨inherited, hlookup⟩ := Option.isSome_iff_exists.mp (hparents parent hparent)
        rw [Resolved.properties, hlookup]
        exact hdone parent inherited hlookup name
    · cases hnew

/-- A search that succeeds finds the names that are declared. -/
theorem Search.declaring {path : List String} {goal : Goal}
    {answer : Except RegistryError Resolved}
    (hids : (declarations.map ComponentDeclaration.id).Nodup)
    (h : Search declarations path done goal answer) (htrail : Trail declarations path goal)
    (hgrounded : done.Grounded declarations) (hdone : done.Declaring declarations)
    (hanswer : answer = .ok after) : after.Declaring declarations := by
  induction h generalizing after with
  | known =>
      cases hanswer
      exact hdone
  | closed => cases hanswer
  | entered _ fresh parents ih =>
      obtain ⟨middle, rfl, hcomplete⟩ := Answer.of_bind_ok hanswer
      have hparents := htrail.entered fresh
      obtain ⟨-, -, hgained⟩ := parents.grounded hids hparents hgrounded rfl
      exact (ih hparents hgrounded hdone rfl).complete hids htrail.1 hgained hcomplete
  | finished =>
      cases hanswer
      exact hdone
  | missing => cases hanswer
  | failed => cases hanswer
  | found known first _ ihfirst ihrest =>
      have hfirst := htrail.first known
      obtain ⟨hmiddle, -⟩ := first.grounded hids hfirst hgrounded rfl
      exact ihrest htrail.rest hmiddle (ihfirst hfirst hgrounded hdone rfl) hanswer

theorem declaring_of_resolveAll {components : List ComponentDeclaration}
    (hids : (declarations.map ComponentDeclaration.id).Nodup)
    (hknown : ∀ component ∈ components, component ∈ declarations)
    (hgrounded : done.Grounded declarations) (hdone : done.Declaring declarations)
    (h : components.foldlM (fun done component =>
      resolve declarations (declarations.length + 1) [] done component) done = .ok after) :
    after.Declaring declarations := by
  induction components generalizing done with
  | nil =>
      cases h
      exact hdone
  | cons component rest ih =>
      rw [List.foldlM_cons] at h
      obtain ⟨middle, hfirst, hrest⟩ := Answer.of_bind_ok h
      have hmem := hknown component List.mem_cons_self
      have hsearch : Search declarations [] done (.component component) _ := search_start hmem
      obtain ⟨hmiddle, -⟩ := hsearch.grounded hids (Trail.start hmem) hgrounded hfirst
      exact ih (fun other hother => hknown other (List.mem_cons_of_mem component hother)) hmiddle
        (hsearch.declaring hids (Trail.start hmem) hgrounded hdone hfirst) hrest

end Inheritance

namespace Registry

open Inheritance

/-- The properties of a component in a registry that was built have the names that it
declares. -/
theorem mem_names_iff_declares {declarations : List ComponentDeclaration}
    {settings : RenderSettings} {registry : Registry}
    (h : build declarations settings = .ok registry) {id : String} {component : Component}
    (hfind : registry.find? id = some component) {name : String} :
    name ∈ component.properties.map Property.name ↔ Declares declarations id name := by
  obtain ⟨_, hids, ⟨resolved, hresolved, hcomponents⟩, _⟩ := build_ok_iff.mp h
  obtain ⟨hmem, rfl⟩ := find?_eq_some_iff.mp hfind
  obtain ⟨declaration, hknown, hmake⟩ := Answer.exists_of_mem_mapM hcomponents hmem
  obtain ⟨hsame, hshared, -⟩ := of_makeComponent_ok hmake
  have hgrounded : Resolved.Grounded declarations [] := fun _ hmem => by cases hmem
  have hnothing : Resolved.Declaring declarations [] := fun _ _ hmem => by cases hmem
  have hdeclaring := declaring_of_resolveAll hids (fun _ hmem => hmem) hgrounded hnothing hresolved
  obtain ⟨-, -, hfound⟩ := grounded_resolveAll hids (fun _ hmem => hmem) hgrounded hresolved
  obtain ⟨properties, hlookup⟩ :=
    Option.isSome_iff_exists.mp (hfound declaration.id (List.mem_map_of_mem hknown))
  rw [Resolved.properties, hlookup, Option.getD_some] at hshared
  rw [hsame, ← hdeclaring declaration.id properties hlookup, Component.properties, hshared]
  simp [ListsName, PropertyList.properties]

end Registry

end FormDesigner
