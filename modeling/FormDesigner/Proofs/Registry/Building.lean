import FormDesigner.Proofs.Registry.Names
import FormDesigner.Proofs.Registry.Resolution

/-!
Which declarations a registry can be built of, and what it then holds.

Building looks at the declarations in the order in which they are registered, but whether
it succeeds and what every component has does not depend on the order.
-/

namespace FormDesigner

namespace Registry

open Inheritance

/-- The templates of a component can be made for its properties. -/
def Compiles (settings : RenderSettings) (declaration : ComponentDeclaration)
    (properties : List Property) : Prop :=
  ∀ edit run, declaration.templateSources = some (edit, run) →
    (∃ template, Template.compile edit .edit properties settings = .ok template) ∧
      ∃ template, Template.compile run .run properties settings = .ok template

/-- The settings are valid, every component has what it needs to inherit, and all templates
can be made for what it then has. -/
structure Buildable (declarations : List ComponentDeclaration) (settings : RenderSettings) :
    Prop extends Heritable declarations where
  accepted : settings.rejections = []
  templates : ∀ declaration ∈ declarations, ∀ properties,
    Effective declarations declaration.id properties →
      Compiles settings declaration (properties.map SharedProperty.property)

variable {declarations others : List ComponentDeclaration} {settings : RenderSettings}
  {registry : Registry}

theorem compileTemplate_of_ok {component : String} {properties : List Property}
    {mode : RenderMode} {source : String} {template : Template}
    (h : MadeOf settings properties mode source template) :
    compileTemplate settings component properties mode source = .ok ⟨template, h⟩ := by
  rw [compileTemplate]
  split
  · next hmade =>
      cases h.symm.trans hmade
      rfl
  · next hfailed => cases h.symm.trans hfailed

theorem makeComponent_of_bare {declaration : ComponentDeclaration} {shared : PropertyList}
    (h : declaration.templateSources = none) :
    makeComponent settings declaration shared = .ok { declaration with
      shared, templates := none, settings, compiled := compiled_of_bare h } := by
  rw [makeComponent]
  split
  · rfl
  · next hsources => cases h.symm.trans hsources

theorem makeComponent_of_sources {declaration : ComponentDeclaration} {shared : PropertyList}
    {editSource runSource : String} {edit run : Template}
    (h : declaration.templateSources = some (editSource, runSource))
    (hedit : MadeOf settings shared.properties .edit editSource edit)
    (hrun : MadeOf settings shared.properties .run runSource run) :
    makeComponent settings declaration shared = .ok { declaration with
      shared, templates := some ⟨edit, run⟩, settings
      compiled := compiled_of_sources h hedit hrun } := by
  rw [makeComponent]
  split
  · next hbare => cases h.symm.trans hbare
  · next hsources =>
      cases h.symm.trans hsources
      rw [compileTemplate_of_ok hedit, compileTemplate_of_ok hrun]
      rfl

/-- A component can be made if its templates can. -/
theorem exists_makeComponent_iff {declaration : ComponentDeclaration} {shared : PropertyList} :
    (∃ component, makeComponent settings declaration shared = .ok component) ↔
      Compiles settings declaration shared.properties := by
  constructor
  · rintro ⟨component, h⟩ edit run hsources
    rw [makeComponent] at h
    split at h
    · next hbare => cases hbare.symm.trans hsources
    · next hfound =>
        cases hfound.symm.trans hsources
        obtain ⟨first, -, hmore⟩ := Answer.of_bind_ok h
        obtain ⟨second, -, -⟩ := Answer.of_bind_ok hmore
        exact ⟨⟨first.1, first.2⟩, second.1, second.2⟩
  · intro h
    cases hsources : declaration.templateSources with
    | none => exact ⟨_, makeComponent_of_bare hsources⟩
    | some sources =>
        obtain ⟨⟨edit, hedit⟩, run, hrun⟩ := h sources.1 sources.2 hsources
        exact ⟨_, makeComponent_of_sources hsources hedit hrun⟩

/-- The steps of building. -/
theorem build_ok_iff :
    build declarations settings = .ok registry ↔
      settings.rejections = [] ∧ (declarations.map ComponentDeclaration.id).Nodup ∧
      (∃ resolved, resolveAll declarations = .ok resolved ∧
        makeComponents settings resolved declarations = .ok registry.components) ∧
      registry.settings = settings := by
  rw [build]
  by_cases hsettings : settings.rejections = []
  · rw [if_neg (not_not.mpr hsettings)]
    dsimp only
    split
    · next id hrepeat =>
        constructor
        · intro h
          cases h
        · rintro ⟨_, hnodup, _⟩
          have hnone := firstRepeat?_eq_none_iff.mpr ⟨hnodup, fun _ _ => List.not_mem_nil⟩
          cases hnone.symm.trans hrepeat
    · next hrepeat =>
        have hids := (firstRepeat?_eq_none_iff.mp hrepeat).1
        constructor
        · intro h
          obtain ⟨resolved, hresolved, hmore⟩ := Answer.of_bind_ok h
          split at hmore
          · cases hmore
          · next components hcomponents =>
              cases hmore
              exact ⟨hsettings, hids, ⟨resolved, hresolved, hcomponents⟩, rfl⟩
        · rintro ⟨_, _, ⟨resolved, hresolved, hcomponents⟩, hsame⟩
          refine (Answer.bind_of_ok hresolved).trans ?_
          split
          · next hfailed => cases hcomponents.symm.trans hfailed
          · next components hfound =>
              cases hcomponents.symm.trans hfound
              exact congrArg Except.ok (Registry.ext rfl hsame.symm)
  · rw [if_pos hsettings]
    constructor
    · intro h
      cases h
    · rintro ⟨hvalid, _⟩
      exact absurd hvalid hsettings

theorem declarations_of_build (h : build declarations settings = .ok registry) :
    registry.components.map Component.toComponentDeclaration = declarations := by
  obtain ⟨-, -, ⟨_, -, hcomponents⟩, -⟩ := build_ok_iff.mp h
  exact declarations_of_makeComponents hcomponents

variable (hserials : SerialsIdentify (declared declarations))

include hserials

theorem buildable_of_build (h : build declarations settings = .ok registry) :
    Buildable declarations settings := by
  obtain ⟨hsettings, hids, ⟨resolved, hresolved, hcomponents⟩, -⟩ := build_ok_iff.mp h
  have hreached := reaches_of_resolveAll hserials hresolved
  refine ⟨heritable_of_resolveAll hserials hids hresolved, hsettings, ?_⟩
  intro declaration hmem properties heffective
  obtain ⟨found, hfound⟩ := hreached.exists_lookup (List.mem_map_of_mem hmem)
  have hmade := Answer.ok_of_mem_mapM hcomponents hmem
  rw [exists_makeComponent_iff, Resolved.properties, hfound, Option.getD_some] at hmade
  rwa [heffective.unique hids (hreached.sound.effective hfound)]

theorem exists_build (h : Buildable declarations settings) :
    ∃ registry, build declarations settings = .ok registry := by
  obtain ⟨resolved, hresolved⟩ := exists_resolveAll hserials h.toHeritable
  have hreached := reaches_of_resolveAll hserials hresolved
  have hmade : ∀ declaration ∈ declarations, ∃ component,
      makeComponent settings declaration (resolved.properties declaration.id) = .ok component := by
    intro declaration hmem
    obtain ⟨found, hfound⟩ := hreached.exists_lookup (List.mem_map_of_mem hmem)
    rw [exists_makeComponent_iff, Resolved.properties, hfound, Option.getD_some]
    exact h.templates declaration hmem found.items (hreached.sound.effective hfound)
  obtain ⟨components, hcomponents⟩ := Answer.exists_mapM_ok hmade
  have hrepeat := firstRepeat?_eq_none_iff.mpr ⟨h.ids, fun _ _ => List.not_mem_nil⟩
  exact ⟨⟨components, settings, nodup_of_makeComponents hrepeat hcomponents,
      settings_of_makeComponents hcomponents⟩,
    build_ok_iff.mpr ⟨h.accepted, h.ids, ⟨resolved, hresolved, hcomponents⟩, rfl⟩⟩

/-- Every component of a registry has the properties that recursion gives. -/
theorem effective_of_build (h : build declarations settings = .ok registry) :
    ∀ component ∈ registry.components,
      Effective declarations component.id component.shared.items := by
  obtain ⟨_, _, ⟨resolved, hresolved, hcomponents⟩, _⟩ := build_ok_iff.mp h
  have hreached := reaches_of_resolveAll hserials hresolved
  intro component hmem
  obtain ⟨declaration, hknown, hmake⟩ := Answer.exists_of_mem_mapM hcomponents hmem
  obtain ⟨found, hfound⟩ := hreached.exists_lookup (List.mem_map_of_mem hknown)
  obtain ⟨hsame, hshared, -⟩ := of_makeComponent_ok hmake
  rw [hshared, hsame, Resolved.properties, hfound]
  exact hreached.sound.effective hfound

/-- What is found under an id is what recursion gives. -/
theorem shared_of_find?_iff (h : build declarations settings = .ok registry) {id : String}
    {properties : PropertyList} :
    (registry.find? id).map Component.shared = some properties ↔
      Effective declarations id properties.items := by
  have hids := (build_ok_iff.mp h).2.1
  constructor
  · intro hfound
    obtain ⟨component, hfind, rfl⟩ := Option.map_eq_some_iff.mp hfound
    obtain ⟨hmem, hid⟩ := find?_eq_some_iff.mp hfind
    exact hid ▸ effective_of_build hserials h component hmem
  · intro heffective
    obtain ⟨declaration, hknown, hid⟩ := heffective.exists_declaration
    rw [← declarations_of_build h] at hknown
    obtain ⟨component, hmem, rfl⟩ := List.mem_map.mp hknown
    have hfound := effective_of_build hserials h component hmem
    rw [hid] at hfound
    rw [find?_eq_some_iff.mpr ⟨hmem, hid⟩, Option.map_some]
    exact congrArg some (PropertyList.ext (hfound.unique hids heffective))

omit hserials in
theorem Buildable.perm (h : Buildable declarations settings) (hperm : declarations.Perm others) :
    Buildable others settings := by
  have hback : ∀ declaration ∈ others, declaration ∈ declarations := fun _ hmem =>
    hperm.mem_iff.mpr hmem
  constructor
  · constructor
    · exact ((hperm.map ComponentDeclaration.id).nodup_iff).mp h.ids
    · intro declaration hmem parent hparent
      obtain ⟨other, hother, hid⟩ := h.parents declaration (hback _ hmem) parent hparent
      exact ⟨other, hperm.mem_iff.mp hother, hid⟩
    · intro id hcycle
      have hmono : Inherits others ≤ Inherits declarations := fun _ _ hnames => hnames.mono hback
      exact h.acyclic id (Relation.TransGen.mono hmono id id hcycle)
    · intro declaration hmem properties hcollects
      exact h.names declaration (hback _ hmem) properties (hcollects.mono hback)
  · exact h.accepted
  · intro declaration hmem properties heffective
    exact h.templates declaration (hback _ hmem) properties (heffective.mono hback)

/-- A registry can be built exactly of declarations with valid settings, different ids, known
parents, no circle of inheritance, names that agree in what every component collects, and
templates that can be made.  Its components then have the properties that recursion gives, each
under a name of its own, and the same ones if the declarations are registered in another order. -/
theorem build_iff_buildable :
    ((∃ registry, build declarations settings = .ok registry) ↔
      Buildable declarations settings) ∧
    ∀ registry, build declarations settings = .ok registry →
      registry.components.map Component.toComponentDeclaration = declarations ∧
      (∀ component ∈ registry.components,
        Effective declarations component.id component.shared.items ∧ component.NamesDiffer ∧
        ∀ name property, component.property? name = some property ↔
          property ∈ component.properties ∧ property.name = name) ∧
      ∀ others, declarations.Perm others → ∃ other, build others settings = .ok other ∧
        ∀ id, (other.find? id).map Component.shared = (registry.find? id).map Component.shared := by
  constructor
  · constructor
    · rintro ⟨registry, h⟩
      exact buildable_of_build hserials h
    · exact exists_build hserials
  · intro registry h
    refine ⟨declarations_of_build h, ?_, ?_⟩
    · intro component hmem
      exact ⟨effective_of_build hserials h component hmem, component.namesDiffer,
        fun name property => component.property?_eq_some_iff⟩
    · intro others hperm
      have hdeclared : (declared declarations).Perm (declared others) := hperm.flatMap_right _
      have hserials' : SerialsIdentify (declared others) :=
        hserials.mono fun _ => hdeclared.mem_iff.mpr
      obtain ⟨other, hother⟩ := exists_build hserials' ((buildable_of_build hserials h).perm hperm)
      refine ⟨other, hother, ?_⟩
      intro id
      apply Option.ext
      intro properties
      rw [shared_of_find?_iff hserials' hother, shared_of_find?_iff hserials h]
      constructor
      · exact Effective.mono fun _ hmem => hperm.mem_iff.mpr hmem
      · exact Effective.mono fun _ hmem => hperm.mem_iff.mp hmem

/-- A component with two parents, which get their one property from the last one. -/
def diamond : List ComponentDeclaration :=
  [{ id := "field", inherits := ["left", "right"], own := [⟨1, { name := "text" }⟩],
     runSource := some "<p>$name$</p>" },
    { id := "left", inherits := ["base"] },
    { id := "right", inherits := ["base"] },
    { id := "base", own := [⟨0, { name := "name" }⟩] }]

omit hserials in
theorem build_iff_buildable_of_diamond :
    SerialsIdentify (declared diamond) ∧ Buildable diamond {} ∧
      ∃ other, build diamond.reverse {} = .ok other := by
  have hserials : SerialsIdentify (declared diamond) := by
    intro first hfirst second hsecond hserial
    simp only [declared, diamond, List.flatMap_cons, List.flatMap_nil, List.append_nil,
      List.nil_append, List.cons_append, List.mem_cons, List.not_mem_nil, or_false]
      at hfirst hsecond
    rcases hfirst with rfl | rfl
    · rcases hsecond with rfl | rfl
      · rfl
      · cases hserial
    · rcases hsecond with rfl | rfl
      · cases hserial
      · rfl
  have hbuild : ∃ registry, build diamond {} = .ok registry := ⟨_, rfl⟩
  obtain ⟨registry, hregistry⟩ := hbuild
  obtain ⟨hiff, hbuilt⟩ := build_iff_buildable hserials
  obtain ⟨other, hother, _⟩ :=
    (hbuilt registry hregistry).2.2 diamond.reverse (List.reverse_perm diamond).symm
  exact ⟨hserials, hiff.mp ⟨registry, hregistry⟩, other, hother⟩

end Registry

end FormDesigner
