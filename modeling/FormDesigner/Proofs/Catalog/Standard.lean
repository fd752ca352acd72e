import FormDesigner.Catalog.Standard
import FormDesigner.Proofs.Editor.View
import FormDesigner.Proofs.Registry.Showing
import FormDesigner.Proofs.Text.Ascii

/-!
The standard catalog as a whole.

It makes a registry with all valid settings.  What its properties and templates have in
common is found by evaluation, and then holds in every registry that is built of it.
-/

namespace FormDesigner

namespace Catalog

open Inheritance Registry

/-! ### The properties -/

/-- The properties that the components of the catalog add. -/
def properties : List Property := kinds.flatMap Prod.snd

theorem declared_numbered (first : Nat) (kinds : List Kind) :
    declared (numbered first kinds) =
      ((kinds.flatMap Prod.snd).zipIdx first).map fun entry => ⟨entry.2, entry.1⟩ := by
  induction kinds generalizing first with
  | nil => rfl
  | cons kind rest ih =>
      obtain ⟨declaration, added⟩ := kind
      rw [declared, numbered, List.flatMap_cons, ← declared, ih, List.flatMap_cons,
        List.zipIdx_append, List.map_append]

theorem declared_standard :
    declared standard = properties.zipIdx.map fun entry => ⟨entry.2, entry.1⟩ :=
  declared_numbered 0 kinds

/-- The serial numbers tell the properties of the catalog apart. -/
theorem serialsIdentify_standard : SerialsIdentify (declared standard) := by
  have hserials : (declared standard).map SharedProperty.serial =
      List.range' 0 properties.length := by
    rw [declared_standard, List.map_map]
    exact List.zipIdx_map_snd 0 properties
  have hnodup : ((declared standard).map SharedProperty.serial).Nodup := by
    rw [hserials]
    exact List.nodup_range'
  intro first hfirst second hsecond hserial
  exact List.inj_on_of_nodup_map hnodup hfirst hsecond hserial

theorem mem_properties_of_declared {shared : SharedProperty} (h : shared ∈ declared standard) :
    shared.property ∈ properties := by
  rw [declared_standard, List.mem_map] at h
  obtain ⟨entry, hentry, rfl⟩ := h
  exact List.fst_mem_of_mem_zipIdx hentry

theorem hooks_properties :
    properties.filterMap (fun property => property.hook.map fun hook => (property.name, hook)) =
      [("attributes", attributesMarkup), ("style", styleMarkup)] := rfl

/-- Two properties of the catalog have hooks. -/
theorem hook_cases {property : Property} (h : property ∈ properties)
    {hook : Node → Value → String} (hhook : property.hook = some hook) :
    property.name = "attributes" ∧ hook = attributesMarkup ∨
      property.name = "style" ∧ hook = styleMarkup := by
  have hmem : (property.name, hook) ∈
      properties.filterMap fun property => property.hook.map fun hook => (property.name, hook) :=
    List.mem_filterMap.mpr ⟨property, h, by rw [hhook]; rfl⟩
  rw [hooks_properties, List.mem_cons, List.mem_singleton, Prod.mk.injEq, Prod.mk.injEq] at hmem
  exact hmem

theorem givenPart_congr {node other : Node} {name : String}
    (h : node.value? name = other.value? name) (part : String) :
    givenPart node name part = givenPart other name part := by
  rw [givenPart, givenPart, h]

theorem fontMarkup_eq (node : Node) :
    fontMarkup node = String.join (fontRules.map fun rule =>
      ((givenPart node "font" rule.1).map Value.markup).elim "" fun text =>
        rule.2 ++ ": " ++ text ++ ";") := by
  rw [fontMarkup]
  congr 1
  apply List.map_congr_left
  intro rule _
  cases givenPart node "font" rule.1 <;> rfl

theorem spaceMarkup_eq (node : Node) :
    spaceMarkup node = String.join (spaceParts.map fun part =>
      ((givenPart node "box" (part.1 ++ part.2)).map Value.markup).elim "" fun text =>
        part.1 ++ "-" ++ part.2 ++ ": " ++ text ++ "px;") := by
  rw [spaceMarkup]
  congr 1
  apply List.map_congr_left
  intro part _
  cases givenPart node "box" (part.1 ++ part.2) <;> rfl

/-- The style depends on the markup of the given parts of the font and of the space around the
element. -/
theorem styleMarkup_congr {node other : Node}
    (hfont : ∀ part ∈ fontRules.map Prod.fst,
      (givenPart node "font" part).map Value.markup =
        (givenPart other "font" part).map Value.markup)
    (hbox : ∀ part ∈ spaceParts.map fun part => part.1 ++ part.2,
      (givenPart node "box" part).map Value.markup =
        (givenPart other "box" part).map Value.markup) (value : Value) :
    styleMarkup node value = styleMarkup other value := by
  have hfontMarkup : fontMarkup node = fontMarkup other := by
    rw [fontMarkup_eq, fontMarkup_eq]
    congr 1
    exact List.map_congr_left fun rule hmem => by rw [hfont rule.1 (List.mem_map_of_mem hmem)]
  have hspaceMarkup : spaceMarkup node = spaceMarkup other := by
    rw [spaceMarkup_eq, spaceMarkup_eq]
    congr 1
    exact List.map_congr_left fun part hmem => by
      rw [hbox (part.1 ++ part.2) (List.mem_map.mpr ⟨part, hmem, rfl⟩)]
  rw [styleMarkup, styleMarkup, hfontMarkup, hspaceMarkup]

/-- A property that can be bound has no hook, and is not a part of the style. -/
theorem plain_of_bindable : ∀ property ∈ properties, property.bindable = true →
    property.hook.isNone = true ∧ property.name ≠ "font" ∧ property.name ≠ "box" := by
  decide

/-! ### What components inherit, and what their templates name -/

/-- What every component of the catalog has. -/
def resolved : Resolved := (resolveAll standard).toOption.getD []

theorem resolveAll_standard : resolveAll standard = .ok resolved := by
  have hok : (resolveAll standard).isOk = true := by decide +kernel
  rw [resolved]
  cases h : resolveAll standard with
  | ok found => rfl
  | error failure =>
      rw [h] at hok
      cases hok

/-- A name that a piece of a template may have in a mode: it is that of a property which is not
bookkeeping, and has parts only if it can be bound.  The canvas has no property that can be
bound and is not blank by default. -/
def Nameable (mode : RenderMode) (properties : List Property) (name : String) : Prop :=
  ∃ property ∈ properties, property.name = name ∧ property.isInternal = false ∧
    (property.composite.isSome = true → property.bindable = true) ∧
    (mode = .edit → property.bindable = true → property.defaultInner.value.isBlank = true)

instance (mode : RenderMode) (properties : List Property) :
    DecidablePred (Nameable mode properties) :=
  fun _ => inferInstanceAs (Decidable (∃ _ ∈ properties, _))

/-- The letters of a template split into pieces of which every name is good. -/
def isSpelled (mode : RenderMode) (properties : List Property) (letters : List Char) : Bool :=
  match Token.scanFrom 0 (.text []) letters with
  | .ok tokens => tokens.all fun token =>
      (token.named? mode).all fun named => decide (Nameable mode properties named.1)
  | .error _ => false

theorem scan_of_isAscii {source : String} (h : Ascii.isAscii source = true) :
    Token.scan source = Token.scanFrom 0 (.text []) (Ascii.letters source) := by
  rw [Token.scan, Ascii.letters_eq_toList h]

/-- The template of a source with the given letters. -/
def compileLetters (letters : List Char) (source : String) (mode : RenderMode)
    (properties : List Property) (settings : RenderSettings) : Except TemplateError Template := do
  let tokens ← Token.scanFrom 0 (.text []) letters
  let parts ← tokens.mapM (Fragment.ofToken mode properties settings)
  return ⟨source, mode, settings, (parts.filterMap id).foldr Fragment.join []⟩

theorem compile_of_isAscii {source : String} (h : Ascii.isAscii source = true) (mode : RenderMode)
    (properties : List Property) (settings : RenderSettings) :
    Template.compile source mode properties settings =
      compileLetters (Ascii.letters source) source mode properties settings := by
  rw [Template.compile, scan_of_isAscii h]
  rfl

/-- The markup of a node for the component of an id, from the letters of its source. -/
def markupOf (settings : RenderSettings) (id : String) (mode : RenderMode) (children : String)
    (node : Node) : String :=
  let declaration? := standard.find? fun declaration => declaration.id = id
  let source? := declaration?.bind fun declaration => declaration.source? mode
  let template? := source?.bind fun source =>
    (compileLetters (Ascii.letters source) source mode
      (resolved.properties id).properties settings).toOption
  match template? with
  | some template => template.render children node
  | none => ""

theorem isSpelled_sources : ∀ declaration ∈ standard, ∀ mode ∈ [RenderMode.edit, .run],
    (declaration.source? mode).all (fun source => Ascii.isAscii source &&
      isSpelled mode (resolved.properties declaration.id).properties
        (Ascii.letters source)) = true := by
  decide +kernel

theorem spelled_of_source? {declaration : ComponentDeclaration} (h : declaration ∈ standard)
    {mode : RenderMode} {source : String} (hsource : declaration.source? mode = some source) :
    Ascii.isAscii source = true ∧
      isSpelled mode (resolved.properties declaration.id).properties
        (Ascii.letters source) = true := by
  have hmode : mode ∈ [RenderMode.edit, .run] := by cases mode <;> simp
  have hspelled := isSpelled_sources declaration h mode hmode
  rwa [hsource, Option.all_some, Bool.and_eq_true] at hspelled

/-- Every source in the catalog splits into pieces, and these name what the component has. -/
theorem scan_of_source? {declaration : ComponentDeclaration} (h : declaration ∈ standard)
    {mode : RenderMode} {source : String} (hsource : declaration.source? mode = some source) :
    ∃ tokens, Token.scan source = .ok tokens ∧
      ∀ token ∈ tokens, ∀ name position, token.named? mode = some (name, position) →
        Nameable mode (resolved.properties declaration.id).properties name := by
  obtain ⟨hascii, hspelled⟩ := spelled_of_source? h hsource
  rw [isSpelled, ← scan_of_isAscii hascii] at hspelled
  cases hscan : Token.scan source with
  | error failure =>
      rw [hscan] at hspelled
      cases hspelled
  | ok tokens =>
      rw [hscan] at hspelled
      refine ⟨tokens, rfl, ?_⟩
      intro token htoken name position hnamed
      have hgood := List.all_eq_true.mp hspelled token htoken
      rw [hnamed, Option.all_some, decide_eq_true_eq] at hgood
      exact hgood

theorem nodup_ids : (standard.map ComponentDeclaration.id).Nodup := by
  decide +kernel

/-- The catalog makes a registry with all valid settings. -/
theorem exists_build_standard {settings : RenderSettings} (h : settings.rejections = []) :
    ∃ registry, build standard settings = .ok registry := by
  have hmade : ∀ declaration ∈ standard, ∃ component,
      makeComponent settings declaration (resolved.properties declaration.id) = .ok component := by
    intro declaration hmem
    rw [exists_makeComponent_iff]
    have hcompiles : ∀ mode source, declaration.source? mode = some source →
        ∃ template, Template.compile source mode
          (resolved.properties declaration.id).properties settings =
            .ok template := by
      intro mode source hsource
      obtain ⟨tokens, hscan, hnamed⟩ := scan_of_source? hmem hsource
      obtain ⟨parts, hparts⟩ := Answer.exists_mapM_ok fun token htoken =>
        Template.ofToken_ok_of_resolved settings fun name position hname => by
          obtain ⟨property, hproperty, hsame, -⟩ := hnamed token htoken name position hname
          exact ⟨property, hproperty, hsame⟩
      exact ⟨_, Template.compile_ok hscan hparts⟩
    intro edit run hsources
    constructor
    · exact hcompiles .edit edit (by rw [ComponentDeclaration.source?, hsources]; rfl)
    · exact hcompiles .run run (by rw [ComponentDeclaration.source?, hsources]; rfl)
  obtain ⟨components, hcomponents⟩ := Answer.exists_mapM_ok hmade
  have hrepeat := firstRepeat?_eq_none_iff.mpr ⟨nodup_ids, fun _ _ => List.not_mem_nil⟩
  exact ⟨⟨components, settings, nodup_of_makeComponents hrepeat hcomponents,
      settings_of_makeComponents hcomponents⟩,
    build_ok_iff.mpr ⟨h, nodup_ids, ⟨resolved, resolveAll_standard, hcomponents⟩, rfl⟩⟩

/-- What the style is made of is no bookkeeping, cannot be bound, and is an empty record by
default. -/
def isStylePart (property : Property) : Bool :=
  !property.bindable && !property.isInternal &&
    match property.default?.map Datum.value with
    | some (.record []) => true
    | _ => false

theorem isStylePart_resolved : ∀ entry ∈ resolved,
    (∃ shared ∈ entry.2.items, shared.property.name = "style") → ∀ part ∈ ["font", "box"],
      ∃ shared ∈ entry.2.items,
        shared.property.name = part ∧ isStylePart shared.property = true := by
  decide +kernel

/-! ### Registries of the catalog -/

section Built

variable {settings : RenderSettings} {registry : Registry}
  (h : build standard settings = .ok registry)

include h

theorem declared_of_build {component : Component} (hmem : component ∈ registry.components) :
    component.toComponentDeclaration ∈ standard ∧
      component.shared = resolved.properties component.id := by
  obtain ⟨-, -, ⟨found, hfound, hcomponents⟩, -⟩ := build_ok_iff.mp h
  cases resolveAll_standard.symm.trans hfound
  obtain ⟨declaration, hknown, hmake⟩ := Answer.exists_of_mem_mapM hcomponents hmem
  obtain ⟨hsame, hshared, -⟩ := of_makeComponent_ok hmake
  exact ⟨hsame ▸ hknown, by rw [hshared, ← hsame]⟩

theorem properties_of_build {component : Component} (hmem : component ∈ registry.components) :
    component.properties = (resolved.properties component.id).properties := by
  rw [Component.properties, (declared_of_build h hmem).2]

/-- The components of the catalog are found under their ids. -/
theorem exists_find?_of_build {id : String} (hid : id ∈ standard.map ComponentDeclaration.id) :
    ∃ component, registry.find? id = some component ∧ component ∈ registry.components ∧
      component.id = id := by
  rw [← declarations_of_build h, List.map_map, List.mem_map] at hid
  obtain ⟨listed, hlisted, hname⟩ := hid
  exact ⟨listed, find?_eq_some_iff.mpr ⟨hlisted, hname⟩, hlisted, hname⟩

/-- The properties of a component of the catalog accept a value. -/
theorem accepts_of_build {id name : String} {datum : Datum}
    (hid : id ∈ standard.map ComponentDeclaration.id)
    (hdatum : ∃ property ∈ (resolved.properties id).properties,
      property.name = name ∧ property.accepts datum.value = true) :
    registry.Accepts ⟨id, .single name datum, none, none⟩ := by
  obtain ⟨component, hfind, hmem, hsame⟩ := exists_find?_of_build h hid
  refine ⟨component, hfind, ?_⟩
  rw [properties_of_build h hmem, hsame]
  exact List.forall_mem_singleton.mpr hdatum

/-- The markup of a component of the catalog, from the letters of its source. -/
theorem render_of_build {component : Component} (hmem : component ∈ registry.components)
    (mode : RenderMode) (children : String) (node : Node) :
    component.render mode children node =
      markupOf settings component.id mode children node := by
  have hknown := (declared_of_build h hmem).1
  have hfind : standard.find? (fun declaration => declaration.id = component.id) =
      some component.toComponentDeclaration :=
    (find?_key_eq_some_iff nodup_ids).mpr ⟨hknown, rfl⟩
  have hsettings : component.settings = settings :=
    (registry.settings_eq component hmem).trans (build_ok_iff.mp h).2.2.2
  have htemplate : component.template? mode =
      (component.source? mode).bind fun source =>
        (compileLetters (Ascii.letters source) source mode component.properties
          settings).toOption := by
    ext template
    rw [Component.template?_eq_some_iff, hsettings, Option.bind_eq_some_iff]
    refine exists_congr fun source => and_congr_right fun hsource => ?_
    rw [← compile_of_isAscii (spelled_of_source? hknown hsource).1]
    cases Template.compile source mode component.properties settings with
    | error failure => simp [Except.toOption]
    | ok found => simp [Except.toOption]
  rw [Component.render, htemplate, markupOf, hfind, properties_of_build h hmem]
  rfl

theorem mem_properties_of_build {component : Component} (hmem : component ∈ registry.components)
    {property : Property} (hproperty : property ∈ component.properties) :
    property ∈ properties := by
  obtain ⟨shared, hshared, rfl⟩ := List.mem_map.mp hproperty
  have heffective := effective_of_build serialsIdentify_standard h component hmem
  exact mem_properties_of_declared (heffective.declared_mem shared hshared)

theorem hooksReadFields_of_build : registry.HooksReadFields := by
  intro component hmem property hproperty hook hhook node other value _ hfields
  rcases hook_cases (mem_properties_of_build h hmem hproperty) hhook with ⟨-, rfl⟩ | ⟨-, rfl⟩
  · rfl
  · have hvalues : ∀ name, node.value? name = other.value? name := fun name => by
      rw [Node.value?, Node.value?, hfields]
    exact styleMarkup_congr (fun part _ => by rw [givenPart_congr (hvalues "font")])
      (fun part _ => by rw [givenPart_congr (hvalues "box")]) value

theorem hooksReadPlain_of_build : registry.HooksReadPlain := by
  intro component hmem property hproperty hook hhook node other value _ hplain
  have hnotBound : ∀ name, name = "font" ∨ name = "box" → ¬component.Binds name := by
    rintro name hname ⟨bound, hbound, hbindable, rfl⟩
    obtain ⟨-, hfont, hbox⟩ :=
      plain_of_bindable bound (mem_properties_of_build h hmem hbound) hbindable
    rcases hname with hname | hname
    · exact hfont hname
    · exact hbox hname
  rcases hook_cases (mem_properties_of_build h hmem hproperty) hhook with ⟨-, rfl⟩ | ⟨-, rfl⟩
  · rfl
  · exact styleMarkup_congr
      (fun part _ => by rw [givenPart_congr (hplain "font" (hnotBound "font" (Or.inl rfl)))])
      (fun part _ => by rw [givenPart_congr (hplain "box" (hnotBound "box" (Or.inr rfl)))]) value

/-- What a template of the catalog shows is no bookkeeping, and has parts only if it can be
bound.  What the canvas shows is blank by default if it can be bound. -/
theorem nameable_of_shows {component : Component} (hmem : component ∈ registry.components)
    {mode : RenderMode} {property : Property} (hshows : component.Shows mode property) :
    property ∈ component.visibleProperties ∧
      (property.composite.isSome = true → property.bindable = true) ∧
      (mode = .edit → property.bindable = true → property.defaultInner.value.isBlank = true) := by
  obtain ⟨hproperty, source, tokens, hsource, hscan, token, htoken, position, hnamed⟩ :=
    Component.named_of_shows hshows
  obtain ⟨hknown, hshared⟩ := declared_of_build h hmem
  obtain ⟨others, hothers, hgood⟩ := scan_of_source? hknown hsource
  cases hscan.symm.trans hothers
  obtain ⟨found, hfound, hname, hinternal, hgood⟩ :=
    hgood token htoken property.name position hnamed
  rw [← hshared] at hfound
  cases component.eq_of_name_eq hfound hproperty hname
  exact ⟨List.mem_filter.mpr ⟨hproperty, by rw [hinternal]; rfl⟩, hgood⟩

/-- A component with a style has all parts of it. -/
theorem style_parts {component : Component} (hmem : component ∈ registry.components)
    (hstyle : ∃ property ∈ component.properties, property.name = "style") {part : String}
    (hpart : part = "font" ∨ part = "box") :
    ∃ property ∈ component.visibleProperties, property.name = part ∧
      property.bindable = false ∧ property.default? = some (.record .empty) := by
  obtain ⟨-, hshared⟩ := declared_of_build h hmem
  obtain ⟨property, hproperty, hname⟩ := hstyle
  obtain ⟨shared, hfound, rfl⟩ := List.mem_map.mp hproperty
  rw [hshared, Resolved.properties] at hfound
  cases hlookup : resolved.lookup component.id with
  | none =>
      rw [hlookup] at hfound
      cases hfound
  | some found =>
      rw [hlookup] at hfound
      obtain ⟨before, after, hsplit, -⟩ := List.lookup_eq_some_iff.mp hlookup
      have hentry : (component.id, found) ∈ resolved := by
        rw [hsplit]
        simp
      have hpart : part ∈ ["font", "box"] := by simpa using hpart
      obtain ⟨other, hother, hsame, hchecked⟩ :=
        isStylePart_resolved _ hentry ⟨shared, hfound, hname⟩ part hpart
      rw [isStylePart, Bool.and_eq_true, Bool.and_eq_true, Bool.not_eq_true', Bool.not_eq_true']
        at hchecked
      obtain ⟨⟨hbindable, hinternal⟩, hdefault⟩ := hchecked
      have hlisted : other ∈ component.shared.items := by
        rw [hshared, Resolved.properties, hlookup]
        exact hother
      refine ⟨other.property, ?_, hsame, hbindable, ?_⟩
      · exact List.mem_filter.mpr ⟨List.mem_map_of_mem hlisted, by rw [hinternal]; rfl⟩
      · split at hdefault
        · next hempty =>
            obtain ⟨datum, hsome, hvalue⟩ := Option.map_eq_some_iff.mp hempty
            rw [hsome, Datum.ext (y := .record .empty) hvalue]
        · cases hdefault

end Built

end Catalog

end FormDesigner
