import FormDesigner.Proofs.Document.Appearance
import FormDesigner.Proofs.Watch.Looking

/-!
What a watch overlooks.

While a watch finds no change, an element of the standard catalog looks the same on the
canvas, with one exception.  Of a property that can be bound a watch sees the parts of the
binding.  A value that is stored outside of a binding has none of these parts, but it is
shown.
-/

namespace FormDesigner

theorem Value.shape_eq_of_equalsOption {left right : Option Value}
    (h : Value.equalsOption left right = true) : left.map Value.shape = right.map Value.shape := by
  cases left with
  | none =>
      cases right with
      | none => rfl
      | some _ => cases h
  | some value =>
      cases right with
      | none => cases h
      | some other => exact congrArg some (Value.shape_eq_of_equals value other h)

/-- A value that is not `null` is stored outside of a binding. -/
def Node.HoldsBare (node : Node) (name : String) : Prop :=
  ∃ value, Check.present? node name = some value ∧ ∀ kind inner, value ≠ .binding kind inner

/-! ### What it means that no view changed -/

theorem View.shape_eq_of_sameParts {parts : List String} {left right : String → Option Value}
    (h : View.sameParts (parts.map left) (parts.map right) = true) :
    ∀ part ∈ parts, (left part).map Value.shape = (right part).map Value.shape := by
  induction parts with
  | nil =>
      intro part hpart
      cases hpart
  | cons first rest ih =>
      rw [List.map_cons, List.map_cons, View.sameParts, Bool.and_eq_true] at h
      intro part hpart
      rcases List.mem_cons.mp hpart with rfl | hrest
      · exact Value.shape_eq_of_equalsOption h.1
      · exact ih h.2 part hrest

namespace Subject

variable {name : String} {parts : List String} {node other : Node}

theorem shape_eq_of_same (h : ((property name).view (some node)).same
    ((property name).view (some other)) = true) :
    (node.value? name).map Value.shape = (other.value? name).map Value.shape :=
  Value.shape_eq_of_equalsOption h

/-- Nothing is present in both nodes, or values whose watched parts have the same shapes. -/
theorem parts_of_same (h : ((composite name parts).view (some node)).same
    ((composite name parts).view (some other)) = true) :
    Option.Rel (fun value found => ∀ part ∈ parts,
        (value.field? part).map Value.shape = (found.field? part).map Value.shape)
      (Check.present? node name) (Check.present? other name) := by
  have hview : ∀ node : Node, (composite name parts).view (some node) =
      .parts ((Check.present? node name).map fun value =>
        parts.map fun part => value.field? part) := by
    intro node
    rfl
  rw [hview, hview] at h
  cases hnode : Check.present? node name with
  | none =>
      cases hother : Check.present? other name with
      | none => exact .none
      | some found =>
          rw [hnode, hother] at h
          cases h
  | some value =>
      cases hother : Check.present? other name with
      | none =>
          rw [hnode, hother] at h
          cases h
      | some found =>
          rw [hnode, hother] at h
          exact .some (View.shape_eq_of_sameParts h)

end Subject

namespace Watch

/-- All properties of a component that are not artificial are watched. -/
theorem mem_subjectsOf {component : Component} {property : Property}
    (hproperty : property ∈ component.properties) (hshown : property.artificial = false) :
    subjectOf property ∈ subjectsOf component := by
  have hmem : property ∈ component.properties.filter fun property => !property.artificial :=
    List.mem_filter.mpr ⟨hproperty, by rw [hshown]; rfl⟩
  exact List.mem_append_left _ (List.mem_map_of_mem hmem)

theorem check_ofComponent_eq_false_iff {component : Component} {node other : Node} :
    ((ofComponent component node).check other).1 = false ↔
      ∀ subject ∈ subjectsOf component,
        (subject.view (some node)).same (subject.view (some other)) = true := by
  rw [ofComponent, ofSubjects_eq, takeSnapshot_seeing, check_seeing, List.any_eq_false]
  exact forall₂_congr fun subject _ => by simp

end Watch

namespace Property

variable {property : Property} {node other : Node}

theorem held_of_same_value (h : (node.value? property.name).map Value.shape =
    (other.value? property.name).map Value.shape) :
    ((property.held (Fields.get? property.name node.fields)).map Datum.value).map Value.shape =
      ((property.held (Fields.get? property.name other.fields)).map Datum.value).map
        Value.shape := by
  rw [map_value_held, map_value_held]
  cases hnode : node.value? property.name with
  | none =>
      cases hother : other.value? property.name with
      | none => rfl
      | some found =>
          rw [hnode, hother] at h
          cases h
  | some value =>
      cases hother : other.value? property.name with
      | none =>
          rw [hnode, hother] at h
          cases h
      | some found =>
          rw [hnode, hother] at h
          have hshape : value.shape = found.shape := Option.some.inj h
          have hnull : value.isNull = found.isNull := by
            cases value <;> cases found <;> first | rfl | cases hshape
          rw [Option.filter_some, Option.filter_some, hnull]
          cases found.isNull with
          | true => rfl
          | false => exact h

/-- Bindings whose kinds and insides look the same are held alike, as is what is missing. -/
theorem held_of_same_binding (hnode : ¬node.HoldsBare property.name)
    (hother : ¬other.HoldsBare property.name)
    (h : ((Subject.composite property.name ["kind", "value"]).view (some node)).same
      ((Subject.composite property.name ["kind", "value"]).view (some other)) = true) :
    ((property.held (Fields.get? property.name node.fields)).map Datum.value).map Value.shape =
      ((property.held (Fields.get? property.name other.fields)).map Datum.value).map
        Value.shape := by
  rw [map_value_held, map_value_held]
  have hparts := Subject.parts_of_same h
  change ((Check.present? node property.name).or _).map _ =
    ((Check.present? other property.name).or _).map _
  generalize hleft : Check.present? node property.name = left at hparts ⊢
  generalize hright : Check.present? other property.name = right at hparts ⊢
  cases hparts with
  | none => rfl
  | @some value found hsame =>
      have hbound : ∀ {node : Node} {value : Value}, ¬node.HoldsBare property.name →
          Check.present? node property.name = some value →
            ∃ kind inner, value = .binding kind inner := by
        intro node value hbare hpresent
        by_contra hnone
        exact hbare ⟨value, hpresent, fun kind inner hvalue => hnone ⟨kind, inner, hvalue⟩⟩
      obtain ⟨kind, inner, rfl⟩ := hbound hnode hleft
      obtain ⟨kind', content, rfl⟩ := hbound hother hright
      have hkind := hsame "kind" (by decide)
      have hinner := hsame "value" (by decide)
      have hname : kind.name = kind'.name := Shape.string.inj (Option.some.inj hkind)
      have hkinds : kind = kind' := by
        cases kind <;> cases kind' <;> first | rfl | exact absurd hname (by decide)
      have hinside : inner.shape = content.shape := Option.some.inj hinner
      simp only [Option.some_or, Option.map_some, Value.shape, hkinds, hinside]

end Property

/-! ### The style -/

namespace Catalog

open Registry

theorem isGiven_of_shape_eq {left right : Value} (h : left.shape = right.shape) :
    isGiven left = isGiven right := by
  cases left with
  | number x =>
      obtain ⟨y, rfl⟩ := Value.exists_number_of_shape h.symm
      rcases Number.of_place_eq (Shape.number.inj h) with rfl | ⟨hx, hy⟩ | ⟨hx, hy⟩
      · rfl
      · rw [isGiven, isGiven, hx, hy, Bool.not_true, Bool.and_false, Bool.and_false]
      · rw [isGiven, isGiven, hx, hy, Bool.not_true, Bool.false_and, Bool.false_and]
  | bool b =>
      cases right with
      | bool other => rw [Shape.bool.inj h]
      | _ => cases h
  | string text =>
      cases right with
      | string other => rw [Shape.string.inj h]
      | _ => cases h
  | _ =>
      cases right with
      | _ => first | rfl | cases h

/-- A part is taken from what is present, because `null` has no parts. -/
theorem givenPart_eq (node : Node) (name part : String) :
    givenPart node name part =
      ((Check.present? node name).bind (Value.field? part)).filter isGiven := by
  rw [givenPart, Check.present?]
  cases node.value? name with
  | none => rfl
  | some value => cases value <;> rfl

/-- A watched part of the style has the same markup while no change of it is seen. -/
theorem givenPart_of_same {node other : Node} {name : String} {parts : List String}
    (h : ((Subject.composite name parts).view (some node)).same
      ((Subject.composite name parts).view (some other)) = true) {part : String}
    (hpart : part ∈ parts) :
    (givenPart node name part).map Value.markup = (givenPart other name part).map Value.markup := by
  rw [givenPart_eq, givenPart_eq]
  have hparts := Subject.parts_of_same h
  generalize Check.present? node name = left at hparts
  generalize Check.present? other name = right at hparts
  cases hparts with
  | none => rfl
  | @some value found hsame =>
      have hshape := hsame part hpart
      rw [Option.bind_some, Option.bind_some]
      cases hvalue : value.field? part with
      | none =>
          rw [hvalue] at hshape
          rw [Option.map_eq_none_iff.mp hshape.symm]
      | some inner =>
          cases hfound : found.field? part with
          | none =>
              rw [hvalue, hfound] at hshape
              cases hshape
          | some content =>
              rw [hvalue, hfound] at hshape
              have hinner : inner.shape = content.shape := Option.some.inj hshape
              rw [Option.filter_some, Option.filter_some, isGiven_of_shape_eq hinner]
              cases isGiven content with
              | false => rfl
              | true => exact congrArg some (Value.markup_eq_of_shape_eq hinner)

/-! ### The catalog -/

theorem composite_of_bindable : ∀ property ∈ properties, property.bindable = true →
    property.artificial = false ∧ property.composite = some ["kind", "value"] := by
  decide

/-- What is made of other properties is bookkeeping or the style. -/
theorem artificial_cases : ∀ property ∈ properties, property.artificial = true →
    property.isInternal = true ∨ property.name = "style" ∧ property.hook.isSome = true := by
  decide

/-- All parts of the font and of the space that the style is made of are watched. -/
theorem composite_of_stylePart : ∀ property ∈ properties,
    (property.name = "font" → property.artificial = false ∧
      property.composite = some (fontRules.map Prod.fst)) ∧
    (property.name = "box" → property.artificial = false ∧
      property.composite = some (spaceParts.map fun part => part.1 ++ part.2)) := by
  decide

section Built

variable {settings : RenderSettings} {registry : Registry}
  (hbuild : build standard settings = .ok registry) {component : Component}
  (hmem : component ∈ registry.components) {node other : Node}
  (hsame : ((Watch.ofComponent component node).check other).1 = false)

include hbuild hmem hsame

/-- While no change is seen, the watched parts of what the style is made of stay. -/
theorem givenPart_of_unchanged
    (hstyle : ∃ property ∈ component.properties, property.name = "style") {name : String}
    (hname : name = "font" ∨ name = "box") {parts : List String}
    (hparts : ∀ property ∈ properties, property.name = name →
      property.artificial = false ∧ property.composite = some parts) :
    ∀ part ∈ parts,
      (givenPart node name part).map Value.markup =
        (givenPart other name part).map Value.markup := by
  obtain ⟨property, hvisible, rfl, -⟩ := style_parts hbuild hmem hstyle hname
  have hproperty := Component.mem_properties_of_visible hvisible
  obtain ⟨hshown, hcomposite⟩ :=
    hparts property (mem_properties_of_build hbuild hmem hproperty) rfl
  have hview := Watch.check_ofComponent_eq_false_iff.mp hsame _
    (Watch.mem_subjectsOf hproperty hshown)
  rw [Watch.subjectOf, hcomposite] at hview
  exact fun part hpart => givenPart_of_same hview hpart

/-- While no change is seen, the style stays. -/
theorem styleMarkup_of_unchanged
    (hstyle : ∃ property ∈ component.properties, property.name = "style") (value : Value) :
    styleMarkup node value = styleMarkup other value :=
  styleMarkup_congr
    (givenPart_of_unchanged hbuild hmem hsame hstyle (Or.inl rfl)
      fun property hlisted => (composite_of_stylePart property hlisted).1)
    (givenPart_of_unchanged hbuild hmem hsame hstyle (Or.inr rfl)
      fun property hlisted => (composite_of_stylePart property hlisted).2) value

variable (hbare : ∀ property ∈ component.properties, property.bindable = true →
  node.HoldsBare property.name ∨ other.HoldsBare property.name →
    (node.value? property.name).map Value.shape = (other.value? property.name).map Value.shape)

include hbare

/-- While no change is seen and no bare value changes, what can be watched of a property is held
in one shape. -/
theorem held_of_unchanged {property : Property} (hproperty : property ∈ component.properties)
    (hshown : property.artificial = false)
    (hparts : property.composite.isSome = true → property.bindable = true) :
    ((property.held (Fields.get? property.name node.fields)).map Datum.value).map Value.shape =
      ((property.held (Fields.get? property.name other.fields)).map Datum.value).map
        Value.shape := by
  have hview := Watch.check_ofComponent_eq_false_iff.mp hsame _
    (Watch.mem_subjectsOf hproperty hshown)
  cases hcomposite : property.composite with
  | none =>
      rw [Watch.subjectOf, hcomposite] at hview
      exact Property.held_of_same_value (Subject.shape_eq_of_same hview)
  | some parts =>
      have hbindable := hparts (by rw [hcomposite]; rfl)
      by_cases hholds : node.HoldsBare property.name ∨ other.HoldsBare property.name
      · exact Property.held_of_same_value (hbare property hproperty hbindable hholds)
      · obtain ⟨hnode, hother⟩ := not_or.mp hholds
        have hall := (composite_of_bindable property
          (mem_properties_of_build hbuild hmem hproperty) hbindable).2
        rw [Watch.subjectOf, hall] at hview
        exact Property.held_of_same_binding hnode hother hview

theorem exhibit_of_unchanged {property : Property} (hshows : component.Shows .edit property) :
    property.exhibit node = property.exhibit other := by
  obtain ⟨hvisible, hparts, -⟩ := nameable_of_shows hbuild hmem hshows
  have hproperty := Component.mem_properties_of_visible hvisible
  have hlisted := mem_properties_of_build hbuild hmem hproperty
  have hstyle := styleMarkup_of_unchanged hbuild hmem hsame
  cases hartificial : property.artificial with
  | false =>
      rw [Property.exhibit_eq, Property.exhibit_eq]
      apply Property.shownAs_congr
      · exact held_of_unchanged hbuild hmem hsame hbare hproperty hartificial hparts
      · exact fun _ _ hshape => display_congr hbuild hmem hproperty hstyle hshape
  | true =>
      -- What is stored for the style itself is not watched, and is not read either.
      have hinternal : property.isInternal = false := by
        simpa [Component.visibleProperties] using (List.mem_filter.mp hvisible).2
      rcases artificial_cases property hlisted hartificial with hcounter | ⟨hname, hhook⟩
      · rw [hinternal] at hcounter
        cases hcounter
      · obtain ⟨hook, hhook⟩ := Option.isSome_iff_exists.mp hhook
        have hplain : property.bindable = false := by
          by_contra hbindable
          have hshown := (composite_of_bindable property hlisted
            (Bool.not_eq_false _ |>.mp hbindable)).1
          rw [hartificial] at hshown
          cases hshown
        rcases hook_cases hlisted hhook with ⟨hother, -⟩ | ⟨-, rfl⟩
        · rw [hname] at hother
          exact absurd hother (by decide)
        · rw [Property.exhibit_plain hplain, Property.exhibit_plain hplain, Property.render,
            Property.render, Property.display, Property.display, hhook]
          exact congrArg Exhibit.value (hstyle ⟨property, hproperty, hname⟩ _)

/-- While a watch finds no change, the canvas need not be drawn again, unless a value changes
that is stored outside of the binding of its property. -/
theorem render_edit_of_unchanged (children others : String) :
    component.render .edit children node = component.render .edit others other := by
  apply Component.render_congr
  · intro property hshows
    rw [exhibit_of_unchanged hbuild hmem hsame hbare hshows]
  · intro hmode
    cases hmode

end Built

/-- A label with a font that has a part which is not watched. -/
def shadedLabel (shade : String) : Node :=
  ⟨"label", .collect [("font", .record (.collect [("shade", .string shade),
    ("weight", .string "bold")])), ("value", .literal (.string "Name"))], none, none⟩

/-- Another value of a part that is not watched changes nothing on the canvas. -/
theorem render_edit_of_unchanged_of_shade :
    ∃ registry, build standard {} = .ok registry ∧ ∃ component ∈ registry.components,
      component.id = "label" ∧
      ((Watch.ofComponent component (shadedLabel "red")).check (shadedLabel "blue")).1 = false ∧
      (∀ property ∈ component.properties, property.bindable = true →
        (shadedLabel "red").HoldsBare property.name ∨
            (shadedLabel "blue").HoldsBare property.name →
          ((shadedLabel "red").value? property.name).map Value.shape =
            ((shadedLabel "blue").value? property.name).map Value.shape) ∧
      component.render .edit "" (shadedLabel "red") =
        component.render .edit "" (shadedLabel "blue") := by
  obtain ⟨registry, hbuild⟩ : ∃ registry, build standard {} = .ok registry :=
    exists_build_standard rfl
  obtain ⟨component, -, hmem, hid⟩ := exists_find?_of_build hbuild
    (show "label" ∈ standard.map ComponentDeclaration.id by decide +kernel)
  have hproperties := properties_of_build hbuild hmem
  rw [hid] at hproperties
  have hsame :
      ((Watch.ofComponent component (shadedLabel "red")).check (shadedLabel "blue")).1 = false := by
    rw [Watch.ofComponent, Watch.subjectsOf, hproperties]
    decide +kernel
  have hnames : ∀ property ∈ component.properties, property.bindable = true →
      property.name = "value" := by
    rw [hproperties]
    decide +kernel
  have hbare : ∀ property ∈ component.properties, property.bindable = true →
      (shadedLabel "red").HoldsBare property.name ∨ (shadedLabel "blue").HoldsBare property.name →
        ((shadedLabel "red").value? property.name).map Value.shape =
          ((shadedLabel "blue").value? property.name).map Value.shape := by
    intro property hproperty hbindable _
    rw [hnames property hproperty hbindable]
    rfl
  exact ⟨registry, hbuild, component, hmem, hid, hsame, hbare,
    render_edit_of_unchanged hbuild hmem hsame hbare "" ""⟩

/-- A label with a text outside of a binding. -/
def bareLabel (text : String) : Node := ⟨"label", .single "value" (.string text), none, none⟩

/-- A watch overlooks that the text of a label changes which is not in a binding, although the
canvas shows it. -/
theorem not_render_edit_of_unchanged :
    ∃ registry, build standard {} = .ok registry ∧ ∃ component ∈ registry.components,
      component.id = "label" ∧ component.isAbstract = false ∧
      ((Watch.ofComponent component (bareLabel "a")).check (bareLabel "b")).1 = false ∧
      component.render .edit "" (bareLabel "a") ≠ component.render .edit "" (bareLabel "b") := by
  obtain ⟨registry, hbuild⟩ : ∃ registry, build standard {} = .ok registry :=
    exists_build_standard rfl
  obtain ⟨component, -, hmem, hid⟩ := exists_find?_of_build hbuild
    (show "label" ∈ standard.map ComponentDeclaration.id by decide +kernel)
  have hproperties := properties_of_build hbuild hmem
  rw [hid] at hproperties
  refine ⟨registry, hbuild, component, hmem, hid, ?_, ?_, ?_⟩
  · have hconcrete : ∀ declaration ∈ standard, declaration.id = "label" →
        declaration.isAbstract = false := by
      decide +kernel
    exact hconcrete _ (declared_of_build hbuild hmem).1 hid
  · rw [Watch.ofComponent, Watch.subjectsOf, hproperties]
    decide +kernel
  · rw [render_of_build hbuild hmem, render_of_build hbuild hmem, hid]
    decide +kernel

end Catalog

end FormDesigner
