import FormDesigner.Proofs.Template.Rendering

/-!
What of a node its markup depends on.

A part of a template shows one property or nothing of the node.  The canvas knows of an
expression only that it is one.
-/

namespace FormDesigner

namespace Exhibit

variable {mode : RenderMode} {settings : RenderSettings} {first second : Exhibit}

/-- What can be seen in a mode: on the canvas no text of an expression. -/
def seen : RenderMode → Exhibit → Exhibit
  | .edit, .expression _ => .expression ""
  | _, exhibit => exhibit

theorem asContent_seen (braced : Bool) (exhibit : Exhibit) :
    (exhibit.seen mode).asContent mode settings braced =
      exhibit.asContent mode settings braced := by
  cases mode <;> cases exhibit <;> rfl

theorem isLive_seen (exhibit : Exhibit) :
    (exhibit.seen mode).isLive mode = exhibit.isLive mode := by
  cases mode <;> cases exhibit <;> rfl

theorem asContent_congr (h : first.seen mode = second.seen mode) (braced : Bool) :
    first.asContent mode settings braced = second.asContent mode settings braced := by
  rw [← asContent_seen braced first, h, asContent_seen]

theorem asAttribute_congr (h : first.seen mode = second.seen mode) (name : String)
    (optional braced : Bool) :
    first.asAttribute mode settings name optional braced =
      second.asAttribute mode settings name optional braced := by
  have hlive : first.isLive mode = second.isLive mode := by
    rw [← isLive_seen first, h, isLive_seen]
  rw [asAttribute, asAttribute, asContent_congr h, hlive]

end Exhibit

namespace Property

variable {property : Property} {node other : Node}

/-- What is shown for a property depends on what is stored for it, and on what its hook
reads of the node. -/
theorem exhibit_congr (hvalue : node.value? property.name = other.value? property.name)
    (hhook : ∀ hook, property.hook = some hook → ∀ value, hook node value = hook other value) :
    property.exhibit node = property.exhibit other := by
  have hdisplay : property.display node = property.display other := by
    funext value
    cases hfound : property.hook with
    | none => simp only [display, hfound]
    | some hook => simp only [display, hfound, hhook hook hfound]
  simp only [exhibit, hvalue, hdisplay]

/-- A stored expression is shown as an expression. -/
theorem exhibit_expression {inner : Value} (hbindable : property.bindable = true)
    (hvalue : node.value? property.name = some (.binding .expression inner)) :
    property.exhibit node = .expression inner.markup := by
  rw [exhibit, hbindable, hvalue]
  rfl

end Property

namespace Fragment

variable {mode : RenderMode} {properties : List Property} {settings : RenderSettings}

/-- The property that a part shows. -/
def property? : Fragment → Option Property
  | .content property _ => some property
  | .attr _ property _ _ => some property
  | .literal _ => none
  | .children => none

/-- A part made for a looked up property shows it, and the property is listed. -/
theorem of_map_require_ok {name : String} {position : Nat} {make : Property → Fragment}
    {part : Fragment} (hmake : ∀ property, (make property).property? = some property)
    (h : (require properties name position).map (fun property => some (make property)) =
      .ok (some part)) :
    ∃ property ∈ properties, property.name = name ∧ part.property? = some property := by
  cases hfind : findProperty? properties name with
  | none =>
      simp only [require, hfind] at h
      cases h
  | some property =>
      simp only [require, hfind] at h
      cases h
      exact ⟨property, List.mem_reverse.mp (List.mem_of_find?_eq_some hfind),
        by simpa using List.find?_some hfind, hmake property⟩

/-- What a piece can become: a text, the children in the running form, or a part that shows
the listed property that the piece names. -/
theorem of_ofToken_ok {token : Token} {part : Fragment}
    (h : ofToken mode properties settings token = .ok (some part)) :
    (∃ text, part = .literal text) ∨ (part = .children ∧ mode = .run) ∨
      ∃ property ∈ properties, part.property? = some property ∧
        ∃ position, token.named? mode = some (property.name, position) := by
  cases token with
  | text words =>
      cases h
      exact Or.inl ⟨words, rfl⟩
  | directive found =>
      by_cases happlies : found.appliesTo mode = true
      · have hmode := (found.appliesTo_iff mode).mp happlies
        simp only [ofToken, happlies, if_true] at h
        simp only [Token.named?, if_pos hmode]
        cases hkind : found.kind with
        | literal words =>
            simp only [hkind] at h
            cases h
            exact Or.inl ⟨words, rfl⟩
        | children =>
            simp only [hkind] at h
            cases mode with
            | edit =>
                cases h
                exact Or.inl ⟨_, rfl⟩
            | run =>
                cases h
                exact Or.inr (Or.inl ⟨rfl, rfl⟩)
        | reference name optional braced =>
            simp only [hkind] at h
            obtain ⟨property, hmem, rfl, hshows⟩ := of_map_require_ok (fun _ => rfl) h
            exact Or.inr (Or.inr ⟨property, hmem, hshows, found.position, rfl⟩)
        | assignment target name optional braced =>
            simp only [hkind] at h
            obtain ⟨property, hmem, rfl, hshows⟩ := of_map_require_ok (fun _ => rfl) h
            exact Or.inr (Or.inr ⟨property, hmem, hshows, found.position, rfl⟩)
      · simp only [ofToken, happlies, Bool.false_eq_true, if_false] at h
        cases h

/-- Joining makes texts only. -/
theorem mem_of_mem_foldr_join {parts : List Fragment} {part : Fragment}
    (h : part ∈ parts.foldr join []) (hpart : ∀ text, part ≠ .literal text) : part ∈ parts := by
  induction parts with
  | nil => exact h
  | cons first rest ih =>
      rw [List.foldr_cons] at h
      have hrest : part ∈ rest.foldr join [] → part ∈ first :: rest :=
        fun hmem => List.mem_cons_of_mem first (ih hmem)
      rcases join_cases first (rest.foldr join []) with
        ⟨-, hjoin⟩ | ⟨text, next, others, -, -, hothers, hjoin⟩ | ⟨-, -, hjoin⟩
      · rw [hjoin] at h
        exact hrest h
      · rw [hjoin] at h
        rcases List.mem_cons.mp h with heq | hmem
        · exact absurd heq (hpart _)
        · apply hrest
          rw [hothers]
          exact List.mem_cons_of_mem _ hmem
      · rw [hjoin] at h
        rcases List.mem_cons.mp h with rfl | hmem
        · exact List.mem_cons_self
        · exact hrest hmem

end Fragment

namespace Template

variable {source : String} {mode : RenderMode} {properties : List Property}
  {settings : RenderSettings} {template : Template} {children children' : String}
  {node node' : Node}

/-- The template has a part that shows the property. -/
def Shows (template : Template) (property : Property) : Prop :=
  ∃ part ∈ template.fragments, part.property? = some property

/-- A part of a template that was made is a text, the children in the running form, or
shows a listed property that a piece of the source names. -/
theorem of_mem_fragments (h : compile source mode properties settings = .ok template)
    {part : Fragment} (hpart : part ∈ template.fragments) :
    (∃ text, part = .literal text) ∨ (part = .children ∧ mode = .run) ∨
      ∃ property ∈ properties, part.property? = some property ∧
        ∃ tokens, Token.scan source = .ok tokens ∧
          ∃ token ∈ tokens, ∃ position, token.named? mode = some (property.name, position) := by
  obtain ⟨tokens, parts, hscan, hparts, rfl⟩ := of_compile_ok h
  by_cases htext : ∃ text, part = .literal text
  · exact Or.inl htext
  · have hmem := Fragment.mem_of_mem_foldr_join hpart fun text heq => htext ⟨text, heq⟩
    obtain ⟨found, hfound, heq⟩ := List.mem_filterMap.mp hmem
    cases heq
    obtain ⟨token, htoken, hmade⟩ := Answer.exists_of_mem_mapM hparts hfound
    rcases Fragment.of_ofToken_ok hmade with hliteral | hchildren | hproperty
    · exact absurd hliteral htext
    · exact Or.inr (Or.inl hchildren)
    · obtain ⟨property, hlisted, hshows, hnamed⟩ := hproperty
      exact Or.inr (Or.inr ⟨property, hlisted, hshows, tokens, hscan, token, htoken, hnamed⟩)

theorem mode_of_compile (h : compile source mode properties settings = .ok template) :
    template.mode = mode := by
  obtain ⟨tokens, parts, -, -, rfl⟩ := of_compile_ok h
  rfl

theorem source_of_compile (h : compile source mode properties settings = .ok template) :
    template.source = source := by
  obtain ⟨tokens, parts, -, -, rfl⟩ := of_compile_ok h
  rfl

/-- What a template shows is listed, and named by a piece of its source. -/
theorem Shows.exists_named (h : compile source mode properties settings = .ok template)
    {property : Property} (hshows : template.Shows property) :
    property ∈ properties ∧ ∃ tokens, Token.scan source = .ok tokens ∧
      ∃ token ∈ tokens, ∃ position, token.named? mode = some (property.name, position) := by
  obtain ⟨part, hmem, hproperty⟩ := hshows
  rcases of_mem_fragments h hmem with ⟨text, rfl⟩ | ⟨rfl, -⟩ | hnamed
  · cases hproperty
  · cases hproperty
  · obtain ⟨found, hlisted, hfound, hnamed⟩ := hnamed
    cases hproperty.symm.trans hfound
    exact ⟨hlisted, hnamed⟩

/-- What a part shows depends on what one sees of its property. -/
theorem renderFragment_congr (part : Fragment)
    (hseen : ∀ property, part.property? = some property →
      (property.exhibit node).seen mode = (property.exhibit node').seen mode)
    (hchildren : part = .children → children = children') :
    renderFragment mode settings children node part =
      renderFragment mode settings children' node' part := by
  cases part with
  | literal text => rfl
  | children => exact hchildren rfl
  | content property braced =>
      simp only [renderFragment, Property.contentText_eq]
      exact Exhibit.asContent_congr (hseen property rfl) braced
  | attr name property optional braced =>
      simp only [renderFragment, Property.assignmentText_eq]
      exact Exhibit.asAttribute_congr (hseen property rfl) name optional braced

/-- Markup depends on what one sees in the properties that the template shows, and in the
running form on the markup of the children. -/
theorem render_congr (h : compile source mode properties settings = .ok template)
    (hseen : ∀ property, template.Shows property →
      (property.exhibit node).seen mode = (property.exhibit node').seen mode)
    (hchildren : mode = .run → children = children') :
    template.render children node = template.render children' node' := by
  rw [render, render]
  congr 1
  apply List.map_congr_left
  intro part hpart
  apply renderFragment_congr part
  · intro property hproperty
    rw [mode_of_compile h]
    exact hseen property ⟨part, hpart, hproperty⟩
  · rintro rfl
    rcases of_mem_fragments h hpart with ⟨text, heq⟩ | ⟨-, hmode⟩ | ⟨property, -, heq, -⟩
    · cases heq
    · exact hchildren hmode
    · cases heq

end Template

end FormDesigner
