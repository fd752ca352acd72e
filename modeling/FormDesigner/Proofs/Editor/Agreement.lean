import FormDesigner.Proofs.Editor.Defaults

/-!
When two elements count as the same.

Two stored values of a property count as the same if there is no difference between them once
each has the default in the place of what is missing.  This is an equivalence, and all ways to
leave a value out are one in it.  So is not to differ among the elements of a component.
-/

namespace FormDesigner

namespace Property

variable {property : Property}

/-- To count as the same is an equivalence. -/
theorem equivalence_differences (property : Property) (path : String) :
    Equivalence fun left right : Option Datum => property.differences path left right = [] := by
  have hview : (fun left right => property.differences path left right = []) =
      Function.onFun Eq property.view :=
    funext₂ fun left right => propext (property.differences_eq_nil_iff path left right)
  rw [hview]
  exact eq_equivalence.comap _

theorem differences_of_completed {left right : Option Datum}
    (h : property.completed left = property.completed right) (path : String) :
    property.differences path left right = [] := by
  rw [differences_eq_nil_iff, view, view, h]

/-- A binding with nothing inside is completed like one of its kind around the default. -/
theorem completed_hollow (h : property.bindable = true) (kind : BindingKind) :
    property.completed (some (.binding kind .null)) =
      property.completed (some (.binding kind property.defaultInner)) := by
  rcases hinner : property.defaultInner with ⟨inner, hordered⟩
  cases inner with
  | null => rfl
  | _ =>
      rw [completed_binding_null h, hinner]
      rfl

end Property

namespace Editor

variable {registry : Registry} {component : Component} {id : String}

/-- Not to differ is an equivalence among the elements of a component. -/
theorem equivalence_differs (hfind : registry.find? id = some component) :
    Equivalence fun left right : Fields Datum => differs registry id left right = .ok false := by
  have hview : (fun left right : Fields Datum => differs registry id left right = .ok false) =
      Function.onFun Eq (registry.view id) :=
    funext₂ fun left right => propext (differs_eq_false_iff hfind left right)
  rw [hview]
  exact eq_equivalence.comap _

theorem differs_comm (hfind : registry.find? id = some component) (left right : Fields Datum) :
    differs registry id left right = differs registry id right left := by
  obtain ⟨answer, hanswer⟩ := differs_ok hfind left right
  obtain ⟨other, hother⟩ := differs_ok hfind right left
  have hfalse : answer = false ↔ other = false := by
    have hsame := differs_eq_false_iff hfind left right
    have hturned := differs_eq_false_iff hfind right left
    rw [hanswer, Except.ok.injEq] at hsame
    rw [hother, Except.ok.injEq] at hturned
    rw [hsame, hturned, eq_comm]
  rw [hanswer, hother, Except.ok.injEq]
  cases answer <;> cases other <;> simp_all

/-- Elements are compared by what they store under the declared names that are not
bookkeeping. -/
theorem differs_congr (hfind : registry.find? id = some component)
    {left right others more : Fields Datum}
    (hleft : ∀ property ∈ component.properties, property.isInternal = false →
      Fields.get? property.name left = Fields.get? property.name others)
    (hright : ∀ property ∈ component.properties, property.isInternal = false →
      Fields.get? property.name right = Fields.get? property.name more) :
    differs registry id left right = differs registry id others more := by
  rw [differs, differs, differences_ok hfind, differences_ok hfind]
  congr 2
  apply List.flatMap_congr
  intro property hvisible
  obtain ⟨hmem, hinternal⟩ := List.mem_filter.mp hvisible
  rw [Bool.not_eq_true'] at hinternal
  rw [hleft property hmem hinternal, hright property hmem hinternal]

/-- To count as the same is an equivalence among the values of a property, and means to be seen
as the same.  Nothing, `null` and the default are one in it, and so are a binding with `null`
inside and one of its kind around the default.  Not to differ is an equivalence among the elements
of a component, in which only what is stored under declared names that are not bookkeeping
counts. -/
theorem agreement_is_equivalence :
    (∀ (property : Property) (path : String),
      (Equivalence fun left right : Option Datum => property.differences path left right = []) ∧
      (∀ left right,
        property.differences path left right = [] ↔ property.view left = property.view right) ∧
      property.differences path none (some .null) = [] ∧
      property.differences path none property.default? = [] ∧
      property.differences path (some .null) property.default? = [] ∧
      (property.bindable = true → ∃ inner, property.default? = some (.literal inner) ∧
        ∀ kind, property.differences path (some (.binding kind .null))
          (some (.binding kind inner)) = [])) ∧
    ∀ (registry : Registry) (id : String) (component : Component),
      registry.find? id = some component →
      (Equivalence fun left right : Fields Datum =>
        differs registry id left right = .ok false) ∧
      (∀ left right : Fields Datum, differs registry id left right = .ok false ↔
        registry.view id left = registry.view id right) ∧
      (∀ left right : Fields Datum,
        differs registry id left right = differs registry id right left) ∧
      ∀ left right others more : Fields Datum,
        (∀ property ∈ component.properties, property.isInternal = false →
          Fields.get? property.name left = Fields.get? property.name others) →
        (∀ property ∈ component.properties, property.isInternal = false →
          Fields.get? property.name right = Fields.get? property.name more) →
        differs registry id left right = differs registry id others more := by
  constructor
  · intro property path
    have hdefault : property.completed none = property.completed property.default? :=
      property.completed_default.symm
    refine ⟨property.equivalence_differences path, property.differences_eq_nil_iff path, ?_, ?_,
      ?_, ?_⟩
    · exact Property.differences_of_completed rfl path
    · exact Property.differences_of_completed hdefault path
    · exact Property.differences_of_completed hdefault path
    · intro hbindable
      refine ⟨property.defaultInner, Property.default?_of_bindable hbindable, ?_⟩
      intro kind
      exact Property.differences_of_completed (Property.completed_hollow hbindable kind) path
  · intro registry id component hfind
    exact ⟨equivalence_differs hfind, differs_eq_false_iff hfind, differs_comm hfind,
      fun _ _ _ _ => differs_congr hfind⟩

/-- A property that can be bound, with a default. -/
def titleProperty : Property :=
  { name := "title", type := .string, bindable := true, default := some (.string "Untitled") }

/-- An expression with nothing inside agrees with one around the default.  Two elements whose
labels are missing do not differ, whatever bookkeeping and undeclared fields one of them has; two
with unlike labels differ from both sides. -/
theorem agreement_is_equivalence_of_labels :
    titleProperty.differences "title" (some (.binding .expression .null))
        (some (.binding .expression (.string "Untitled"))) = [] ∧
      differs Registry.labels "text"
        (.collect [("$open", .bool true), ("label", .null), ("width", .null)])
        (.single "label" (.string "")) = .ok false ∧
      differs Registry.labels "text" (.single "label" (.string ""))
        (.collect [("$open", .bool true), ("label", .string "Name")]) = .ok true := by
  obtain ⟨hproperty, hregistry⟩ := agreement_is_equivalence
  obtain ⟨-, -, -, -, -, hbindable⟩ := hproperty titleProperty "title"
  obtain ⟨inner, hdefault, hhollow⟩ := hbindable rfl
  obtain rfl : Datum.string "Untitled" = inner :=
    (Datum.binding_inj.mp (Option.some.inj hdefault)).2
  obtain ⟨-, -, hcomm, hcongr⟩ := hregistry Registry.labels "text" _ rfl
  refine ⟨hhollow .expression, ?_, ?_⟩
  · refine (hcongr _ _ (.single "label" .null) (.single "label" (.string "")) ?_
      fun _ _ _ => rfl).trans rfl
    intro property hmem _
    cases List.mem_singleton.mp hmem
    rfl
  · exact (hcomm _ _).trans rfl

end Editor

end FormDesigner
