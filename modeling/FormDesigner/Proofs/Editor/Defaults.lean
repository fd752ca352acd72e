import FormDesigner.Proofs.Editor.View
import FormDesigner.Proofs.Registry.Names

/-!
Defaults that are removed and put back.

Where nothing is stored, the comparison sees the default.  To remove a value that
counts as the default, or to store the default where it is missing, is therefore
not seen.
-/

namespace FormDesigner

namespace Property

variable {property : Property}

/-- The default of a property is complete. -/
theorem completed_default (property : Property) :
    property.completed property.default? = property.default? := by
  cases hdefault : property.default? with
  | none => exact hdefault
  | some datum =>
      obtain ⟨value, hordered⟩ := datum
      cases value with
      | null => exact hdefault
      | binding kind inner =>
          cases inner with
          | null =>
              cases hbindable : property.bindable with
              | false =>
                  rw [completed, hbindable]
                  rfl
              | true =>
                  rw [completed, if_pos hbindable, defaultInner, hdefault]
                  rfl
          | _ => rfl
      | _ => rfl

theorem view_default (property : Property) :
    property.view property.default? = property.view none := by
  rw [view, completed_default]
  rfl

theorem view_null (property : Property) : property.view (some .null) = property.view none := rfl

/-- A property that can be bound holds a literal by default. -/
theorem default?_of_bindable (h : property.bindable = true) :
    property.default? = some (.literal property.defaultInner) := by
  have hdefault : ∃ inner, property.default? = some (.literal inner) := by
    simp only [default?, h, if_true]
    exact ⟨_, rfl⟩
  obtain ⟨inner, hinner⟩ := hdefault
  rw [defaultInner, hinner]
  rfl

/-- What agrees with the default is seen as nothing is, and nothing else is. -/
theorem agrees_default_iff (property : Property) (datum : Datum) :
    property.agrees (some datum) property.default? = true ↔
      property.view (some datum) = property.view none := by
  rw [agrees, List.isEmpty_iff, differences_eq_nil_iff, view_default]

end Property

namespace Component

variable {component : Component} {property : Property}

theorem get?_fillDefault_of_ne {name : String} (h : name ≠ property.name) (fields : Fields Datum) :
    Fields.get? name (fillDefault fields property) = Fields.get? name fields := by
  rw [fillDefault]
  split
  · exact Fields.get?_put_of_ne h _ fields
  · exact Fields.get?_put_of_ne h _ fields
  · rfl

theorem get?_stripDefault_of_ne {name : String} (h : name ≠ property.name) (fields : Fields Datum) :
    Fields.get? name (stripDefault fields property) = Fields.get? name fields := by
  rw [stripDefault]
  split
  · rfl
  · split
    · exact Fields.get?_drop_of_ne h fields
    · rfl

theorem view_get?_fillDefault (property : Property) (fields : Fields Datum) :
    property.view (Fields.get? property.name (fillDefault fields property)) =
      property.view (Fields.get? property.name fields) := by
  rw [fillDefault]
  split
  · next datum hnone hdefault =>
      rw [Fields.get?_put_self, hnone, ← hdefault, Property.view_default]
  · next _ datum hnull hdefault =>
      rw [Fields.get?_put_self, hnull, ← hdefault, Property.view_default, ← Property.view_null]
      rfl
  · rfl

theorem view_get?_stripDefault (property : Property) (fields : Fields Datum) :
    property.view (Fields.get? property.name (stripDefault fields property)) =
      property.view (Fields.get? property.name fields) := by
  rw [stripDefault]
  split
  · rfl
  · next datum hdatum =>
      split
      · next hagrees =>
          rw [Fields.get?_drop_self, hdatum, (property.agrees_default_iff datum).mp hagrees]
      · rfl

/-- A change under the name of one property that this property does not see is not
seen at all. -/
theorem view_of_one (hmem : property ∈ component.properties)
    {left right : Fields Datum}
    (hself : property.view (Fields.get? property.name left) =
      property.view (Fields.get? property.name right))
    (hothers : ∀ name, name ≠ property.name → Fields.get? name left = Fields.get? name right) :
    component.view left = component.view right := by
  refine view_eq_iff.2 fun other hvisible => ?_
  by_cases hname : other.name = property.name
  · rw [eq_of_name_eq (mem_properties_of_visible hvisible) hmem hname, hself]
  · rw [hothers other.name hname]

/-- What no single step lets be seen is not seen after all of them. -/
theorem view_foldl {step : Fields Datum → Property → Fields Datum}
    (hstep : ∀ property ∈ component.properties, ∀ fields,
      component.view (step fields property) = component.view fields) (fields : Fields Datum) :
    component.view (component.properties.foldl step fields) = component.view fields :=
  List.foldlRecOn (motive := fun reached => component.view reached = component.view fields)
    component.properties step rfl
    fun reached hreached property hmem => (hstep property hmem reached).trans hreached

/-- Storing missing defaults is not seen. -/
theorem view_addDefaults (component : Component) (fields : Fields Datum) :
    component.view (component.addDefaults fields) = component.view fields :=
  view_foldl (fun property hmem reached =>
    view_of_one hmem (view_get?_fillDefault property reached)
      fun _ hname => get?_fillDefault_of_ne hname reached) fields

/-- Removing what counts as the default is not seen. -/
theorem view_deleteDefaults (component : Component) (fields : Fields Datum) :
    component.view (component.deleteDefaults fields) = component.view fields :=
  view_foldl (fun property hmem reached =>
    view_of_one hmem (view_get?_stripDefault property reached)
      fun _ hname => get?_stripDefault_of_ne hname reached) fields

/-- A default is stored only where nothing or `null` is. -/
theorem get?_fillDefault_of_stored {name : String} {fields : Fields Datum} {datum : Datum}
    (h : Fields.get? name fields = some datum) (hnull : datum ≠ .null) (property : Property) :
    Fields.get? name (fillDefault fields property) = some datum := by
  by_cases hname : name = property.name
  · subst hname
    rw [fillDefault, h]
    split
    · next hnone _ => cases hnone
    · next hstored _ =>
        cases hstored
        exact absurd rfl hnull
    · exact h
  · rw [get?_fillDefault_of_ne hname, h]

theorem get?_addDefaults_of_stored (component : Component) {name : String} {fields : Fields Datum}
    {datum : Datum} (h : Fields.get? name fields = some datum) (hnull : datum ≠ .null) :
    Fields.get? name (component.addDefaults fields) = some datum := by
  rw [addDefaults]
  induction component.properties generalizing fields with
  | nil => exact h
  | cons property rest ih => exact ih (get?_fillDefault_of_stored h hnull property)

/-- Every property that has a default has a value. -/
def Complete (component : Component) (fields : Fields Datum) : Prop :=
  ∀ property ∈ component.properties, property.default?.isSome = true →
    Fields.has property.name fields = true

theorem has_fillDefault {name : String} {fields : Fields Datum}
    (h : Fields.has name fields = true) (property : Property) :
    Fields.has name (fillDefault fields property) = true := by
  by_cases hname : name = property.name
  · subst hname
    rw [fillDefault]
    split
    · rw [Fields.has, Fields.get?_put_self]
      rfl
    · rw [Fields.has, Fields.get?_put_self]
      rfl
    · exact h
  · rw [Fields.has, get?_fillDefault_of_ne hname]
    exact h

theorem has_foldl_fillDefault {name : String} {fields : Fields Datum}
    (h : Fields.has name fields = true) (properties : List Property) :
    Fields.has name (properties.foldl fillDefault fields) = true := by
  induction properties generalizing fields with
  | nil => exact h
  | cons property rest ih => exact ih (has_fillDefault h property)

theorem has_fillDefault_self (property : Property) (hdefault : property.default?.isSome = true)
    (fields : Fields Datum) : Fields.has property.name (fillDefault fields property) = true := by
  obtain ⟨datum, hdatum⟩ := Option.isSome_iff_exists.1 hdefault
  cases hstored : Fields.get? property.name fields with
  | none =>
      simp only [fillDefault, hstored, hdatum, Fields.has, Fields.get?_put_self]
      rfl
  | some stored =>
      refine has_fillDefault ?_ property
      rw [Fields.has, hstored]
      rfl

/-- After the missing defaults are stored, none is missing. -/
theorem complete_addDefaults (component : Component) (fields : Fields Datum) :
    component.Complete (component.addDefaults fields) := by
  intro property hmem hdefault
  obtain ⟨before, after, hsplit⟩ := List.append_of_mem hmem
  rw [addDefaults, hsplit, List.foldl_append, List.foldl_cons]
  exact has_foldl_fillDefault (has_fillDefault_self property hdefault _) after

end Component

end FormDesigner
