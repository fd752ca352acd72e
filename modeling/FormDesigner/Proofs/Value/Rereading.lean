import FormDesigner.Proofs.Value.Json
import FormDesigner.Proofs.Value.Shape

/-!
Values that come back from JSON in their shape.

These are the values all parts of which have a JSON form of their own, and no others: what is
not finite comes back as `null`, and what looks like a binding as a binding.
-/

namespace FormDesigner

namespace Value

/-- A value after it was written and read. -/
def reread (value : Value) : Value := ofJson value.toJson

/-- A record comes back as what its fields are read as. -/
theorem reread_record {fields : Entries Value} (h : Entries.Ascending fields) :
    reread (.record fields) = ofFields (rereadFields fields) :=
  ofJson_record h

theorem reread_binding (kind : BindingKind) (inner : Value) :
    reread (.binding kind inner) = .binding kind inner.reread :=
  ofJson_binding kind inner

theorem numberToJson_of_not_finite {x : Number} (h : x.isFinite = false) :
    numberToJson x = .null := by
  rw [numberToJson]
  cases hint : x.toInt? with
  | none => simp [h]
  | some n =>
      rw [Number.isFinite_of_toInt? hint] at h
      cases h

/-- Only `null` and numbers that are not finite come back as `null`. -/
theorem eq_of_reread_eq_null {value : Value} (hordered : value.Ordered)
    (h : value.reread = .null) : value = .null ∨ ∃ x, value = .number x ∧ x.isFinite = false := by
  cases value with
  | null => exact Or.inl rfl
  | bool b => cases h
  | number x =>
      right
      refine ⟨x, rfl, ?_⟩
      cases hfinite : x.isFinite with
      | false => rfl
      | true =>
          obtain ⟨other, hother, -⟩ := exists_ofJson_number hfinite
          rw [reread, toJson, hother] at h
          cases h
  | string text => cases h
  | list items => cases h
  | record fields =>
      rw [reread_record hordered.1] at h
      unfold ofFields at h
      split at h
      · split at h <;> cases h
      · cases h
  | binding kind inner =>
      rw [reread_binding] at h
      cases h

theorem eq_binding_null_of_shape {value : Value} {kind : BindingKind}
    (h : value.shape = .binding kind .null) : value = .binding kind .null := by
  cases value with
  | binding other inner =>
      obtain ⟨rfl, hinner⟩ := Shape.binding.inj h
      rw [eq_null_of_shape hinner]
  | _ => cases h

/-- What is neither a number nor a record has a form of its own. -/
theorem storable_of_ne {part : Value} (hnumber : ∀ x, part ≠ .number x)
    (hrecord : ∀ fields, part ≠ .record fields) : part.Storable :=
  ⟨fun x heq => absurd heq (hnumber x), fun _ _ => hrecord _⟩

theorem storable_binding_null (kind : BindingKind) : (Value.binding kind .null).All Storable :=
  ⟨storable_of_ne (by simp) (by simp), storable_of_ne (by simp) (by simp)⟩

/-- A record that comes back as a record does not look like a binding. -/
theorem shapeFields_of_reread_record {fields : Entries Value}
    (hascending : Entries.Ascending fields)
    (h : (reread (.record fields)).shape = (Value.record fields).shape) :
    shapeFields (rereadFields fields) = shapeFields fields ∧ Storable (.record fields) := by
  rw [reread_record hascending] at h
  constructor
  · unfold ofFields at h
    split at h
    · split at h
      · cases h
      · exact Shape.record.inj h
    · exact Shape.record.inj h
  · constructor
    · intro x heq
      cases heq
    · rintro kind inner heq
      cases heq
      have hfields : rereadFields [("kind", .string kind.name), ("value", inner)] =
          [("kind", .string kind.name), ("value", inner.reread)] := rfl
      rw [hfields, ofFields] at h
      simp only [BindingKind.ofName?_name] at h
      cases h

mutual

/-- All parts of a value that comes back in its shape have a JSON form of their own. -/
theorem storable_of_shape_eq : ∀ value : Value, value.Ordered →
    value.reread.shape = value.shape → value.All Storable
  | .null, _, _ => storable_of_ne (by simp) (by simp)
  | .bool b, _, _ => storable_of_ne (by simp) (by simp)
  | .number x, _, h => by
      constructor
      · rintro y heq
        cases heq
        cases hfinite : x.isFinite with
        | true => rfl
        | false =>
            rw [reread, toJson, numberToJson_of_not_finite hfinite] at h
            cases h
      · intro kind inner heq
        cases heq
  | .string text, _, _ => storable_of_ne (by simp) (by simp)
  | .list items, hordered, h =>
      ⟨storable_of_ne (by simp) (by simp),
        storableItems_of_shape_eq items hordered (Shape.list.inj h)⟩
  | .record fields, hordered, h => by
      obtain ⟨hfields, hstorable⟩ := shapeFields_of_reread_record hordered.1 h
      exact ⟨hstorable, storableFields_of_shape_eq fields hordered.2 hfields⟩
  | .binding kind inner, hordered, h => by
      rw [reread_binding] at h
      exact ⟨storable_of_ne (by simp) (by simp),
        storable_of_shape_eq inner hordered (Shape.binding.inj h).2⟩

theorem storableItems_of_shape_eq : ∀ items : List Value, OrderedItems items →
    shapeItems (itemsOfJson (itemsToJson items)) = shapeItems items → AllItems Storable items
  | [], _, _ => trivial
  | item :: rest, hordered, h =>
      ⟨storable_of_shape_eq item hordered.1 (List.cons.inj h).1,
        storableItems_of_shape_eq rest hordered.2 (List.cons.inj h).2⟩

theorem storableFields_of_shape_eq : ∀ fields : List (String × Value), OrderedFields fields →
    shapeFields (rereadFields fields) = shapeFields fields → AllFields Storable fields
  | [], _, _ => trivial
  | (_, value) :: rest, hordered, h =>
      ⟨storable_of_shape_eq value hordered.1 (Prod.mk.inj (List.cons.inj h).1).2,
        storableFields_of_shape_eq rest hordered.2 (List.cons.inj h).2⟩

end

/-- A value comes back in its shape if and only if all parts of it have a JSON form of their
own. -/
theorem shape_reread_iff {value : Value} (h : value.Ordered) :
    value.reread.shape = value.shape ↔ value.All Storable := by
  constructor
  · exact storable_of_shape_eq value h
  · intro hstorable
    exact shape_eq_of_equals _ _ (equals_ofJson_toJson value h hstorable)

end Value

end FormDesigner
