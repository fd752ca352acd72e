import FormDesigner.Proofs.Fields
import FormDesigner.Value.Datum

/-!
Values in which the names of every record ascend.

A record is a map, and this is the one way to write it down: each name once, in
ascending order.  The parts of such a value are such values.
-/

namespace FormDesigner

namespace Value

/-- Whether the names of every record in it ascend, where there is a value. -/
def OrderedOption (value : Option Value) : Prop := ∀ stored, value = some stored → stored.Ordered

theorem orderedOption_value (datum : Option Datum) : OrderedOption (datum.map Datum.value) := by
  intro value hvalue
  obtain ⟨found, -, rfl⟩ := Option.map_eq_some_iff.mp hvalue
  exact found.ordered

theorem ordered_of_get? {fields : Entries Value} (h : OrderedFields fields) {name : String}
    {value : Value} (hvalue : Entries.get? name fields = some value) : value.Ordered := by
  induction fields with
  | nil => cases hvalue
  | cons head rest ih =>
      obtain ⟨key, stored⟩ := head
      obtain ⟨hstored, hrest⟩ := h
      rw [Entries.get?] at hvalue
      split at hvalue
      · cases hvalue
        exact hstored
      · exact ih hrest hvalue

end Value

theorem Datum.binding_inj {kind other : BindingKind} {inner content : Datum} :
    binding kind inner = binding other content ↔ kind = other ∧ inner = content := by
  rw [Datum.ext_iff, Datum.ext_iff]
  exact (Value.binding.injEq kind inner.value other content.value).to_iff

/-- The values of fields are those of an ordered record. -/
theorem Fields.ordered_values (fields : Fields Datum) : (Value.record fields.values).Ordered :=
  (Datum.record fields).ordered

theorem Fields.mem_values {fields : Fields Datum} {name : String} {value : Value} :
    (name, value) ∈ fields.values ↔
      ∃ datum, (name, datum) ∈ fields.entries ∧ datum.value = value := by
  simp [values]

end FormDesigner
