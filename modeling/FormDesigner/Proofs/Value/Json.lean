import FormDesigner.Proofs.Json.Reading
import FormDesigner.Proofs.Number.Whole
import FormDesigner.Proofs.Value.Ordered
import FormDesigner.Value.Json

/-!
Values in JSON form and back.

A value comes back equal unless a part of it has no form of its own: the infinities and NaN
have none, and a record that looks like a binding has that of the binding.
-/

namespace FormDesigner

/-- A name of a kind is the name of the kind that it is read as. -/
theorem BindingKind.name_of_ofName? {name : String} {kind : BindingKind}
    (h : BindingKind.ofName? name = some kind) : name = kind.name := by
  rw [ofName?] at h
  split at h
  · next heq =>
      cases h
      exact heq
  · split at h
    · next heq =>
        cases h
        exact heq
    · cases h

namespace Value

mutual

/-- Whether something holds of a value and of all its parts. -/
def All (p : Value → Prop) : Value → Prop
  | .list items => p (.list items) ∧ AllItems p items
  | .record fields => p (.record fields) ∧ AllFields p fields
  | .binding kind inner => p (.binding kind inner) ∧ All p inner
  | scalar => p scalar

def AllItems (p : Value → Prop) : List Value → Prop
  | [] => True
  | item :: rest => All p item ∧ AllItems p rest

def AllFields (p : Value → Prop) : List (String × Value) → Prop
  | [] => True
  | (_, value) :: rest => All p value ∧ AllFields p rest

end

theorem allFields_iff {p : Value → Prop} {fields : List (String × Value)} :
    AllFields p fields ↔ ∀ field ∈ fields, field.2.All p := by
  induction fields with
  | nil => exact ⟨fun _ _ hmem => absurd hmem List.not_mem_nil, fun _ => trivial⟩
  | cons field rest ih => rw [AllFields, ih, List.forall_mem_cons]

/-- A value, or a part of one, that has a JSON form of its own. -/
structure Storable (part : Value) : Prop where
  finite : ∀ x, part = .number x → x.isFinite = true
  not_binding : ∀ kind inner,
    part ≠ .record [("kind", .string (BindingKind.name kind)), ("value", inner)]

/-- A number that is written as a decimal meets a condition. -/
def Kept (keeps : Number → Prop) (part : Value) : Prop :=
  ∀ x, part = .number x → numberToJson x = .decimal x → keeps x

/-- A number that is written as a decimal is read back from its text. -/
def Rereadable (part : Value) : Prop :=
  ∀ x, part = .number x → numberToJson x = .decimal x →
    Json.ofWord? (Json.decimalStyle.write x) = some (.decimal x)

/-- The JSON form of a finite number is that of an equal one. -/
theorem exists_ofJson_number {x : Number} (h : x.isFinite = true) :
    ∃ other, ofJson (numberToJson x) = .number other ∧ other.equals x = true := by
  have hself : x.equals x = true := by
    simp [Number.equals, Number.not_isNaN_of_isFinite h]
  rw [numberToJson]
  split
  · next n hinteger =>
      split
      · next hsmall =>
          have hlimit : wholeLimit < 2 ^ 53 := by decide
          exact ⟨Number.ofInt n, by rw [ofJson],
            Number.equals_ofInt hinteger (Nat.lt_trans hsmall hlimit)⟩
      · exact ⟨x, by rw [ofJson], hself⟩
  · rw [if_pos h]
    exact ⟨x, by rw [ofJson], hself⟩

/-- The fields of a record after they were written and read. -/
def rereadFields (fields : List (String × Value)) : List (String × Value) :=
  membersOfJson (fieldsToJson fields)

theorem rereadFields_eq (fields : List (String × Value)) :
    rereadFields fields = fields.map fun field => (field.1, ofJson field.2.toJson) := by
  induction fields with
  | nil => rfl
  | cons field rest ih =>
      rw [List.map_cons, ← ih]
      rfl

theorem ascending_rereadFields {fields : Entries Value} (h : Entries.Ascending fields) :
    Entries.Ascending (rereadFields fields) := by
  rw [rereadFields_eq]
  exact Entries.ascending_map (fun value => ofJson value.toJson) h

/-- What is equal to a text is that text. -/
theorem eq_string_of_equals {value : Value} {text : String}
    (h : equals (.string text) value = true) : value = .string text := by
  cases value with
  | string other =>
      rw [equals, beq_iff_eq] at h
      rw [h]
  | _ => simp [equals] at h

/-- What is equal to the form of a binding is a form of a binding. -/
theorem eq_of_equals_binding {name : String} {inner : Value} {fields : List (String × Value)}
    (h : equalsFields [("kind", .string name), ("value", inner)] fields = true) :
    ∃ content, fields = [("kind", .string name), ("value", content)] := by
  match fields, h with
  | [(first, kind), (second, content)], h =>
      simp only [equalsFields, Bool.and_eq_true, beq_iff_eq] at h
      obtain ⟨⟨hfirst, hkind⟩, ⟨hsecond, _⟩, _⟩ := h
      exact ⟨content, by rw [← hfirst, ← hsecond, eq_string_of_equals hkind]⟩
  | [], h => simp [equalsFields] at h
  | [_], h => simp [equalsFields] at h
  | _ :: _ :: _ :: _, h => simp [equalsFields] at h

/-- A record that does not look like a binding is read as a record. -/
theorem ofFields_of_equals {fields others : List (String × Value)}
    (hequals : equalsFields others fields = true)
    (hother : ∀ kind inner,
      fields ≠ [("kind", .string (BindingKind.name kind)), ("value", inner)]) :
    ofFields others = .record others := by
  -- Fields that were read as a binding would be equal to none but the form of a binding.
  unfold ofFields
  split
  · next name inner =>
      split
      · next kind hkind =>
          obtain ⟨content, hfields⟩ := eq_of_equals_binding hequals
          rw [BindingKind.name_of_ofName? hkind] at hfields
          exact absurd hfields (hother kind content)
      · rfl
  · rfl

/-- A binding is read as a binding. -/
theorem ofJson_binding (kind : BindingKind) (inner : Value) :
    ofJson (toJson (.binding kind inner)) = .binding kind (ofJson inner.toJson) := by
  have hascending : Entries.Ascending
      [("kind", Value.string kind.name), ("value", ofJson inner.toJson)] := by
    have hbelow : "kind" < "value" := by decide
    exact List.pairwise_pair.2 hbelow
  have hmembers : membersOfJson [("kind", .string kind.name), ("value", inner.toJson)] =
      [("kind", .string kind.name), ("value", ofJson inner.toJson)] := rfl
  rw [toJson, ofJson, hmembers, Fields.collect_of_ascending hascending, ofFields]
  simp only [BindingKind.ofName?_name]

/-- A record is read as what its fields are read as. -/
theorem ofJson_record {fields : Entries Value} (h : Entries.Ascending fields) :
    ofJson (toJson (.record fields)) = ofFields (rereadFields fields) := by
  rw [toJson, ofJson]
  exact congrArg (fun fields => ofFields fields.entries)
    (Fields.collect_of_ascending (ascending_rereadFields h))

mutual

/-- A value whose parts all have a JSON form of their own is read as an equal one. -/
theorem equals_ofJson_toJson : ∀ value : Value, value.Ordered → value.All Storable →
    (ofJson value.toJson).equals value = true
  | .null, _, _ => rfl
  | .bool b, _, _ => by
      rw [toJson, ofJson, equals]
      exact beq_self_eq_true b
  | .number x, _, h => by
      obtain ⟨other, hother, hequals⟩ := exists_ofJson_number (h.finite x rfl)
      rw [toJson, hother, equals]
      exact hequals
  | .string s, _, _ => by
      rw [toJson, ofJson, equals]
      exact beq_self_eq_true s
  | .list items, hordered, h => by
      rw [toJson, ofJson, equals]
      exact equalsItems_ofJson_toJson items hordered h.2
  | .record fields, hordered, h => by
      have hequals := equalsFields_reread fields hordered.2 h.2
      have hother : ∀ kind inner,
          fields ≠ [("kind", .string (BindingKind.name kind)), ("value", inner)] := by
        rintro kind inner rfl
        exact h.1.not_binding kind inner rfl
      rw [ofJson_record hordered.1, ofFields_of_equals hequals hother, equals]
      exact hequals
  | .binding kind inner, hordered, h => by
      rw [ofJson_binding, equals, equals_ofJson_toJson inner hordered h.2]
      simp

theorem equalsItems_ofJson_toJson : ∀ items : List Value, OrderedItems items →
    AllItems Storable items → equalsItems (itemsOfJson (itemsToJson items)) items = true
  | [], _, _ => rfl
  | item :: rest, hordered, h => by
      rw [itemsToJson, itemsOfJson, equalsItems, equals_ofJson_toJson item hordered.1 h.1,
        equalsItems_ofJson_toJson rest hordered.2 h.2]
      rfl

theorem equalsFields_reread : ∀ fields : List (String × Value), OrderedFields fields →
    AllFields Storable fields → equalsFields (rereadFields fields) fields = true
  | [], _, _ => rfl
  | (name, value) :: rest, hordered, h => by
      rw [rereadFields, fieldsToJson, membersOfJson, equalsFields,
        equals_ofJson_toJson value hordered.1 h.1, beq_self_eq_true name]
      exact equalsFields_reread rest hordered.2 h.2

end

/-- A number is written as an integer, as a decimal or not at all. -/
theorem numberToJson_cases (x : Number) :
    (∃ n : Int, n.natAbs < wholeLimit ∧ numberToJson x = .integer n) ∨
    (x.isFinite = true ∧ numberToJson x = .decimal x) ∨ numberToJson x = .null := by
  rw [numberToJson]
  split
  · next n hinteger =>
      split
      · next hsmall => exact Or.inl ⟨n, hsmall, rfl⟩
      · exact Or.inr (Or.inl ⟨Number.isFinite_of_toInt? hinteger, rfl⟩)
  · split
    · next hfinite => exact Or.inr (Or.inl ⟨hfinite, rfl⟩)
    · exact Or.inr (Or.inr rfl)

theorem printable_numberToJson {keeps : Number → Prop} {x : Number} (h : Kept keeps (.number x)) :
    (numberToJson x).Printable keeps := by
  rcases numberToJson_cases x with ⟨n, hsmall, hform⟩ | ⟨hfinite, hform⟩ | hform
  · rw [hform]
    rw [wholeLimit] at hsmall
    exact ⟨by omega, by omega⟩
  · have hkept := h x rfl hform
    rw [hform]
    exact ⟨hfinite, hkept⟩
  · rw [hform]
    trivial

section Printable

variable {keeps : Number → Prop}

mutual

/-- The JSON form of a value has a text, and its decimals are those of the value. -/
theorem printable_toJson : ∀ value : Value, value.All (Kept keeps) → value.toJson.Printable keeps
  | .null, _ => trivial
  | .bool _, _ => trivial
  | .number x, h => by
      rw [toJson]
      exact printable_numberToJson h
  | .string s, _ => by
      rw [toJson]
      trivial
  | .list items, h => by
      rw [toJson]
      exact printable_itemsToJson items h.2
  | .record fields, h => by
      rw [toJson]
      exact printable_fieldsToJson fields h.2
  | .binding kind inner, h => by
      rw [toJson]
      exact ⟨trivial, printable_toJson inner h.2, trivial⟩

theorem printable_itemsToJson : ∀ items : List Value, AllItems (Kept keeps) items →
    Json.PrintableItems keeps (itemsToJson items)
  | [], _ => trivial
  | item :: rest, h => ⟨printable_toJson item h.1, printable_itemsToJson rest h.2⟩

theorem printable_fieldsToJson : ∀ fields : List (String × Value), AllFields (Kept keeps) fields →
    Json.PrintableMembers keeps (fieldsToJson fields)
  | [], _ => trivial
  | (_, value) :: rest, h => ⟨printable_toJson value h.1, printable_fieldsToJson rest h.2⟩

end

end Printable

end Value

namespace Datum

/-- A datum after it was written and read. -/
def reread (datum : Datum) : Datum := ofJson datum.value.toJson

end Datum

namespace Fields

/-- The values of fields come back as these are read one by one. -/
theorem values_reread (fields : Fields Datum) :
    (fields.map Datum.reread).values = Value.rereadFields fields.values := by
  rw [Value.rereadFields_eq, values, values, map, List.map_map, List.map_map]
  rfl

theorem entries_reread (fields : Fields Datum) :
    (fields.map Datum.reread).entries =
      (Value.fieldsToJson fields.values).map fun member => (member.1, Datum.ofJson member.2) := by
  have hentries : ∀ entries : Entries Datum,
      (entries.map fun entry => (entry.1, entry.2.reread)) =
        (Value.fieldsToJson (entries.map fun entry => (entry.1, entry.2.value))).map
          fun member => (member.1, Datum.ofJson member.2) := by
    intro entries
    induction entries with
    | nil => rfl
    | cons entry rest ih => exact congrArg (List.cons _) ih
  exact hentries fields.entries

end Fields

end FormDesigner
