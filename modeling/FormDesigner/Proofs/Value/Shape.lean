import Mathlib.Logic.Relation
import FormDesigner.Proofs.Value.Ordered
import FormDesigner.Value.Difference

/-!
What the comparison of values sees.

The shape of a value is the value with every number replaced by its place among
the numbers.  Two values have no differences if and only if they have one shape,
so that having no differences is an equivalence.
-/

namespace FormDesigner

/-- The place of a number among the numbers; none for NaN. -/
def Number.place (x : Number) : Option Int := if x.isNaN then none else some x.rank

theorem Number.same_iff (x y : Number) : x.same y = true ↔ x.place = y.place := by
  cases hx : x.isNaN <;> cases hy : y.isNaN <;> simp [same, equals, place, hx, hy]

/-- A value without the ways of writing its numbers. -/
inductive Shape where
  | null
  | bool (b : Bool)
  | number (place : Option Int)
  | string (s : String)
  | list (items : List Shape)
  | record (fields : List (String × Shape))
  | binding (kind : BindingKind) (inner : Shape)

namespace Value

mutual

def shape : Value → Shape
  | .null => .null
  | .bool b => .bool b
  | .number x => .number x.place
  | .string s => .string s
  | .list items => .list (shapeItems items)
  | .record fields => .record (shapeFields fields)
  | .binding kind inner => .binding kind (shape inner)

def shapeItems : List Value → List Shape
  | [] => []
  | item :: rest => shape item :: shapeItems rest

def shapeFields : List (String × Value) → List (String × Shape)
  | [] => []
  | (name, value) :: rest => (name, shape value) :: shapeFields rest

end

theorem shapeFields_eq_map (fields : Entries Value) :
    shapeFields fields = fields.map fun field => (field.1, field.2.shape) := by
  induction fields with
  | nil => rfl
  | cons head rest ih => rw [shapeFields, ih, List.map_cons]

theorem lostFields_eq_nil_iff (path : String) (left right : Entries Value) :
    lostFields path left right = [] ↔
      ∀ field ∈ left, ∃ value, Entries.get? field.1 right = some value := by
  simp [lostFields, Entries.has, ← Option.ne_none_iff_exists']

theorem addedFields_eq_nil_iff (path : String) (left right : Entries Value) :
    addedFields path left right = [] ↔
      ∀ field ∈ right, ∃ value, Entries.get? field.1 left = some value := by
  simp [addedFields, Entries.has, ← Option.ne_none_iff_exists']

/-- Records with the same names under which values of one shape are found have
one shape. -/
theorem shapeFields_eq_iff {left right : Entries Value} (hleft : Entries.Ascending left)
    (hright : Entries.Ascending right) :
    shapeFields left = shapeFields right ↔
      (∀ field ∈ left, ∃ value, Entries.get? field.1 right = some value) ∧
      (∀ name value, (name, value) ∈ left → ∀ other, Entries.get? name right = some other →
        value.shape = other.shape) ∧
      ∀ field ∈ right, ∃ value, Entries.get? field.1 left = some value := by
  rw [shapeFields_eq_map, shapeFields_eq_map]
  constructor
  · intro heq
    have hget : ∀ name,
        (Entries.get? name left).map shape = (Entries.get? name right).map shape := by
      intro name
      rw [← Entries.get?_map, ← Entries.get?_map, heq]
    refine ⟨fun field hmem => ?_, fun name value hmem other hother => ?_, fun field hmem => ?_⟩
    · have hname := hget field.1
      rw [Entries.get?_of_mem hleft hmem, Option.map_some] at hname
      obtain ⟨value, hvalue, _⟩ := Option.map_eq_some_iff.1 hname.symm
      exact ⟨value, hvalue⟩
    · have hname := hget name
      rw [Entries.get?_of_mem hleft hmem, hother] at hname
      exact Option.some.inj hname
    · have hname := hget field.1
      rw [Entries.get?_of_mem hright hmem, Option.map_some] at hname
      obtain ⟨value, hvalue, _⟩ := Option.map_eq_some_iff.1 hname
      exact ⟨value, hvalue⟩
  · rintro ⟨hlost, hshared, hadded⟩
    refine Entries.ext_get? (Entries.ascending_map shape hleft) (Entries.ascending_map shape hright)
      fun name => ?_
    rw [Entries.get?_map, Entries.get?_map]
    cases hfound : Entries.get? name left with
    | some value =>
        obtain ⟨other, hother⟩ := hlost _ (Entries.mem_of_get? hfound)
        rw [hother, Option.map_some, Option.map_some,
          hshared name value (Entries.mem_of_get? hfound) other hother]
    | none =>
        cases hother : Entries.get? name right with
        | none => rfl
        | some other =>
            obtain ⟨value, hvalue⟩ := hadded _ (Entries.mem_of_get? hother)
            rw [hfound] at hvalue
            cases hvalue

mutual

/-- Values whose records ascend have no differences if and only if they have one
shape. -/
theorem differences_eq_nil_iff (path : String) : ∀ {left right : Value}, left.Ordered →
    right.Ordered → (differences path left right = [] ↔ left.shape = right.shape)
  | .null, right, _, _ => by cases right <;> simp [differences, equals, shape]
  | .bool _, right, _, _ => by cases right <;> simp [differences, equals, shape]
  | .number x, right, _, _ => by
      cases right <;> simp [differences, equals, shape, ← Number.same_iff]
  | .string _, right, _, _ => by cases right <;> simp [differences, equals, shape]
  | .list items, right, hleft, hright => by
      cases right with
      | list others =>
          rw [differences, itemDifferences_eq_nil_iff path 0 hleft hright, shape, shape]
          simp
      | _ => simp [differences, equals, shape]
  | .record fields, right, hleft, hright => by
      cases right with
      | record others =>
          rw [differences, List.append_eq_nil_iff, List.append_eq_nil_iff, lostFields_eq_nil_iff,
            addedFields_eq_nil_iff, sharedDifferences_eq_nil_iff path hleft.2 hright.2, shape,
            shape, Shape.record.injEq, shapeFields_eq_iff hleft.1 hright.1, and_assoc]
      | _ => simp [differences, equals, shape]
  | .binding kind inner, right, hleft, hright => by
      cases right with
      | binding other content =>
          have hinner : inner.Ordered := hleft
          have hcontent : content.Ordered := hright
          rw [differences, List.append_eq_nil_iff,
            differences_eq_nil_iff (childPath path "value") hinner hcontent, shape, shape]
          simp [kindDifferences]
      | _ => simp [differences, equals, shape]

theorem itemDifferences_eq_nil_iff (path : String) : ∀ (index : Nat) {left right : List Value},
    OrderedItems left → OrderedItems right →
      (itemDifferences path index left right = [] ↔ shapeItems left = shapeItems right)
  | _, [], right, _, _ => by cases right <;> simp [itemDifferences, addedItems, shapeItems]
  | index, item :: rest, right, hleft, hright => by
      cases right with
      | nil => simp [itemDifferences, shapeItems]
      | cons other others =>
          rw [itemDifferences, List.append_eq_nil_iff,
            differences_eq_nil_iff (childPath path (toString index)) hleft.1 hright.1,
            itemDifferences_eq_nil_iff path (index + 1) hleft.2 hright.2, shapeItems, shapeItems,
            List.cons.injEq]

theorem sharedDifferences_eq_nil_iff (path : String) : ∀ {left : List (String × Value)}
    {right : Entries Value}, OrderedFields left → OrderedFields right →
      (sharedDifferences path left right = [] ↔
        ∀ name value, (name, value) ∈ left → ∀ other, Entries.get? name right = some other →
          value.shape = other.shape)
  | [], _, _, _ => by simp [sharedDifferences]
  | (name, value) :: rest, right, hleft, hright => by
      have hcons : (∀ key stored, (key, stored) ∈ (name, value) :: rest → ∀ other,
          Entries.get? key right = some other → stored.shape = other.shape) ↔
            (∀ other, Entries.get? name right = some other → value.shape = other.shape) ∧
              ∀ key stored, (key, stored) ∈ rest → ∀ other,
                Entries.get? key right = some other → stored.shape = other.shape := by
        constructor
        · intro hall
          exact ⟨hall name value List.mem_cons_self,
            fun key stored hmem => hall key stored (List.mem_cons_of_mem _ hmem)⟩
        · rintro ⟨hfirst, hothers⟩ key stored hmem
          rcases List.mem_cons.1 hmem with heq | hmem
          · cases heq
            exact hfirst
          · exact hothers key stored hmem
      rw [hcons, sharedDifferences, List.append_eq_nil_iff,
        sharedDifferences_eq_nil_iff path hleft.2 hright]
      refine and_congr ?_ Iff.rfl
      cases hfound : Entries.get? name right with
      | none => simp
      | some other =>
          simp only [differences_eq_nil_iff (childPath path name) hleft.1
            (ordered_of_get? hright hfound), Option.some.injEq, forall_eq']

end

theorem compare_eq_nil_iff (path : String) {left right : Option Value} (hleft : OrderedOption left)
    (hright : OrderedOption right) :
    compare path left right = [] ↔ left.map shape = right.map shape := by
  cases left with
  | none => cases right <;> simp [compare]
  | some value =>
      cases right with
      | none => simp [compare]
      | some other =>
          rw [compare, differences_eq_nil_iff path (hleft value rfl) (hright other rfl)]
          simp

/-- Having no differences is an equivalence. -/
theorem equivalence_compare (path : String) :
    Equivalence fun left right : { value // OrderedOption value } =>
      compare path left.1 right.1 = [] := by
  have hshape : (fun left right : { value // OrderedOption value } =>
      compare path left.1 right.1 = []) =
        Function.onFun Eq fun value => value.1.map shape :=
    funext₂ fun left right => propext (compare_eq_nil_iff path left.2 right.2)
  rw [hshape]
  exact eq_equivalence.comap _

mutual

/-- Equal values have one shape. -/
theorem shape_eq_of_equals : ∀ left right : Value, left.equals right = true →
    left.shape = right.shape
  | .null, right, h => by
      cases right with
      | null => rfl
      | _ => simp [equals] at h
  | .bool b, right, h => by
      cases right with
      | bool other => rw [shape, shape, beq_iff_eq.mp h]
      | _ => simp [equals] at h
  | .number x, right, h => by
      cases right with
      | number y =>
          have hequals : x.equals y = true := h
          have hsame : x.same y = true := by rw [Number.same, hequals, Bool.true_or]
          rw [shape, shape, (Number.same_iff x y).mp hsame]
      | _ => simp [equals] at h
  | .string text, right, h => by
      cases right with
      | string other => rw [shape, shape, beq_iff_eq.mp h]
      | _ => simp [equals] at h
  | .list items, right, h => by
      cases right with
      | list others => rw [shape, shape, shapeItems_eq_of_equals items others h]
      | _ => simp [equals] at h
  | .record fields, right, h => by
      cases right with
      | record others => rw [shape, shape, shapeFields_eq_of_equals fields others h]
      | _ => simp [equals] at h
  | .binding kind inner, right, h => by
      cases right with
      | binding other content =>
          rw [equals, Bool.and_eq_true, decide_eq_true_eq] at h
          rw [shape, shape, h.1, shape_eq_of_equals inner content h.2]
      | _ => simp [equals] at h

theorem shapeItems_eq_of_equals : ∀ items others : List Value, equalsItems items others = true →
    shapeItems items = shapeItems others
  | [], [], _ => rfl
  | [], _ :: _, h => by simp [equalsItems] at h
  | _ :: _, [], h => by simp [equalsItems] at h
  | item :: rest, other :: others, h => by
      rw [equalsItems, Bool.and_eq_true] at h
      rw [shapeItems, shapeItems, shape_eq_of_equals item other h.1,
        shapeItems_eq_of_equals rest others h.2]

theorem shapeFields_eq_of_equals : ∀ fields others : List (String × Value),
    equalsFields fields others = true → shapeFields fields = shapeFields others
  | [], [], _ => rfl
  | [], _ :: _, h => by simp [equalsFields] at h
  | _ :: _, [], h => by simp [equalsFields] at h
  | (name, value) :: rest, (other, content) :: others, h => by
      rw [equalsFields, Bool.and_eq_true, Bool.and_eq_true, beq_iff_eq] at h
      rw [shapeFields, shapeFields, h.1.1, shape_eq_of_equals value content h.1.2,
        shapeFields_eq_of_equals rest others h.2]

end

theorem eq_null_of_shape {value : Value} (h : value.shape = .null) : value = .null := by
  cases value with
  | null => rfl
  | _ => cases h

theorem exists_number_of_shape {value : Value} {place : Option Int}
    (h : value.shape = .number place) : ∃ x, value = .number x := by
  cases value with
  | number x => exact ⟨x, rfl⟩
  | _ => cases h

end Value

end FormDesigner
