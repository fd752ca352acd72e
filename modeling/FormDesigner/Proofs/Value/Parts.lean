import FormDesigner.Proofs.Value.Shape

/-!
Values part by part.

A step leads from a list, a record or a binding to one of its parts.  Two values of one form are
compared by what each step leads to on both sides; all other values are compared as a whole.
-/

namespace FormDesigner

/-- A step from a value to one of its parts. -/
inductive Step where
  | item (index : Nat)
  | field (name : String)
  | kind
  | inside
  deriving DecidableEq

namespace Step

/-- The name of a step in the path of a difference. -/
def label : Step → String
  | .item index => toString index
  | .field name => name
  | .kind => "kind"
  | .inside => "value"

/-- The part of a value that a step leads to. -/
def part? : Step → Value → Option Value
  | .item index, .list items => items[index]?
  | .field name, .record fields => Entries.get? name fields
  | .kind, .binding held _ => some (.string held.name)
  | .inside, .binding _ inner => some inner
  | _, _ => none

theorem of_part?_eq_some {step : Step} {value part : Value} (h : step.part? value = some part) :
    (∃ items index, value = .list items ∧ step = .item index ∧ items[index]? = some part) ∨
    (∃ fields name, value = .record fields ∧ step = .field name ∧
      Entries.get? name fields = some part) ∨
    ∃ held inner, value = .binding held inner ∧
      (step = .kind ∧ part = .string held.name ∨ step = .inside ∧ part = inner) := by
  unfold part? at h
  split at h
  · exact Or.inl ⟨_, _, rfl, rfl, h⟩
  · exact Or.inr (Or.inl ⟨_, _, rfl, rfl, h⟩)
  · exact Or.inr (Or.inr ⟨_, _, rfl, Or.inl ⟨rfl, (Option.some.inj h).symm⟩⟩)
  · exact Or.inr (Or.inr ⟨_, _, rfl, Or.inr ⟨rfl, (Option.some.inj h).symm⟩⟩)
  · cases h

/-- The turn of a step: first what only the left value has, then what both have, and last what
only the right value has. -/
def turn (left right : Value) (step : Step) : Nat :=
  if (step.part? left).isNone then 2 else if (step.part? right).isNone then 0 else 1

/-- Which step is taken first: items by their index, fields in turn and then by their names, and
the kind of a binding before its inside. -/
def Before (left right : Value) : Step → Step → Prop
  | .item index, .item other => index < other
  | .field name, .field other =>
      turn left right (.field name) < turn left right (.field other) ∨
        turn left right (.field name) = turn left right (.field other) ∧ name < other
  | .kind, .inside => True
  | _, _ => False

theorem not_before_self (left right : Value) (step : Step) : ¬step.Before left right step := by
  cases step with
  | item index => exact Nat.lt_irrefl index
  | field name =>
      rintro (hturn | ⟨-, hname⟩)
      · exact Nat.lt_irrefl _ hturn
      · exact String.lt_irrefl name hname
  | kind => exact id
  | inside => exact id

end Step

namespace Value

/-! ### Parts are smaller -/

mutual

/-- How many lists, records and bindings are nested. -/
def height : Value → Nat
  | .list items => heightItems items + 1
  | .record fields => heightFields fields + 1
  | .binding _ inner => height inner + 1
  | _ => 0

def heightItems : List Value → Nat
  | [] => 0
  | item :: rest => max (height item) (heightItems rest)

def heightFields : List (String × Value) → Nat
  | [] => 0
  | (_, value) :: rest => max (height value) (heightFields rest)

end

theorem height_le_items {items : List Value} {index : Nat} {item : Value}
    (h : items[index]? = some item) : item.height ≤ heightItems items := by
  induction items generalizing index with
  | nil => cases h
  | cons first rest ih =>
      rw [heightItems]
      cases index with
      | zero =>
          cases h
          exact Nat.le_max_left _ _
      | succ index => exact (ih h).trans (Nat.le_max_right _ _)

theorem height_le_fields {fields : Entries Value} {name : String} {value : Value}
    (h : Entries.get? name fields = some value) : value.height ≤ heightFields fields := by
  induction fields with
  | nil => cases h
  | cons field rest ih =>
      obtain ⟨key, stored⟩ := field
      rw [heightFields]
      rw [Entries.get?] at h
      split at h
      · cases h
        exact Nat.le_max_left _ _
      · exact (ih h).trans (Nat.le_max_right _ _)

theorem height_part_lt {value part : Value} {step : Step} (h : step.part? value = some part) :
    part.height < value.height := by
  rcases Step.of_part?_eq_some h with ⟨items, index, rfl, -, hitem⟩ |
    ⟨fields, name, rfl, -, hfield⟩ | ⟨held, inner, rfl, ⟨-, rfl⟩ | ⟨-, rfl⟩⟩
  · exact Nat.lt_succ_of_le (height_le_items hitem)
  · exact Nat.lt_succ_of_le (height_le_fields hfield)
  · exact Nat.succ_pos _
  · exact Nat.lt_succ_self _

/-- What holds where a value is absent, and of two values if it holds of what every step leads
to, holds everywhere. -/
theorem induction_on_parts {p : Option Value → Option Value → Prop}
    (absent_left : ∀ right, p none right) (absent_right : ∀ left, p left none)
    (present : ∀ left right, (∀ step : Step, p (step.part? left) (step.part? right)) →
      p (some left) (some right)) (left right : Option Value) : p left right := by
  cases left with
  | none => exact absent_left right
  | some left =>
      generalize hheight : left.height = bound
      induction bound using Nat.strong_induction_on generalizing left right with
      | h bound ih =>
          subst hheight
          cases right with
          | none => exact absent_right (some left)
          | some right =>
              apply present
              intro step
              cases hpart : step.part? left with
              | none => exact absent_left _
              | some part => exact ih part.height (height_part_lt hpart) _ part rfl

theorem ordered_of_getElem? {items : List Value} (h : OrderedItems items) {index : Nat}
    {item : Value} (hitem : items[index]? = some item) : item.Ordered := by
  induction items generalizing index with
  | nil => cases hitem
  | cons first rest ih =>
      cases index with
      | zero =>
          cases hitem
          exact h.1
      | succ index => exact ih h.2 hitem

theorem orderedOption_part? {value : Value} (h : value.Ordered) (step : Step) :
    OrderedOption (step.part? value) := by
  intro part hpart
  rcases Step.of_part?_eq_some hpart with ⟨items, index, rfl, -, hitem⟩ |
    ⟨fields, name, rfl, -, hfield⟩ | ⟨held, inner, rfl, ⟨-, rfl⟩ | ⟨-, rfl⟩⟩
  · exact ordered_of_getElem? h hitem
  · exact ordered_of_get? h.2 hfield
  · trivial
  · exact h

/-! ### Two values of one form -/

/-- Both values are lists, both are records, or both are bindings. -/
def SameForm : Value → Value → Prop
  | .list _, .list _ => True
  | .record _, .record _ => True
  | .binding _ _, .binding _ _ => True
  | _, _ => False

/-- The steps to the parts of two values of one form. -/
def steps : Value → Value → List Step
  | .list items, .list others => (List.range (max items.length others.length)).map .item
  | .record fields, .record others =>
      (fields.filter (fun field => !Entries.has field.1 others)
        ++ fields.filter (fun field => Entries.has field.1 others)
        ++ others.filter (fun field => !Entries.has field.1 fields)).map fun field => .field field.1
  | .binding _ _, .binding _ _ => [.kind, .inside]
  | _, _ => []

theorem of_sameForm {left right : Value} (h : SameForm left right) :
    (∃ items others, left = .list items ∧ right = .list others) ∨
    (∃ fields others, left = .record fields ∧ right = .record others) ∨
    ∃ kind inner other content, left = .binding kind inner ∧ right = .binding other content := by
  unfold SameForm at h
  split at h
  · exact Or.inl ⟨_, _, rfl, rfl⟩
  · exact Or.inr (Or.inl ⟨_, _, rfl, rfl⟩)
  · exact Or.inr (Or.inr ⟨_, _, _, _, rfl, rfl⟩)
  · cases h

/-- Every step that leads to a part of one of the two values is listed. -/
theorem mem_steps {left right : Value} (hform : SameForm left right) {step : Step} {part : Value}
    (h : step.part? left = some part ∨ step.part? right = some part) :
    step ∈ steps left right := by
  rcases of_sameForm hform with ⟨items, others, rfl, rfl⟩ | ⟨fields, others, rfl, rfl⟩ |
    ⟨kind, inner, other, content, rfl, rfl⟩
  · cases step with
    | item index =>
        have hlonger : index < items.length ∨ index < others.length := by
          rcases h with h | h
          · exact Or.inl (List.getElem?_eq_some_iff.mp h).1
          · exact Or.inr (List.getElem?_eq_some_iff.mp h).1
        exact List.mem_map_of_mem (List.mem_range.mpr (by omega))
    | _ => rcases h with h | h <;> cases h
  · cases step with
    | field name =>
        rw [steps, List.mem_map]
        simp only [List.mem_append, List.mem_filter]
        cases hleft : Entries.get? name fields with
        | some value =>
            have hmem := Entries.mem_of_get? hleft
            refine ⟨(name, value), Or.inl ?_, rfl⟩
            cases hhas : Entries.has name others with
            | false => exact Or.inl ⟨hmem, rfl⟩
            | true => exact Or.inr ⟨hmem, rfl⟩
        | none =>
            rcases h with h | h
            · cases hleft.symm.trans h
            · refine ⟨(name, part), Or.inr ⟨Entries.mem_of_get? h, ?_⟩, rfl⟩
              simp [Entries.has, hleft]
    | _ => rcases h with h | h <;> cases h
  · cases step with
    | kind => exact List.mem_cons_self
    | inside => exact List.mem_cons_of_mem _ List.mem_cons_self
    | _ => rcases h with h | h <;> cases h

theorem turn_field (fields others : Entries Value) (name : String) :
    Step.turn (.record fields) (.record others) (.field name) =
      if Entries.has name fields then if Entries.has name others then 1 else 0 else 2 := by
  cases hleft : Entries.get? name fields with
  | none => simp [Step.turn, Step.part?, Entries.has, hleft]
  | some value =>
      cases hright : Entries.get? name others with
      | none => simp [Step.turn, Step.part?, Entries.has, hleft, hright]
      | some other => simp [Step.turn, Step.part?, Entries.has, hleft, hright]

/-- Fields of one turn are taken in the order of their names. -/
theorem pairwise_before_of_turn {left right : Value} {fields : Entries Value} {turn : Nat}
    (h : Entries.Ascending fields)
    (hturn : ∀ field ∈ fields, Step.turn left right (.field field.1) = turn) :
    fields.Pairwise fun first second =>
      Step.Before left right (.field first.1) (.field second.1) := by
  refine List.Pairwise.imp_of_mem ?_ h
  intro first second hfirst hsecond hlt
  exact Or.inr ⟨(hturn first hfirst).trans (hturn second hsecond).symm, hlt⟩

/-- The steps are listed in the order in which they are taken. -/
theorem pairwise_steps {left right : Value} (hleft : left.Ordered) (hright : right.Ordered) :
    (steps left right).Pairwise (Step.Before left right) := by
  unfold steps
  split
  · exact List.pairwise_map.mpr List.pairwise_lt_range
  · next fields others =>
      have hlost : ∀ field ∈ fields.filter fun field => !Entries.has field.1 others,
          Step.turn (.record fields) (.record others) (.field field.1) = 0 := by
        intro field hmem
        obtain ⟨hfield, hlacks⟩ := List.mem_filter.mp hmem
        rw [Bool.not_eq_true'] at hlacks
        simp [turn_field, Entries.has_of_mem hleft.1 hfield, hlacks]
      have hshared : ∀ field ∈ fields.filter fun field => Entries.has field.1 others,
          Step.turn (.record fields) (.record others) (.field field.1) = 1 := by
        intro field hmem
        obtain ⟨hfield, hhas⟩ := List.mem_filter.mp hmem
        simp [turn_field, Entries.has_of_mem hleft.1 hfield, hhas]
      have hadded : ∀ field ∈ others.filter fun field => !Entries.has field.1 fields,
          Step.turn (.record fields) (.record others) (.field field.1) = 2 := by
        intro field hmem
        obtain ⟨-, hlacks⟩ := List.mem_filter.mp hmem
        rw [Bool.not_eq_true'] at hlacks
        simp [turn_field, hlacks]
      rw [List.pairwise_map, List.pairwise_append, List.pairwise_append]
      refine ⟨⟨?_, ?_, ?_⟩, ?_, ?_⟩
      · exact pairwise_before_of_turn (List.Pairwise.filter _ hleft.1) hlost
      · exact pairwise_before_of_turn (List.Pairwise.filter _ hleft.1) hshared
      · intro first hfirst second hsecond
        exact Or.inl (by rw [hlost first hfirst, hshared second hsecond]; decide)
      · exact pairwise_before_of_turn (List.Pairwise.filter _ hright.1) hadded
      · intro first hfirst second hsecond
        rcases List.mem_append.mp hfirst with hfirst | hfirst
        · exact Or.inl (by rw [hlost first hfirst, hadded second hsecond]; decide)
        · exact Or.inl (by rw [hshared first hfirst, hadded second hsecond]; decide)
  · exact List.pairwise_pair.mpr trivial
  · exact List.Pairwise.nil

theorem flatMap_range_succ {α : Type} (bound : Nat) (found : Nat → List α) :
    (List.range (bound + 1)).flatMap found =
      found 0 ++ (List.range bound).flatMap fun index => found (index + 1) := by
  rw [List.range_succ_eq_map, List.flatMap_cons, List.flatMap_map]

theorem itemDifferences_eq (path : String) (index : Nat) (items others : List Value) :
    itemDifferences path index items others =
      (List.range (max items.length others.length)).flatMap fun offset =>
        compare (childPath path (toString (index + offset))) items[offset]? others[offset]? := by
  have hnext : ∀ offset, index + 1 + offset = index + (offset + 1) := by omega
  induction items generalizing index others with
  | nil =>
      rw [itemDifferences]
      induction others generalizing index with
      | nil => rfl
      | cons other others ih =>
          rw [addedItems, ih (index + 1) (by omega), List.length_nil, List.length_cons,
            Nat.zero_max, Nat.zero_max, flatMap_range_succ]
          simp only [hnext]
          rfl
  | cons item rest ih =>
      cases others with
      | nil =>
          rw [itemDifferences, ih (index + 1) [] (by omega), List.length_nil, List.length_cons,
            Nat.max_zero, Nat.max_zero, flatMap_range_succ]
          simp only [hnext]
          rfl
      | cons other others =>
          rw [itemDifferences, ih (index + 1) others (by omega), List.length_cons, List.length_cons,
            Nat.add_max_add_right, flatMap_range_succ]
          simp only [hnext]
          rfl

theorem sharedDifferences_eq (path : String) (fields : List (String × Value))
    (others : Entries Value) :
    sharedDifferences path fields others =
      (fields.filter fun field => Entries.has field.1 others).flatMap fun field =>
        compare (childPath path field.1) (some field.2) (Entries.get? field.1 others) := by
  induction fields with
  | nil => rfl
  | cons field rest ih =>
      obtain ⟨name, value⟩ := field
      rw [sharedDifferences, ih, List.filter_cons, Entries.has]
      cases hother : Entries.get? name others with
      | none => rfl
      | some other =>
          simp only [Option.isSome_some, if_true, List.flatMap_cons, hother]
          rfl

theorem lostFields_eq (path : String) {fields : Entries Value} (h : Entries.Ascending fields)
    (others : Entries Value) :
    lostFields path fields others =
      (fields.filter fun field => !Entries.has field.1 others).flatMap fun field =>
        compare (childPath path field.1) (Entries.get? field.1 fields)
          (Entries.get? field.1 others) := by
  rw [lostFields, List.map_eq_flatMap]
  apply List.flatMap_congr
  intro field hmem
  obtain ⟨hfield, hlacks⟩ := List.mem_filter.mp hmem
  rw [Entries.get?_of_mem h hfield, Entries.get?_eq_none_of_not_has hlacks]
  rfl

theorem addedFields_eq (path : String) (fields : Entries Value) {others : Entries Value}
    (h : Entries.Ascending others) :
    addedFields path fields others =
      (others.filter fun field => !Entries.has field.1 fields).flatMap fun field =>
        compare (childPath path field.1) (Entries.get? field.1 fields)
          (Entries.get? field.1 others) := by
  rw [addedFields, List.map_eq_flatMap]
  apply List.flatMap_congr
  intro field hmem
  obtain ⟨hfield, hlacks⟩ := List.mem_filter.mp hmem
  rw [Entries.get?_of_mem h hfield, Entries.get?_eq_none_of_not_has hlacks]
  rfl

/-- The kinds of bindings are compared as their names. -/
theorem kindDifferences_eq (path : String) (kind other : BindingKind) :
    kindDifferences path kind other =
      compare (childPath path "kind") (some (.string kind.name)) (some (.string other.name)) := by
  cases kind <;> cases other <;> rfl

/-- Two values of one form are compared part by part. -/
theorem differences_of_sameForm (path : String) {left right : Value} (hform : SameForm left right)
    (hleft : left.Ordered) (hright : right.Ordered) :
    differences path left right = (steps left right).flatMap fun step =>
      compare (childPath path step.label) (step.part? left) (step.part? right) := by
  rcases of_sameForm hform with ⟨items, others, rfl, rfl⟩ | ⟨fields, others, rfl, rfl⟩ |
    ⟨kind, inner, other, content, rfl, rfl⟩
  · rw [differences, itemDifferences_eq, steps, List.flatMap_map]
    simp only [Nat.zero_add]
    rfl
  · have hshared : sharedDifferences path fields others =
        (fields.filter fun field => Entries.has field.1 others).flatMap fun field =>
          compare (childPath path field.1) (Entries.get? field.1 fields)
            (Entries.get? field.1 others) := by
      rw [sharedDifferences_eq]
      apply List.flatMap_congr
      intro field hmem
      rw [Entries.get?_of_mem hleft.1 (List.mem_of_mem_filter hmem)]
    rw [differences, lostFields_eq path hleft.1, hshared, addedFields_eq path fields hright.1,
      steps, List.flatMap_map, List.flatMap_append, List.flatMap_append]
    rfl
  · rw [differences, kindDifferences_eq, steps, List.flatMap_cons, List.flatMap_cons,
      List.flatMap_nil, List.append_nil]
    rfl

/-- Two values that are not of one form are compared as a whole. -/
theorem differences_of_not_sameForm (path : String) {left right : Value}
    (hform : ¬SameForm left right) (h : left.shape ≠ right.shape) :
    differences path left right = [⟨path, some left, some right⟩] := by
  cases left <;> cases right <;> simp_all [differences, equals, shape, SameForm, Number.same_iff]

/-- Values of one form have one shape if all their parts have. -/
theorem shape_eq_of_parts {left right : Value} (hform : SameForm left right) (hleft : left.Ordered)
    (hright : right.Ordered)
    (h : ∀ step : Step, (step.part? left).map shape = (step.part? right).map shape) :
    left.shape = right.shape := by
  rw [← differences_eq_nil_iff "" hleft hright, differences_of_sameForm "" hform hleft hright,
    List.flatMap_eq_nil_iff]
  intro step _
  exact (compare_eq_nil_iff _ (orderedOption_part? hleft step)
    (orderedOption_part? hright step)).mpr (h step)

end Value

end FormDesigner
