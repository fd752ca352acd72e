import FormDesigner.Proofs.Value.Markup
import FormDesigner.Proofs.Value.Parts

/-!
Where two values differ.

A place is the way to a part of a value, step by step.  Comparing two values comes to the places
above which both have one form.  It lists those of them at which the values differ and below
which they do not: each once, in the order of the steps, with what stands there on both sides.
-/

namespace FormDesigner

/-- The numbers of one place are one number, the NaNs, and the zeros. -/
theorem Number.place_eq_iff {x y : Number} : x.place = y.place ↔
    x = y ∨ (x.isNaN = true ∧ y.isNaN = true) ∨ (x.isZero = true ∧ y.isZero = true) := by
  constructor
  · exact of_place_eq
  · rintro (rfl | ⟨hx, hy⟩ | ⟨hx, hy⟩)
    · rfl
    · rw [place, place, if_pos hx, if_pos hy]
    · have hx : x.magnitude = 0 := by simpa [isZero] using hx
      have hy : y.magnitude = 0 := by simpa [isZero] using hy
      simp [place, isNaN, rank, hx, hy]

/-- A difference seen from the other side. -/
def Difference.swap (difference : Difference) : Difference :=
  ⟨difference.path, difference.right, difference.left⟩

namespace Value

/-- What stands at a place, if anything does. -/
def at? (place : List Step) (value : Option Value) : Option Value :=
  place.foldl (fun reached step => reached.bind step.part?) value

/-- Comparing comes to the place: on the way to it the two values have one form. -/
def Reached : List Step → Option Value → Option Value → Prop
  | [], _, _ => True
  | step :: rest, some left, some right =>
      SameForm left right ∧ Reached rest (step.part? left) (step.part? right)
  | _ :: _, _, _ => False

/-- Two values differ at a place that comparing comes to, and at none below it. -/
structure Mismatch (left right : Option Value) (place : List Step) : Prop where
  reached : Reached place left right
  differs : (at? place left).map shape ≠ (at? place right).map shape
  minimal : ∀ below, below ≠ [] → Reached (place ++ below) left right →
    (at? (place ++ below) left).map shape = (at? (place ++ below) right).map shape

/-- Where the ways to two places part, the step to the first one is taken before the other. -/
def Precedes (left right : Option Value) (first second : List Step) : Prop :=
  ∃ (common rest others : List Step) (step other : Step) (above beside : Value),
    first = common ++ step :: rest ∧ second = common ++ other :: others ∧
      at? common left = some above ∧ at? common right = some beside ∧
        Step.Before above beside step other

/-- What is told of a place. -/
def differenceAt (path : String) (left right : Option Value) (place : List Step) : Difference :=
  ⟨place.foldl (fun text step => childPath text step.label) path, at? place left, at? place right⟩

variable {left right : Option Value} {place : List Step}

/-! ### Places below a step -/

section Below

variable {l r : Value} {step : Step}

theorem mismatch_cons_iff : Mismatch (some l) (some r) (step :: place) ↔
    SameForm l r ∧ Mismatch (step.part? l) (step.part? r) place := by
  constructor
  · rintro ⟨⟨hform, hreached⟩, hdiffers, hminimal⟩
    exact ⟨hform, hreached, hdiffers, fun below hbelow h => hminimal below hbelow ⟨hform, h⟩⟩
  · rintro ⟨hform, hreached, hdiffers, hminimal⟩
    exact ⟨⟨hform, hreached⟩, hdiffers, fun below hbelow h => hminimal below hbelow h.2⟩

theorem Precedes.cons {first second : List Step}
    (h : Precedes (step.part? l) (step.part? r) first second) :
    Precedes (some l) (some r) (step :: first) (step :: second) := by
  obtain ⟨common, rest, others, next, other, above, beside, rfl, rfl, habove, hbeside, hbefore⟩ := h
  exact ⟨step :: common, rest, others, next, other, above, beside, rfl, rfl, habove, hbeside,
    hbefore⟩

theorem precedes_of_before {other : Step} (h : Step.Before l r step other)
    (rest others : List Step) : Precedes (some l) (some r) (step :: rest) (other :: others) :=
  ⟨[], rest, others, step, other, l, r, rfl, rfl, rfl, rfl, h⟩

end Below

theorem Precedes.ne {first second : List Step} (h : Precedes left right first second) :
    first ≠ second := by
  obtain ⟨common, rest, others, step, other, above, beside, rfl, rfl, -, -, hbefore⟩ := h
  intro heq
  cases (List.cons.inj (List.append_cancel_left heq)).1
  exact Step.not_before_self above beside step hbefore

/-- The values differ at the place itself if comparing does not go on from there. -/
theorem mismatch_iff_of_whole (hwhole : ∀ step rest, ¬Reached (step :: rest) left right) :
    Mismatch left right place ↔ place = [] ∧ left.map shape ≠ right.map shape := by
  constructor
  · intro h
    cases place with
    | nil => exact ⟨rfl, h.differs⟩
    | cons step rest => exact absurd h.reached (hwhole step rest)
  · rintro ⟨rfl, hdiffers⟩
    refine ⟨trivial, hdiffers, ?_⟩
    intro below hbelow hreached
    cases below with
    | nil => exact absurd rfl hbelow
    | cons step rest => exact absurd hreached (hwhole step rest)

/-- Values of one form differ in one of their parts if they differ at all. -/
theorem not_mismatch_nil {l r : Value} (hform : SameForm l r) (hl : l.Ordered) (hr : r.Ordered) :
    ¬Mismatch (some l) (some r) [] := by
  intro h
  apply h.differs
  apply congrArg some
  apply shape_eq_of_parts hform hl hr
  intro step
  exact h.minimal [step] (List.cons_ne_nil _ _) ⟨hform, trivial⟩

/-! ### The other way round -/

theorem SameForm.symm {l r : Value} (h : SameForm l r) : SameForm r l := by
  rcases of_sameForm h with ⟨_, _, rfl, rfl⟩ | ⟨_, _, rfl, rfl⟩ | ⟨_, _, _, _, rfl, rfl⟩
  all_goals trivial

theorem Reached.symm (h : Reached place left right) : Reached place right left := by
  induction place generalizing left right with
  | nil => trivial
  | cons step rest ih =>
      cases left with
      | none => exact absurd h id
      | some l =>
          cases right with
          | none => exact absurd h id
          | some r => exact ⟨h.1.symm, ih h.2⟩

theorem Mismatch.symm (h : Mismatch left right place) : Mismatch right left place :=
  ⟨h.reached.symm, h.differs.symm, fun below hbelow hreached =>
    (h.minimal below hbelow hreached.symm).symm⟩

theorem mismatch_comm : Mismatch left right place ↔ Mismatch right left place :=
  ⟨Mismatch.symm, Mismatch.symm⟩

/-! ### All places -/

/-- The places at which two values differ, in order, and what comparing tells of them. -/
structure Mismatches (left right : Option Value) (places : List (List Step)) : Prop where
  mem_iff : ∀ place, place ∈ places ↔ Mismatch left right place
  inOrder : places.Pairwise (Precedes left right)
  compare_eq : ∀ path, compare path left right = places.map (differenceAt path left right)

theorem Mismatches.nodup {places : List (List Step)} (h : Mismatches left right places) :
    places.Nodup :=
  h.inOrder.imp Precedes.ne

theorem exists_mismatches_of_whole (hleft : OrderedOption left) (hright : OrderedOption right)
    (hwhole : ∀ step rest, ¬Reached (step :: rest) left right)
    (hcompare : left.map shape ≠ right.map shape →
      ∀ path, compare path left right = [⟨path, left, right⟩]) :
    ∃ places, Mismatches left right places := by
  by_cases hsame : left.map shape = right.map shape
  · refine ⟨[], ?_, List.Pairwise.nil, ?_⟩
    · intro place
      rw [mismatch_iff_of_whole hwhole]
      simp [hsame]
    · intro path
      exact (compare_eq_nil_iff path hleft hright).mpr hsame
  · refine ⟨[[]], ?_, List.pairwise_singleton _ _, ?_⟩
    · intro place
      rw [mismatch_iff_of_whole hwhole, List.mem_singleton]
      simp [hsame]
    · exact hcompare hsame

/-- Values differ below a step only if it leads to a part of one of them. -/
theorem mem_steps_of_mismatch {l r : Value} (hform : SameForm l r) {step : Step}
    (h : Mismatch (step.part? l) (step.part? r) place) : step ∈ steps l r := by
  cases hleft : step.part? l with
  | some part => exact mem_steps hform (Or.inl hleft)
  | none =>
      cases hright : step.part? r with
      | some part => exact mem_steps hform (Or.inr hright)
      | none =>
          rw [hleft, hright] at h
          exact absurd rfl h.differs

/-- The places of two values of one form, from those of their parts. -/
theorem mismatches_of_parts {l r : Value} (hform : SameForm l r) (hl : l.Ordered) (hr : r.Ordered)
    {below : Step → List (List Step)}
    (hbelow : ∀ step : Step, Mismatches (step.part? l) (step.part? r) (below step)) :
    Mismatches (some l) (some r)
      ((steps l r).flatMap fun step => (below step).map (step :: ·)) where
  mem_iff place := by
    rw [List.mem_flatMap]
    cases place with
    | nil =>
        constructor
        · rintro ⟨step, -, hmem⟩
          simp at hmem
        · exact fun h => absurd h (not_mismatch_nil hform hl hr)
    | cons step rest =>
        rw [mismatch_cons_iff, ← (hbelow step).mem_iff]
        constructor
        · rintro ⟨other, hother, hmem⟩
          obtain ⟨found, hfound, heq⟩ := List.mem_map.mp hmem
          cases heq
          exact ⟨hform, hfound⟩
        · rintro ⟨-, hmem⟩
          exact ⟨step, mem_steps_of_mismatch hform ((hbelow step).mem_iff rest |>.mp hmem),
            List.mem_map_of_mem hmem⟩
  inOrder := by
    rw [List.pairwise_flatMap]
    constructor
    · intro step hstep
      rw [List.pairwise_map]
      exact (hbelow step).inOrder.imp Precedes.cons
    · refine (pairwise_steps hl hr).imp ?_
      intro step other hbefore first hfirst second hsecond
      obtain ⟨rest, -, rfl⟩ := List.mem_map.mp hfirst
      obtain ⟨others, -, rfl⟩ := List.mem_map.mp hsecond
      exact precedes_of_before hbefore rest others
  compare_eq path := by
    rw [compare, differences_of_sameForm path hform hl hr, List.map_flatMap]
    congr 1
    funext step
    rw [(hbelow step).compare_eq, List.map_map]
    rfl

theorem exists_mismatches (left right : Option Value) (hleft : OrderedOption left)
    (hright : OrderedOption right) : ∃ places, Mismatches left right places := by
  induction left, right using induction_on_parts with
  | absent_left right =>
      apply exists_mismatches_of_whole hleft hright
      · exact fun step rest hreached => hreached
      · intro hdiffers path
        cases right with
        | none => exact absurd rfl hdiffers
        | some r => rfl
  | absent_right left =>
      apply exists_mismatches_of_whole hleft hright
      · cases left with
        | none => exact fun step rest hreached => hreached
        | some l => exact fun step rest hreached => hreached
      · intro hdiffers path
        cases left with
        | none => exact absurd rfl hdiffers
        | some l => rfl
  | present l r ih =>
      have hl := hleft l rfl
      have hr := hright r rfl
      by_cases hform : SameForm l r
      · choose below hbelow using fun step =>
          ih step (orderedOption_part? hl step) (orderedOption_part? hr step)
        exact ⟨_, mismatches_of_parts hform hl hr hbelow⟩
      · apply exists_mismatches_of_whole hleft hright
        · exact fun step rest hreached => hform hreached.1
        · intro hdiffers path
          exact differences_of_not_sameForm path hform fun hsame => hdiffers (congrArg some hsame)

/-! ### What comparing tells -/

/-- From the other side, the same places are told of. -/
theorem compare_perm_swap (path : String) (hleft : OrderedOption left)
    (hright : OrderedOption right) :
    (compare path right left).Perm ((compare path left right).map Difference.swap) := by
  obtain ⟨places, hplaces⟩ := exists_mismatches left right hleft hright
  obtain ⟨others, hothers⟩ := exists_mismatches right left hright hleft
  have hperm : others.Perm places := by
    rw [List.perm_ext_iff_of_nodup hothers.nodup hplaces.nodup]
    intro place
    rw [hothers.mem_iff, hplaces.mem_iff, mismatch_comm]
  rw [hothers.compare_eq, hplaces.compare_eq, List.map_map]
  exact hperm.map (differenceAt path right left)

/-- Comparing is an equivalence of values that may be absent. -/
theorem equivalence_compareInto (path : String) (found : List Difference) :
    Equivalence fun left right : Option Datum =>
      (compareInto path (left.map Datum.value) (right.map Datum.value) found).1 = true := by
  have h := (equivalence_compare path).comap fun datum : Option Datum =>
    (⟨datum.map Datum.value, orderedOption_value datum⟩ : { value // OrderedOption value })
  simpa only [compareInto, List.isEmpty_iff] using h

/-- Comparing answers whether two values have one shape, and adds to what was found one
difference for each place where they differ, in order.  Its answer is an equivalence, and from
the other side it adds the same differences, each turned round and in another order.  Of two
numbers, the shape tells apart all but the two zeros and the NaNs. -/
theorem compareInto_adds_mismatches (path : String) (found : List Difference)
    (left right : Option Datum) :
    let before := left.map Datum.value
    let after := right.map Datum.value
    ((compareInto path before after found).1 = true ↔ before.map shape = after.map shape) ∧
    (∃ places : List (List Step), places.Nodup ∧
      (∀ place, place ∈ places ↔ Mismatch before after place) ∧
      places.Pairwise (Precedes before after) ∧
      (compareInto path before after found).2 =
        found ++ places.map (differenceAt path before after)) ∧
    (∃ added turned : List Difference,
      (compareInto path before after found).2 = found ++ added ∧
      (compareInto path after before found).2 = found ++ turned ∧
      turned.Perm (added.map Difference.swap)) ∧
    (Equivalence fun left right : Option Datum =>
      (compareInto path (left.map Datum.value) (right.map Datum.value) found).1 = true) ∧
    ∀ x y : Number, (number x).shape = (number y).shape ↔
      x = y ∨ (x.isNaN = true ∧ y.isNaN = true) ∨ (x.isZero = true ∧ y.isZero = true) := by
  intro before after
  have hleft : OrderedOption before := orderedOption_value left
  have hright : OrderedOption after := orderedOption_value right
  refine ⟨?_, ?_, ?_, equivalence_compareInto path found, ?_⟩
  · exact List.isEmpty_iff.trans (compare_eq_nil_iff path hleft hright)
  · obtain ⟨places, hplaces⟩ := exists_mismatches before after hleft hright
    exact ⟨places, hplaces.nodup, hplaces.mem_iff, hplaces.inOrder,
      congrArg (found ++ ·) (hplaces.compare_eq path)⟩
  · exact ⟨_, _, rfl, rfl, compare_perm_swap path hleft hright⟩
  · intro x y
    exact (Shape.number.injEq x.place y.place).to_iff.trans Number.place_eq_iff

/-- A record with a field of its own and a longer list. -/
def narrowCard : Value :=
  .record [("align", .string "left"), ("items", .list [.bool true, .number .nan, .null]),
    ("label", .binding .literal .null), ("width", .number .zero)]

/-- A record that differs in all but a NaN and the sign of a zero. -/
def wideCard : Value :=
  .record [("items", .list [.bool false, .number (.ofMagnitude true 0x7FF8000000000001)]),
    ("label", .binding .expression .null), ("style", .null),
    ("width", .number (.ofMagnitude true 0))]

/-- They differ at five places: in the field of the one, in two items, in a kind, and in the
field of the other. -/
theorem compareInto_adds_mismatches_of_cards : ∃ places : List (List Step),
    (∀ place, place ∈ places ↔ Mismatch (some narrowCard) (some wideCard) place) ∧
      places.map (differenceAt "card" (some narrowCard) (some wideCard)) =
        [⟨"card.align", some (.string "left"), none⟩,
          ⟨"card.items.0", some (.bool true), some (.bool false)⟩,
          ⟨"card.items.2", some .null, none⟩,
          ⟨"card.label.kind", some (.string "value"), some (.string "binding")⟩,
          ⟨"card.style", none, some .null⟩] := by
  obtain ⟨-, ⟨places, -, hmem, -, hadds⟩, -⟩ := compareInto_adds_mismatches "card" []
    (some ⟨narrowCard, by decide⟩) (some ⟨wideCard, by decide⟩)
  refine ⟨places, hmem, hadds.symm.trans ?_⟩
  rfl

end Value

end FormDesigner
