import FormDesigner.Proofs.Answers
import FormDesigner.Proofs.Domain.Words

/-!
Domains written as text.

A text describes a domain by the rules of its words: `type`, the name of a base type, and pairs of
an operator and an operand that can be read for it.  Reading a text succeeds exactly if it
describes a domain, and the domain admits the values of the base type that satisfy every pair.
-/

namespace FormDesigner

namespace Domain

/-- A base type that can be named, and the shape of its values. -/
inductive BaseNamed : String → BaseWord → Scalar → Prop where
  | number : BaseNamed "number" .number .number
  | float : BaseNamed "float" .float .number
  | string : BaseNamed "string" .string .string

/-- What can be said of a value. -/
inductive Operator where
  | below
  | above
  | length

def Operator.name : Operator → String
  | .below => "<"
  | .above => ">"
  | .length => "length"

/-- The number that the operand of a comparison stands for.  On `number` it is an integer of 64
bits, which counts as the number nearest to it; elsewhere it is any number. -/
def bound? (base : BaseWord) (operand : String) : Option Number :=
  match base with
  | .number => (readInt64? operand.toList).map Number.ofInt
  | _ => Number.read? operand.toList

/-- The operand can be read for the operator. -/
def Readable (base : BaseWord) : Operator × String → Prop
  | (.below, operand) => (bound? base operand).isSome = true
  | (.above, operand) => (bound? base operand).isSome = true
  | (.length, operand) => (readUInt64? operand.toList).isSome = true

/-- A value is as a pair of an operator and an operand says. -/
def Satisfies (base : BaseWord) (value : Value) : Operator × String → Prop
  | (.below, operand) =>
      ∃ x bound, value = .number x ∧ bound? base operand = some bound ∧ x.less bound = true
  | (.above, operand) =>
      ∃ x bound, value = .number x ∧ bound? base operand = some bound ∧ bound.less x = true
  | (.length, operand) =>
      ∃ limit, readUInt64? operand.toList = some limit ∧
        ((∃ text, value = .string text ∧ text.length ≤ limit) ∨
          ∃ items, value = .list items ∧ items.length ≤ limit)

/-- Pairs, one word after the other. -/
def spread (pairs : List (Operator × String)) : List String :=
  pairs.flatMap fun pair => [pair.1.name, pair.2]

/-- What a text describes: a base type, the shape of its values, and pairs that can be read. -/
inductive Describes (text : String) : BaseWord → Scalar → List (Operator × String) → Prop where
  | intro {name : String} {base : BaseWord} {scalar : Scalar} {pairs : List (Operator × String)} :
      Spells text.toList ("type" :: name :: spread pairs) → BaseNamed name base scalar →
      (∀ pair ∈ pairs, Readable base pair) → Describes text base scalar pairs

/-! ### One pair -/

/-- The constraint that a pair stands for. -/
def meaning? (base : BaseWord) : Operator × String → Option Constraint
  | (.below, operand) => (bound? base operand).map .lessThan
  | (.above, operand) => (bound? base operand).map .greaterThan
  | (.length, operand) => (readUInt64? operand.toList).map .lengthAtMost

section Pairs

variable {base : BaseWord} {pair : Operator × String} {constraint : Constraint}

theorem readable_iff : Readable base pair ↔ ∃ constraint, meaning? base pair = some constraint := by
  obtain ⟨operator, operand⟩ := pair
  rw [← Option.isSome_iff_exists]
  cases operator <;> simp only [Readable, meaning?, Option.isSome_map]

/-- What a constraint says of a value is what its pair says. -/
theorem holds_iff_satisfies (h : meaning? base pair = some constraint) (value : Value) :
    constraint.holds value = true ↔ Satisfies base value pair := by
  obtain ⟨operator, operand⟩ := pair
  cases operator with
  | below =>
      obtain ⟨bound, hbound, rfl⟩ := Option.map_eq_some_iff.mp h
      cases value <;> simp [Satisfies, Constraint.holds, Value.number?, hbound]
  | above =>
      obtain ⟨bound, hbound, rfl⟩ := Option.map_eq_some_iff.mp h
      cases value <;> simp [Satisfies, Constraint.holds, Value.number?, hbound]
  | length =>
      obtain ⟨limit, hlimit, rfl⟩ := Option.map_eq_some_iff.mp h
      cases value <;> simp [Satisfies, Constraint.holds, Constraint.fits, hlimit]

theorem readBound_ok_iff {operand : String} {bound : Number} :
    readBound base operand = .ok bound ↔ bound? base operand = some bound := by
  unfold readBound bound?
  cases base with
  | number => cases readInt64? operand.toList <;> simp
  | float => cases Number.read? operand.toList <;> simp
  | string => cases Number.read? operand.toList <;> simp
  | boolean => cases Number.read? operand.toList <;> simp

theorem map_readBound_ok_iff {operand : String} {make : Number → Constraint} :
    (readBound base operand).map make = .ok constraint ↔
      (bound? base operand).map make = some constraint := by
  cases hbound : readBound base operand with
  | error failure =>
      have hnone : bound? base operand = none := by
        rw [Option.eq_none_iff_forall_ne_some]
        intro bound hsome
        cases hbound.symm.trans (readBound_ok_iff.mpr hsome)
      rw [hnone]
      constructor <;> rintro ⟨⟩
  | ok bound =>
      rw [readBound_ok_iff.mp hbound]
      constructor <;> rintro ⟨⟩ <;> rfl

theorem readConstraint_name_ok_iff {operator : Operator} {operand : String} :
    readConstraint base operator.name operand = .ok constraint ↔
      meaning? base (operator, operand) = some constraint := by
  cases operator with
  | below => exact map_readBound_ok_iff
  | above => exact map_readBound_ok_iff
  | length =>
      have hbelow : ¬Operator.length.name = "<" := by decide
      have habove : ¬Operator.length.name = ">" := by decide
      have hlength : Operator.length.name = "length" := rfl
      rw [readConstraint, if_neg hbelow, if_neg habove, if_pos hlength, meaning?]
      cases readUInt64? operand.toList <;> simp

/-- No other word is an operator. -/
theorem exists_name_of_readConstraint_ok {operator operand : String}
    (h : readConstraint base operator operand = .ok constraint) :
    ∃ known : Operator, operator = known.name := by
  unfold readConstraint at h
  split at h
  · next hbelow => exact ⟨.below, hbelow⟩
  · split at h
    · next habove => exact ⟨.above, habove⟩
    · split at h
      · next hlength => exact ⟨.length, hlength⟩
      · cases h

end Pairs

/-! ### All pairs -/

section Words

variable {base : BaseWord} {scalar : Scalar} {constraints : List Constraint}

/-- The words behind the base type are read exactly if they are pairs that can be read. -/
theorem readConstraints_spread_ok_iff {pairs : List (Operator × String)} :
    readConstraints base (spread pairs) = .ok constraints ↔
      List.Forall₂ (fun pair constraint => meaning? base pair = some constraint) pairs
        constraints := by
  induction pairs generalizing constraints with
  | nil =>
      constructor
      · rintro ⟨⟩
        exact .nil
      · rintro ⟨⟩
        rfl
  | cons pair rest ih =>
      obtain ⟨operator, operand⟩ := pair
      have hspread : spread ((operator, operand) :: rest) =
          operator.name :: operand :: spread rest := rfl
      rw [hspread, readConstraints]
      constructor
      · intro h
        obtain ⟨constraint, hconstraint, hmore⟩ := Answer.of_bind_ok h
        obtain ⟨others, hothers, hlast⟩ := Answer.of_bind_ok hmore
        cases hlast
        exact .cons (readConstraint_name_ok_iff.mp hconstraint) (ih.mp hothers)
      · rintro (_ | ⟨hconstraint, hothers⟩)
        rw [readConstraint_name_ok_iff.mpr hconstraint, ih.mpr hothers]
        rfl

theorem exists_spread_of_readConstraints_ok :
    ∀ {words : List String} {constraints : List Constraint}, words.length % 2 = 0 →
      readConstraints base words = .ok constraints → ∃ pairs, words = spread pairs
  | [], _, _, _ => ⟨[], rfl⟩
  | [_], _, heven, _ => absurd heven Nat.one_ne_zero
  | operator :: operand :: rest, constraints, heven, h => by
      obtain ⟨constraint, hconstraint, hmore⟩ := Answer.of_bind_ok h
      obtain ⟨others, hothers, -⟩ := Answer.of_bind_ok hmore
      obtain ⟨known, rfl⟩ := exists_name_of_readConstraint_ok hconstraint
      have hrest : rest.length % 2 = 0 := by
        simp only [List.length_cons] at heven
        omega
      obtain ⟨pairs, rfl⟩ := exists_spread_of_readConstraints_ok hrest hothers
      exact ⟨(known, operand) :: pairs, rfl⟩

theorem length_spread (pairs : List (Operator × String)) :
    (spread pairs).length % 2 = 0 := by
  induction pairs with
  | nil => rfl
  | cons pair rest ih =>
      change ((spread rest).length + 1 + 1) % 2 = 0
      omega

/-- Joined constraints hold together. -/
theorem admits_plain_iff (value : Value) :
    (Domain.plain scalar (joinConstraints constraints)).admits value = true ↔
      Scalar.of? value = some scalar ∧
        ∀ constraint ∈ constraints, constraint.holds value = true := by
  have hjoin : (joinConstraints constraints).all (fun constraint => constraint.holds value) = true ↔
      ∀ constraint ∈ constraints, constraint.holds value = true := by
    match constraints with
    | [] => simp [joinConstraints]
    | [constraint] => simp [joinConstraints]
    | first :: second :: rest =>
        simp [joinConstraints, Constraint.holds, Constraint.holdsAll_eq_all]
  rw [← hjoin, admits, Bool.and_eq_true, decide_eq_true_iff]
  rfl

theorem baseNamed_iff {name : String} :
    BaseNamed name base scalar ↔
      BaseWord.ofName? name = some base ∧ base.scalar? = some scalar := by
  constructor
  · rintro ⟨⟩ <;> exact ⟨rfl, rfl⟩
  · rintro ⟨hname, hscalar⟩
    unfold BaseWord.ofName? at hname
    repeat' split at hname
    · next h =>
        cases hname
        cases hscalar
        rw [h]
        exact .number
    · next h =>
        cases hname
        cases hscalar
        rw [h]
        exact .float
    · next h =>
        cases hname
        cases hscalar
        rw [h]
        exact .string
    · cases hname
      cases hscalar
    · cases hname

theorem of_ofWords_ok {words : List String} {domain : Domain} (h : ofWords words = .ok domain) :
    ∃ name base scalar pairs constraints, words = "type" :: name :: spread pairs ∧
      BaseNamed name base scalar ∧ readConstraints base (spread pairs) = .ok constraints ∧
      domain = .plain scalar (joinConstraints constraints) := by
  unfold ofWords at h
  split at h
  · cases h
  · next hlength =>
      split at h
      · next name rest =>
          split at h
          · cases h
          · next base hbase =>
              obtain ⟨constraints, hconstraints, hmore⟩ := Answer.of_bind_ok h
              have heven : rest.length % 2 = 0 := by
                simp only [List.length_cons] at hlength
                omega
              obtain ⟨pairs, rfl⟩ := exists_spread_of_readConstraints_ok heven hconstraints
              split at hmore
              · next scalar hscalar =>
                  cases hmore
                  exact ⟨name, base, scalar, pairs, constraints, rfl,
                    baseNamed_iff.mpr ⟨hbase, hscalar⟩, hconstraints, rfl⟩
              · cases hmore
      · cases h

theorem ofWords_ok {name : String} {pairs : List (Operator × String)}
    (hbase : BaseNamed name base scalar)
    (h : readConstraints base (spread pairs) = .ok constraints) :
    ofWords ("type" :: name :: spread pairs) =
      .ok (.plain scalar (joinConstraints constraints)) := by
  obtain ⟨hname, hscalar⟩ := baseNamed_iff.mp hbase
  have heven : ¬("type" :: name :: spread pairs).length % 2 ≠ 0 := by
    have hpairs := length_spread pairs
    simp only [List.length_cons]
    omega
  rw [ofWords, if_neg heven]
  simp only [hname, h, hscalar]
  rfl

theorem forall_holds_iff {pairs : List (Operator × String)}
    (h : List.Forall₂ (fun pair constraint => meaning? base pair = some constraint) pairs
      constraints) (value : Value) :
    (∀ constraint ∈ constraints, constraint.holds value = true) ↔
      ∀ pair ∈ pairs, Satisfies base value pair := by
  induction h with
  | nil => simp
  | cons hmeaning _ ih =>
      rw [List.forall_mem_cons, List.forall_mem_cons, holds_iff_satisfies hmeaning, ih]

/-- Pairs can be read exactly if all of them stand for constraints. -/
theorem forall_readable_iff {pairs : List (Operator × String)} :
    (∀ pair ∈ pairs, Readable base pair) ↔ ∃ constraints,
      List.Forall₂ (fun pair constraint => meaning? base pair = some constraint) pairs
        constraints := by
  induction pairs with
  | nil => exact ⟨fun _ => ⟨[], .nil⟩, fun _ => nofun⟩
  | cons pair rest ih =>
      rw [List.forall_mem_cons, readable_iff, ih]
      constructor
      · rintro ⟨⟨constraint, hmeaning⟩, others, hothers⟩
        exact ⟨constraint :: others, .cons hmeaning hothers⟩
      · rintro ⟨_, _ | ⟨hmeaning, hothers⟩⟩
        exact ⟨⟨_, hmeaning⟩, _, hothers⟩

/-- A text that describes a domain is read as the pairs say. -/
theorem Describes.exists_parse_ok {text : String} {pairs : List (Operator × String)}
    (h : Describes text base scalar pairs) :
    ∃ constraints,
      List.Forall₂ (fun pair constraint => meaning? base pair = some constraint) pairs constraints ∧
      parse text = .ok (.plain scalar (joinConstraints constraints)) := by
  obtain ⟨hspells, hbase, hreadable⟩ := h
  obtain ⟨constraints, hconstraints⟩ := forall_readable_iff.mp hreadable
  refine ⟨constraints, hconstraints, ?_⟩
  rw [parse, words_ok_iff.mpr hspells]
  exact ofWords_ok hbase (readConstraints_spread_ok_iff.mpr hconstraints)

theorem exists_describes_of_parse_ok {text : String} {domain : Domain}
    (h : parse text = .ok domain) : ∃ base scalar pairs, Describes text base scalar pairs := by
  obtain ⟨found, hwords, hread⟩ := Answer.of_bind_ok h
  obtain ⟨name, base, scalar, pairs, constraints, rfl, hbase, hconstraints, -⟩ :=
    of_ofWords_ok hread
  have hreadable := forall_readable_iff.mpr ⟨_, readConstraints_spread_ok_iff.mp hconstraints⟩
  exact ⟨base, scalar, pairs, .intro (words_ok_iff.mp hwords) hbase hreadable⟩

end Words

/-- Reading a text succeeds exactly if it describes a domain: `type`, `number`, `float` or
`string`, and pairs that can be read.  The domain then admits the values of the base type that
satisfy all pairs.  And words in double quotes are found again, whatever white space stands
between them. -/
theorem parse_describes :
    (∀ text, (∃ domain, parse text = .ok domain) ↔
      ∃ base scalar pairs, Describes text base scalar pairs) ∧
    (∀ text base scalar pairs domain, Describes text base scalar pairs →
      parse text = .ok domain → ∀ value, domain.admits value = true ↔
        Scalar.of? value = some scalar ∧ ∀ pair ∈ pairs, Satisfies base value pair) ∧
    ∀ (front : List Char) (entries : List (String × List Char)),
      (∀ c ∈ front, isBlank c = true) →
      (∀ entry ∈ entries, '"' ∉ entry.1.toList) →
      (∀ entry ∈ entries, ∀ c ∈ entry.2, isBlank c = true) →
      words (String.ofList (front ++ entries.flatMap quoteWord)) = .ok (entries.map Prod.fst) := by
  refine ⟨fun text => ⟨?_, ?_⟩, ?_, ?_⟩
  · rintro ⟨domain, h⟩
    exact exists_describes_of_parse_ok h
  · rintro ⟨base, scalar, pairs, h⟩
    obtain ⟨constraints, -, hparse⟩ := h.exists_parse_ok
    exact ⟨_, hparse⟩
  · intro text base scalar pairs domain hdescribes hparse value
    obtain ⟨constraints, hmeanings, hfound⟩ := hdescribes.exists_parse_ok
    cases hfound.symm.trans hparse
    rw [admits_plain_iff, forall_holds_iff hmeanings]
  · intro front entries hfront hwords hgaps
    rw [words_ok_iff, String.toList_ofList]
    exact (spells_quoteWords hwords hgaps).blanks hfront

/-- A range of numbers, and words of which one is empty and one has a space inside. -/
theorem parse_describes_of_range :
    Describes "type \"number\" < 10 > -3" .number .number [(.below, "10"), (.above, "-3")] ∧
    (∃ domain, parse "type \"number\" < 10 > -3" = .ok domain ∧
      domain.admits (.number (Number.ofInt 5)) = true) ∧
    words " \"\" \"a b\"\t\"x\"" = .ok ["", "a b", "x"] := by
  have hdescribes :
      Describes "type \"number\" < 10 > -3" .number .number [(.below, "10"), (.above, "-3")] :=
    .intro (words_ok_iff.mp rfl) .number
      (List.forall_mem_cons.mpr ⟨rfl, List.forall_mem_singleton.mpr rfl⟩)
  have hadmits : Scalar.of? (.number (Number.ofInt 5)) = some .number ∧
      ∀ pair ∈ [(Operator.below, "10"), (Operator.above, "-3")],
        Satisfies .number (.number (Number.ofInt 5)) pair := by
    refine ⟨rfl, List.forall_mem_cons.mpr ⟨?_, List.forall_mem_singleton.mpr ?_⟩⟩
    · exact ⟨_, _, rfl, rfl, by decide⟩
    · exact ⟨_, _, rfl, rfl, by decide⟩
  obtain ⟨domain, hparse⟩ := (parse_describes.1 _).mpr ⟨_, _, _, hdescribes⟩
  refine ⟨hdescribes, ⟨domain, hparse, ?_⟩, ?_⟩
  · exact (parse_describes.2.1 _ _ _ _ _ hdescribes hparse _).mpr hadmits
  · have hspace : ∀ c ∈ [' '], isBlank c = true := List.forall_mem_singleton.mpr rfl
    have htab : ∀ c ∈ ['\t'], isBlank c = true := List.forall_mem_singleton.mpr rfl
    have hnone : ∀ c ∈ ([] : List Char), isBlank c = true := List.forall_mem_nil _
    exact parse_describes.2.2 [' '] [("", [' ']), ("a b", ['\t']), ("x", [])] hspace (by decide)
      (List.forall_mem_cons.mpr ⟨hspace,
        List.forall_mem_cons.mpr ⟨htab, List.forall_mem_singleton.mpr hnone⟩⟩)

end Domain

end FormDesigner
