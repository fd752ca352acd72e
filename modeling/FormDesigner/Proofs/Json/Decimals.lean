import FormDesigner.Proofs.Json.Words
import FormDesigner.Proofs.Number.Shortest

/-!
Decimals that are read back as numbers.

The text of a number is read in steps of machine precision, so it may come back as another
number.  It never comes back as no number: every text of a finite number is a literal of the
value of its shortest decimal, and that is read as a finite number.
-/

namespace FormDesigner

/-- A text that starts with a digit has no sign. -/
theorem splitSign_of_head {text : List Char} {c : Char} (hhead : text.head? = some c)
    (hdigit : c.isDigit = true) : splitSign text = (none, text) := by
  unfold splitSign
  split
  · cases hhead
    cases hdigit
  · cases hhead
    cases hdigit
  · rfl

theorem splitDigits_append {digits rest : List Char} (hdigits : ∀ c ∈ digits, c.isDigit = true)
    (hrest : ∀ c ∈ rest.head?, c.isDigit = false) :
    splitDigits (digits ++ rest) = (digits, rest) := by
  have hnone : rest.takeWhile Char.isDigit = [] ∧ rest.dropWhile Char.isDigit = rest := by
    cases rest with
    | nil => exact ⟨rfl, rfl⟩
    | cons c rest =>
        have hc := hrest c rfl
        constructor
        · exact List.takeWhile_cons_of_neg (by simp [hc])
        · exact List.dropWhile_cons_of_neg (by simp [hc])
  rw [splitDigits, List.takeWhile_append_of_pos hdigits, List.dropWhile_append_of_pos hdigits,
    hnone.1, hnone.2, List.append_nil]

namespace DecimalLiteral

section Parts

variable {text whole fraction tail : List Char} {sign : Option Char} {exponent : Option Int}
  (hwhole : ∀ c ∈ whole, c.isDigit = true) (htail : ∀ c ∈ tail.head?, c.isDigit = false)
  (hexponent : readExponent tail = some exponent)

include hwhole htail hexponent

theorem read?_pointed (hfraction : ∀ c ∈ fraction, c.isDigit = true)
    (hsign : splitSign text = (sign, whole ++ '.' :: (fraction ++ tail))) :
    read? text = some ⟨sign, whole, some fraction, exponent⟩ := by
  have hpoint : ∀ c ∈ ('.' :: (fraction ++ tail)).head?, c.isDigit = false := by
    rintro c ⟨⟩
    rfl
  rw [read?, hsign]
  dsimp only
  rw [splitDigits_append hwhole hpoint]
  dsimp only
  rw [splitFraction, splitDigits_append hfraction htail]
  dsimp only
  rw [hexponent]
  rfl

theorem read?_unpointed (hpoint : tail.head? ≠ some '.')
    (hsign : splitSign text = (sign, whole ++ tail)) :
    read? text = some ⟨sign, whole, none, exponent⟩ := by
  have hfraction : splitFraction tail = (none, tail) := by
    unfold splitFraction
    split
    · exact absurd rfl hpoint
    · rfl
  rw [read?, hsign]
  dsimp only
  rw [splitDigits_append hwhole htail]
  dsimp only
  rw [hfraction]
  dsimp only
  rw [hexponent]
  rfl

end Parts

/-- The exponent of a written decimal is read back. -/
theorem readExponent_toDigits (lead : Int) :
    readExponent ('e' :: ((if lead < 0 then ['-'] else ['+']) ++ Nat.toDigits 10 lead.natAbs)) =
      some (some lead) := by
  have hall : (Nat.toDigits 10 lead.natAbs).all Char.isDigit = true := by
    rw [List.all_eq_true]
    exact fun c hmem => Nat.isDigit_of_mem_toDigits (by decide) (by decide) hmem
  have hnonempty : (Nat.toDigits 10 lead.natAbs).isEmpty = false :=
    List.isEmpty_eq_false_iff.mpr Nat.toDigits_ne_nil
  split
  · next hnegative =>
      simp [readExponent, splitSign, hall, hnonempty, digitsValue_toDigits, abs_of_neg hnegative]
  · next hnatural =>
      simp [readExponent, splitSign, hall, hnonempty, digitsValue_toDigits, not_lt.mp hnatural]

/-- The parts of a literal that is a JSON number, but no integer. -/
structure Regular (literal : DecimalLiteral) : Prop where
  nonempty : literal.whole ≠ []
  zero : literal.whole.head? = some '0' → literal.whole.length = 1
  fraction : literal.fraction ≠ some []
  parts : literal.fraction.isSome = true ∨ literal.exponent.isSome = true
  fits : digitsValue literal.whole < 2 ^ 64

theorem Regular.signed {literal : DecimalLiteral} (h : literal.Regular) (sign : Option Char) :
    Regular { literal with sign } :=
  ⟨h.nonempty, h.zero, h.fraction, h.parts, h.fits⟩

theorem Regular.ofLiteral? {literal : DecimalLiteral} (h : literal.Regular)
    (hsign : literal.sign ≠ some '+') :
    Json.ofLiteral? literal = some (Json.ofFinite literal.toNumberStepwise) := by
  have hnonempty := h.nonempty
  have hzero := h.zero
  have hfraction := h.fraction
  have hparts : ¬(literal.fraction.isNone = true ∧ literal.exponent.isNone = true) := by
    rintro ⟨hnone, hmissing⟩
    rw [Option.isNone_iff_eq_none] at hnone hmissing
    simpa [hnone, hmissing] using h.parts
  unfold Json.ofLiteral?
  dsimp only
  rw [if_neg, if_neg]
  · simpa using hparts
  · simpa [hsign, hnonempty, hfraction] using hzero

end DecimalLiteral

namespace Decimal

/-- How the text of a decimal is read, behind any sign. -/
structure Spells (decimal : Decimal) (text : List Char) (literal : DecimalLiteral) : Prop where
  regular : literal.Regular
  value : literal.value = decimal.value
  unsigned : ∀ c ∈ text.head?, c.isDigit = true
  read : ∀ {signed : List Char} {sign : Option Char}, splitSign signed = (sign, text) →
    DecimalLiteral.read? signed = some { literal with sign }

variable {decimal : Decimal}

theorem isDigit_toDigits (n : Nat) : ∀ c ∈ Nat.toDigits 10 n, c.isDigit = true :=
  fun _ hmem => Nat.isDigit_of_mem_toDigits (by decide) (by decide) hmem

theorem isDigit_zero : ∀ c ∈ ['0'], c.isDigit = true := List.forall_mem_singleton.mpr rfl

theorem lt_pow_length_toDigits (n : Nat) : n < 10 ^ (Nat.toDigits 10 n).length :=
  (Nat.length_toDigits_le_iff (by decide) Nat.length_toDigits_pos).mp (Nat.le_refl _)

/-- The digits in front of a place. -/
theorem digitsValue_take_lt (n : Nat) {front : Nat} (h : front ≤ (Nat.toDigits 10 n).length) :
    digitsValue ((Nat.toDigits 10 n).take front) < 10 ^ front := by
  have hall := lt_pow_length_toDigits n
  have hparts :=
    digitsValue_append ((Nat.toDigits 10 n).take front) ((Nat.toDigits 10 n).drop front)
  rw [List.take_append_drop, digitsValue_toDigits, List.length_drop] at hparts
  have hlength :
      (Nat.toDigits 10 n).length = front + ((Nat.toDigits 10 n).length - front) := by omega
  have hless : digitsValue ((Nat.toDigits 10 n).take front) *
      10 ^ ((Nat.toDigits 10 n).length - front) <
        10 ^ front * 10 ^ ((Nat.toDigits 10 n).length - front) := by
    rw [← Nat.pow_add, ← hlength]
    omega
  exact Nat.lt_of_mul_lt_mul_right hless

theorem digitsValue_replicate (places : Nat) : digitsValue (List.replicate places '0') = 0 :=
  Nat.ofDigitChars_replicate_zero.trans (Nat.mul_zero _)

/-- A decimal that is written with a point and no exponent. -/
theorem spells_point {whole fraction : List Char} (hnonempty : whole ≠ [])
    (hwhole : ∀ c ∈ whole, c.isDigit = true) (hmore : fraction ≠ [])
    (hfraction : ∀ c ∈ fraction, c.isDigit = true)
    (hzero : whole.head? = some '0' → whole.length = 1) (hfits : digitsValue whole < 2 ^ 64)
    (hvalue : (digitsValue (whole ++ fraction) : ℚ) * 10 ^ (0 - (fraction.length : Int)) =
      decimal.value) :
    decimal.Spells (whole ++ '.' :: fraction) ⟨none, whole, some fraction, none⟩ where
  regular := ⟨hnonempty, hzero, fun hnone => hmore (Option.some.inj hnone), .inl rfl, hfits⟩
  value := hvalue
  unsigned := by
    intro c hmem
    rw [List.head?_append_of_ne_nil _ hnonempty] at hmem
    exact hwhole c (List.mem_of_mem_head? hmem)
  read := by
    intro signed sign hsign
    have htail : ∀ c ∈ ([] : List Char).head?, c.isDigit = false := by simp
    have hexponent : DecimalLiteral.readExponent [] = some none := rfl
    exact DecimalLiteral.read?_pointed hwhole htail hexponent hfraction (by rwa [List.append_nil])

section Forms

variable {digits : Nat}

/-- Whole digits are followed by a zero behind the point. -/
theorem spells_natural (h : 0 < digits) {places : Nat}
    (hshort : (Nat.toDigits 10 digits).length + places ≤ 16) :
    Spells ⟨digits, places⟩ (Nat.toDigits 10 digits ++ List.replicate places '0' ++ '.' :: ['0'])
      ⟨none, Nat.toDigits 10 digits ++ List.replicate places '0', some ['0'], none⟩ := by
  have hvalue : digitsValue (Nat.toDigits 10 digits ++ List.replicate places '0') =
      digits * 10 ^ places := by
    rw [digitsValue_append, digitsValue_toDigits, digitsValue_replicate, List.length_replicate,
      Nat.add_zero]
  apply spells_point
  · exact List.append_ne_nil_of_left_ne_nil Nat.toDigits_ne_nil _
  · intro c hmem
    rcases List.mem_append.mp hmem with hmem | hmem
    · exact isDigit_toDigits digits c hmem
    · rw [List.eq_of_mem_replicate hmem]
      rfl
  · exact List.cons_ne_nil _ _
  · exact isDigit_zero
  · rw [List.head?_append_of_ne_nil _ Nat.toDigits_ne_nil]
    exact fun hzero => absurd hzero (head?_toDigits_ne_zero h)
  · rw [hvalue]
    calc digits * 10 ^ places
        < 10 ^ (Nat.toDigits 10 digits).length * 10 ^ places :=
          Nat.mul_lt_mul_of_pos_right (lt_pow_length_toDigits digits) (Nat.pow_pos (by decide))
      _ = 10 ^ ((Nat.toDigits 10 digits).length + places) := (Nat.pow_add _ _ _).symm
      _ ≤ 10 ^ 16 := Nat.pow_le_pow_right (by decide) hshort
      _ < 2 ^ 64 := by decide
  · have htenth : (digitsValue ['0'] : ℚ) = 0 := by norm_num [digitsValue, appendDigit]
    rw [digitsValue_append, hvalue, Decimal.value, zpow_natCast]
    push_cast
    rw [htenth]
    norm_num
    ring

/-- Digits on both sides of the point. -/
theorem spells_split (h : 0 < digits) {front : Nat} (hpositive : 0 < front)
    (hinside : front < (Nat.toDigits 10 digits).length) (hshort : front ≤ 16) :
    Spells ⟨digits, (front : Int) - (Nat.toDigits 10 digits).length⟩
      ((Nat.toDigits 10 digits).take front ++ '.' :: (Nat.toDigits 10 digits).drop front)
      ⟨none, (Nat.toDigits 10 digits).take front, some ((Nat.toDigits 10 digits).drop front),
        none⟩ := by
  apply spells_point
  · rw [← List.length_pos_iff, List.length_take]
    omega
  · exact fun c hmem => isDigit_toDigits digits c (List.mem_of_mem_take hmem)
  · rw [← List.length_pos_iff, List.length_drop]
    omega
  · exact fun c hmem => isDigit_toDigits digits c (List.mem_of_mem_drop hmem)
  · rw [List.head?_take, if_neg hpositive.ne']
    exact fun hzero => absurd hzero (head?_toDigits_ne_zero h)
  · calc digitsValue ((Nat.toDigits 10 digits).take front)
        < 10 ^ front := digitsValue_take_lt digits hinside.le
      _ ≤ 10 ^ 16 := Nat.pow_le_pow_right (by decide) hshort
      _ < 2 ^ 64 := by decide
  · have hplaces : 0 - (((Nat.toDigits 10 digits).drop front).length : Int) =
        (front : Int) - (Nat.toDigits 10 digits).length := by
      rw [List.length_drop]
      omega
    rw [List.take_append_drop, digitsValue_toDigits, hplaces]
    rfl

/-- Digits behind a zero and a point. -/
theorem spells_fraction (digits places : Nat) :
    Spells ⟨digits, -(places : Int) - (Nat.toDigits 10 digits).length⟩
      (['0'] ++ '.' :: (List.replicate places '0' ++ Nat.toDigits 10 digits))
      ⟨none, ['0'], some (List.replicate places '0' ++ Nat.toDigits 10 digits), none⟩ := by
  apply spells_point
  · exact List.cons_ne_nil _ _
  · exact isDigit_zero
  · exact List.append_ne_nil_of_right_ne_nil _ Nat.toDigits_ne_nil
  · intro c hmem
    rcases List.mem_append.mp hmem with hmem | hmem
    · rw [List.eq_of_mem_replicate hmem]
      rfl
    · exact isDigit_toDigits digits c hmem
  · exact fun _ => rfl
  · decide
  · have hplaces : 0 - ((List.replicate places '0' ++ Nat.toDigits 10 digits).length : Int) =
        -(places : Int) - (Nat.toDigits 10 digits).length := by
      rw [List.length_append, List.length_replicate]
      omega
    have hzeros : ['0'] ++ (List.replicate places '0' ++ Nat.toDigits 10 digits) =
        List.replicate (places + 1) '0' ++ Nat.toDigits 10 digits := rfl
    rw [hzeros, digitsValue_append, digitsValue_replicate, digitsValue_toDigits, hplaces,
      Nat.zero_mul, Nat.zero_add]
    rfl

/-- One digit, or digits with a point behind the first one, and an exponent. -/
theorem exists_spells_exponent (h : 0 < digits) (lead : Int) : ∃ literal,
    Spells ⟨digits, lead + 1 - (Nat.toDigits 10 digits).length⟩
      (Json.decimalStyle.withExponent (Nat.toDigits 10 digits) lead) literal := by
  have hall := isDigit_toDigits digits
  have hzero := head?_toDigits_ne_zero h
  have hvalue := digitsValue_toDigits digits
  have hfirst := digitsValue_take_lt digits (Nat.length_toDigits_pos (b := 10) (n := digits))
  have hexponent := DecimalLiteral.readExponent_toDigits lead
  have htail : ∀ c ∈ ('e' :: ((if lead < 0 then ['-'] else ['+']) ++
      Nat.toDigits 10 lead.natAbs)).head?, c.isDigit = false := by
    rintro c ⟨⟩
    rfl
  cases hdigits : Nat.toDigits 10 digits with
  | nil => exact absurd hdigits Nat.toDigits_ne_nil
  | cons first rest =>
      rw [hdigits] at hall hzero hvalue hfirst
      obtain ⟨hdigit, hrest⟩ := List.forall_mem_cons.mp hall
      have hwhole : ∀ c ∈ [first], c.isDigit = true := List.forall_mem_singleton.mpr hdigit
      have hunsigned : ∀ text : List Char, ∀ c ∈ (first :: text).head?, c.isDigit = true := by
        rintro text c ⟨⟩
        exact hdigit
      have hfits : digitsValue [first] < 2 ^ 64 := hfirst.trans (by decide)
      cases rest with
      | nil =>
          refine ⟨⟨none, [first], none, some lead⟩, ⟨List.cons_ne_nil _ _, fun _ => rfl, by simp,
            .inr rfl, hfits⟩, ?_, hunsigned _, fun hsign => ?_⟩
          · rw [Decimal.value, DecimalLiteral.value, Option.getD_none, List.append_nil, hvalue]
            simp
          · exact DecimalLiteral.read?_unpointed hwhole htail hexponent (by simp) hsign
      | cons second rest =>
          refine ⟨⟨none, [first], some (second :: rest), some lead⟩, ⟨List.cons_ne_nil _ _,
            fun _ => rfl, by simp, .inl rfl, hfits⟩, ?_, hunsigned _, fun hsign => ?_⟩
          · have hplaces : lead + 1 - ((first :: second :: rest).length : Int) =
                lead - ((second :: rest).length : Int) := by
              rw [List.length_cons]
              omega
            rw [Decimal.value, DecimalLiteral.value, Option.getD_some, List.singleton_append,
              hvalue]
            dsimp only
            rw [hplaces]
            rfl
          · exact DecimalLiteral.read?_pointed hwhole htail hexponent hrest hsign

/-- The text of a positive decimal is a literal of its value. -/
theorem exists_spells_layout (h : 0 < digits) (exponent : Int) :
    ∃ literal, Spells ⟨digits, exponent⟩ (Json.decimalStyle.layout ⟨digits, exponent⟩) literal := by
  unfold NumberStyle.layout
  dsimp only
  split
  · next hpositional =>
      have hrange : (-5 ≤ ((Nat.toDigits 10 digits).length : Int) - 1 + exponent &&
          ((Nat.toDigits 10 digits).length : Int) - 1 + exponent ≤ 15) = true := hpositional
      rw [Bool.and_eq_true, decide_eq_true_eq, decide_eq_true_eq] at hrange
      unfold NumberStyle.inPlace
      dsimp only
      split
      · next hnatural =>
          obtain ⟨places, rfl⟩ := Int.eq_ofNat_of_zero_le hnatural
          exact ⟨_, spells_natural h (by omega)⟩
      · next hnegative =>
          split
          · next hfront =>
              obtain ⟨front, hplaces⟩ := Int.eq_ofNat_of_zero_le hfront.le
              have hexponent : (front : Int) - (Nat.toDigits 10 digits).length = exponent := by
                omega
              have hspells := spells_split h (by omega : 0 < front) (by omega) (by omega)
              rw [hexponent] at hspells
              rw [hplaces]
              exact ⟨_, hspells⟩
          · next hbehind =>
              obtain ⟨places, hplaces⟩ :=
                Int.eq_ofNat_of_zero_le (Int.neg_nonneg.mpr (not_lt.mp hbehind))
              have hexponent : -(places : Int) - (Nat.toDigits 10 digits).length = exponent := by
                omega
              have hspells := spells_fraction digits places
              rw [hexponent] at hspells
              rw [hplaces]
              exact ⟨_, hspells⟩
  · have hlead : ((Nat.toDigits 10 digits).length : Int) - 1 + exponent + 1 -
        (Nat.toDigits 10 digits).length = exponent := by omega
    obtain ⟨literal, hspells⟩ := exists_spells_exponent h
      (((Nat.toDigits 10 digits).length : Int) - 1 + exponent)
    rw [hlead] at hspells
    exact ⟨literal, hspells⟩

end Forms

end Decimal

namespace Json

variable {x : Number}

/-- The shortest decimal of a number below the last one is a literal up to the limit. -/
theorem exists_spells_shortest (h : x.magnitude < Number.lastMagnitude) : ∃ literal,
    (x.shortest .even).Spells (decimalStyle.layout (x.shortest .even)) literal ∧
      literal.value ≤ Number.safeLimit := by
  rcases Nat.eq_zero_or_pos x.significand with hzero | hpositive
  · have hshortest : x.shortest .even = ⟨0, 0⟩ := by rw [Number.shortest, if_pos hzero]
    have hvalue : (digitsValue (['0'] ++ ['0']) : ℚ) * 10 ^ (0 - ((['0'].length : Nat) : Int)) =
        Decimal.value ⟨0, 0⟩ := by
      have hdigits : digitsValue (['0'] ++ ['0']) = 0 := rfl
      rw [hdigits, Decimal.value, Nat.cast_zero, zero_mul, zero_mul]
    have hspells := Decimal.spells_point (List.cons_ne_nil _ _) Decimal.isDigit_zero
      (List.cons_ne_nil _ _) Decimal.isDigit_zero (fun _ => rfl) (by decide) hvalue
    rw [hshortest]
    refine ⟨_, hspells, ?_⟩
    rw [hspells.value, Decimal.value, Nat.cast_zero, zero_mul]
    exact Nat.cast_nonneg _
  · have hlimit := Number.shortest_le .even hpositive h
    have hvalue := (Number.value_shortest .even hpositive).1
    generalize x.shortest .even = decimal at hlimit hvalue
    have hdigits : 0 < decimal.digits := by
      rw [Nat.pos_iff_ne_zero]
      intro hnone
      rw [Decimal.value, hnone, Nat.cast_zero, zero_mul] at hvalue
      exact lt_irrefl _ hvalue
    obtain ⟨literal, hspells⟩ := Decimal.exists_spells_layout hdigits decimal.exponent
    exact ⟨literal, hspells, hspells.value.trans_le hlimit⟩

/-- The text of the last finite number, taken apart. -/
def lastLiteral (negative : Bool) : DecimalLiteral :=
  ⟨if negative then some '-' else none, ['1'], some "7976931348623157".toList, some 308⟩

theorem read?_last (negative : Bool) :
    DecimalLiteral.read? (decimalStyle.write (.ofMagnitude negative Number.lastMagnitude)) =
      some (lastLiteral negative) := by
  cases negative with
  | true => decide +kernel
  | false => decide +kernel

theorem exists_ofLiteral?_last (negative : Bool) : ∃ y : Number, y.isFinite = true ∧
    ofLiteral? (lastLiteral negative) = some (.decimal y) := by
  have hfinite : (lastLiteral negative).toNumberStepwise.isFinite = true := by
    cases negative with
    | true => decide +kernel
    | false => decide +kernel
  have hregular : (lastLiteral negative).Regular :=
    ⟨List.cons_ne_nil _ _, fun _ => rfl, by simp [lastLiteral], .inl rfl,
      (by decide : digitsValue ['1'] < 2 ^ 64)⟩
  refine ⟨_, hfinite, ?_⟩
  rw [hregular.ofLiteral? (by cases negative <;> decide), ofFinite, if_pos hfinite]

/-- A finite number is written as a word that is read as a finite number. -/
theorem exists_ofWord?_write (h : x.isFinite = true) : ∃ y : Number, y.isFinite = true ∧
    ofWord? (decimalStyle.write x) = some (.decimal y) := by
  rw [ofWord?_of_isNumeral (NumberStyle.isNumeral_write h)]
  have hmagnitude : x.magnitude ≤ Number.lastMagnitude :=
    Nat.le_sub_one_of_lt (of_decide_eq_true h)
  rcases Nat.lt_or_eq_of_le hmagnitude with hless | hlast
  · obtain ⟨literal, hspells, hlimit⟩ := exists_spells_shortest hless
    have hsign : ∃ sign, sign ≠ some '+' ∧ splitSign (decimalStyle.write x) =
        (sign, decimalStyle.layout (x.shortest .even)) := by
      rw [NumberStyle.write, Number.not_isNaN_of_isFinite h, Number.not_isInfinite_of_isFinite h]
      cases x.negative with
      | true => exact ⟨some '-', by decide, rfl⟩
      | false =>
          obtain ⟨first, rest, hlayout⟩ := List.exists_cons_of_ne_nil
            (NumberStyle.layout_ne_nil decimalStyle (x.shortest .even))
          have hdigit := hspells.unsigned first (by rw [hlayout]; rfl)
          exact ⟨none, by decide, splitSign_of_head (congrArg List.head? hlayout) hdigit⟩
    obtain ⟨sign, hplus, hsplit⟩ := hsign
    have hregular := hspells.regular.signed sign
    have hfinite := DecimalLiteral.isFinite_toNumberStepwise hregular.fits hlimit
    refine ⟨_, hfinite, ?_⟩
    rw [hspells.read hsplit, Option.bind_some, hregular.ofLiteral? hplus, ofFinite, if_pos hfinite]
  · rw [← x.ofMagnitude_self, hlast, read?_last]
    exact exists_ofLiteral?_last x.negative

end Json

end FormDesigner
