import Mathlib.Data.List.TakeWhile
import FormDesigner.Json.Printer
import FormDesigner.Json.Reader
import FormDesigner.Proofs.Number.Whole

/-!
The words of a printed JSON text.

A number is written in digits and a few signs, so that it is one word, and an integer is
read back from its digits.
-/

namespace FormDesigner

/-- The characters of numbers. -/
def IsNumeral (c : Char) : Prop := c.isDigit = true ∨ c ∈ ['.', '-', '+', 'e']

theorem isNumeral_zero : IsNumeral '0' := Or.inl rfl

theorem isNumeral_of_mem_toDigits {c : Char} {n : Nat} (h : c ∈ Nat.toDigits 10 n) :
    IsNumeral c :=
  Or.inl (Nat.isDigit_of_mem_toDigits (by decide) (by decide) h)

namespace NumberStyle

variable {style : NumberStyle} {digits : List Char}

theorem isNumeral_inPlace (hdigits : ∀ c ∈ digits, IsNumeral c) (exponent : Int) :
    ∀ c ∈ style.inPlace digits exponent, IsNumeral c := by
  intro c hmem
  have hpoint : IsNumeral '.' := Or.inr (by decide)
  unfold inPlace at hmem
  dsimp only at hmem
  split at hmem
  · rw [List.mem_append, List.mem_append] at hmem
    rcases hmem with (hmem | hmem) | hmem
    · exact hdigits c hmem
    · rw [List.eq_of_mem_replicate hmem]
      exact isNumeral_zero
    · split at hmem
      · rcases List.mem_cons.1 hmem with rfl | hmem
        · exact hpoint
        · rw [List.mem_singleton.1 hmem]
          exact isNumeral_zero
      · cases hmem
  · split at hmem
    · rw [List.mem_append, List.mem_cons] at hmem
      rcases hmem with hmem | rfl | hmem
      · exact hdigits c (List.mem_of_mem_take hmem)
      · exact hpoint
      · exact hdigits c (List.mem_of_mem_drop hmem)
    · rw [List.mem_cons, List.mem_cons, List.mem_append] at hmem
      rcases hmem with rfl | rfl | hmem | hmem
      · exact isNumeral_zero
      · exact hpoint
      · rw [List.eq_of_mem_replicate hmem]
        exact isNumeral_zero
      · exact hdigits c hmem

theorem isNumeral_withExponent (hdigits : ∀ c ∈ digits, IsNumeral c) (lead : Int) :
    ∀ c ∈ style.withExponent digits lead, IsNumeral c := by
  intro c hmem
  unfold withExponent at hmem
  dsimp only at hmem
  rw [List.mem_append, List.mem_cons, List.mem_append] at hmem
  rcases hmem with hmem | rfl | hmem | hmem
  · split at hmem
    · next first second rest =>
        rcases List.mem_cons.1 hmem with rfl | hmem
        · exact hdigits c List.mem_cons_self
        · rcases List.mem_cons.1 hmem with rfl | hmem
          · exact Or.inr (by decide)
          · exact hdigits c (List.mem_cons_of_mem _ hmem)
    · exact hdigits c hmem
  · exact Or.inr (by decide)
  · split at hmem
    · rw [List.mem_singleton.1 hmem]
      exact Or.inr (by decide)
    · split at hmem
      · rw [List.mem_singleton.1 hmem]
        exact Or.inr (by decide)
      · cases hmem
  · exact isNumeral_of_mem_toDigits hmem

/-- A finite number is written in the characters of numbers. -/
theorem isNumeral_write {x : Number} (h : x.isFinite = true) :
    ∀ c ∈ style.write x, IsNumeral c := by
  intro c hmem
  have hnumber := Number.not_isNaN_of_isFinite h
  have hbounded := Number.not_isInfinite_of_isFinite h
  rw [write, hnumber, hbounded] at hmem
  simp only [Bool.false_eq_true, if_false, List.mem_append] at hmem
  rcases hmem with hmem | hmem
  · split at hmem
    · rw [List.mem_singleton.1 hmem]
      exact Or.inr (by decide)
    · cases hmem
  · rw [layout] at hmem
    split at hmem
    · exact isNumeral_inPlace (fun _ => isNumeral_of_mem_toDigits) _ c hmem
    · exact isNumeral_withExponent (fun _ => isNumeral_of_mem_toDigits) _ c hmem

theorem layout_ne_nil (style : NumberStyle) (decimal : Decimal) : style.layout decimal ≠ [] := by
  have hdigits : Nat.toDigits 10 decimal.digits ≠ [] := Nat.toDigits_ne_nil
  rw [layout]
  split
  · unfold inPlace
    split
    · simp [hdigits]
    · dsimp only
      split
      · simp
      · simp
  · simp [withExponent]

theorem write_ne_nil {x : Number} (h : x.isFinite = true) : style.write x ≠ [] := by
  have hnumber := Number.not_isNaN_of_isFinite h
  have hbounded := Number.not_isInfinite_of_isFinite h
  rw [write, hnumber, hbounded]
  exact List.append_ne_nil_of_right_ne_nil _ (layout_ne_nil style _)

end NumberStyle

/-- The digits of a positive number do not start with a zero. -/
theorem head?_toDigits_ne_zero {n : Nat} (h : 0 < n) :
    (Nat.toDigits 10 n).head? ≠ some '0' := by
  induction n using Nat.strongRecOn with
  | ind n ih =>
      by_cases hsmall : n < 10
      · rw [Nat.toDigits_of_lt_base hsmall]
        simp only [List.head?_cons, ne_eq, Option.some.injEq, Nat.digitChar_eq_zero]
        omega
      · have hshorter := ih (n / 10) (by omega) (by omega)
        rw [Nat.toDigits_of_base_le (by decide) (Nat.le_of_not_lt hsmall)]
        cases hdigits : Nat.toDigits 10 (n / 10) with
        | nil => exact absurd hdigits Nat.toDigits_ne_nil
        | cons first rest =>
            rw [hdigits] at hshorter
            exact hshorter

theorem digitsValue_toDigits (n : Nat) : digitsValue (Nat.toDigits 10 n) = n :=
  Nat.ofDigitChars_toDigits (by decide) (by decide)

/-- Digits alone are a literal without further parts. -/
theorem DecimalLiteral.read?_digits {text digits : List Char} {sign : Option Char}
    (hsign : splitSign text = (sign, digits)) (hdigits : ∀ c ∈ digits, c.isDigit = true) :
    DecimalLiteral.read? text = some ⟨sign, digits, none, none⟩ := by
  have hwhole : splitDigits digits = (digits, []) := by
    rw [splitDigits, List.takeWhile_eq_self_iff.2 hdigits, List.dropWhile_eq_nil_iff.2 hdigits]
  rw [DecimalLiteral.read?, hsign]
  dsimp only
  rw [hwhole]
  rfl

theorem splitSign_digits {digits : List Char} (hdigits : ∀ c ∈ digits, c.isDigit = true) :
    splitSign digits = (none, digits) := by
  unfold splitSign
  split
  · exact absurd (hdigits '+' List.mem_cons_self) (by decide)
  · exact absurd (hdigits '-' List.mem_cons_self) (by decide)
  · rfl

namespace Json

/-- Only zero itself is written with a zero at the start. -/
theorem length_toDigits_of_head? (n : Nat) :
    (Nat.toDigits 10 n).head? = some '0' → (Nat.toDigits 10 n).length = 1 := by
  intro hhead
  cases n with
  | zero => rfl
  | succ n => exact absurd hhead (head?_toDigits_ne_zero (Nat.succ_pos n))

theorem ofLiteral?_natural {n : Nat} (h : n < 2 ^ 64) :
    ofLiteral? ⟨none, Nat.toDigits 10 n, none, none⟩ = some (.integer n) := by
  have hrange : ¬18446744073709551616 ≤ n := Nat.not_le.2 h
  simpa [ofLiteral?, digitsValue_toDigits, hrange] using length_toDigits_of_head? n

theorem ofLiteral?_negative {n : Nat} (hpositive : n ≠ 0) (h : n ≤ 2 ^ 63) :
    ofLiteral? ⟨some '-', Nat.toDigits 10 n, none, none⟩ = some (.integer (-(n : Int))) := by
  have hrange : ¬9223372036854775808 < n := Nat.not_lt.2 h
  simpa [ofLiteral?, digitsValue_toDigits, hpositive, hrange] using length_toDigits_of_head? n

/-- A word of the characters of numbers is read as a number. -/
theorem ofWord?_of_isNumeral {letters : List Char} (h : ∀ c ∈ letters, IsNumeral c) :
    ofWord? letters = (DecimalLiteral.read? letters).bind ofLiteral? := by
  have hother : ∀ first rest, letters = first :: rest → IsNumeral first := by
    rintro first rest rfl
    exact h first List.mem_cons_self
  rw [ofWord?, if_neg, if_neg, if_neg]
  · exact fun heq => absurd (hother 'f' _ heq) (by unfold IsNumeral; decide)
  · exact fun heq => absurd (hother 't' _ heq) (by unfold IsNumeral; decide)
  · exact fun heq => absurd (hother 'n' _ heq) (by unfold IsNumeral; decide)

theorem isNumeral_writeInteger (n : Int) : ∀ c ∈ writeInteger n, IsNumeral c := by
  intro c hmem
  rw [writeInteger] at hmem
  split at hmem
  · rcases List.mem_cons.1 hmem with rfl | hmem
    · exact Or.inr (by decide)
    · exact isNumeral_of_mem_toDigits hmem
  · exact isNumeral_of_mem_toDigits hmem

/-- An integer of 64 bits is read back, with a sign or without one. -/
theorem ofWord?_writeInteger {n : Int} (hlow : -(2 ^ 63) ≤ n) (hhigh : n < 2 ^ 64) :
    ofWord? (writeInteger n) = some (.integer n) := by
  have hdigits : ∀ c ∈ Nat.toDigits 10 n.natAbs, c.isDigit = true :=
    fun c hmem => Nat.isDigit_of_mem_toDigits (by decide) (by decide) hmem
  rw [ofWord?_of_isNumeral (isNumeral_writeInteger n), writeInteger]
  split
  · next hnegative =>
      have hvalue : -(n.natAbs : Int) = n := by omega
      have hsign : splitSign ('-' :: Nat.toDigits 10 n.natAbs) =
          (some '-', Nat.toDigits 10 n.natAbs) := rfl
      rw [DecimalLiteral.read?_digits hsign hdigits, Option.bind_some,
        ofLiteral?_negative (by omega) (by omega), hvalue]
  · next hnatural =>
      have hvalue : (n.natAbs : Int) = n := by omega
      rw [DecimalLiteral.read?_digits (splitSign_digits hdigits) hdigits, Option.bind_some,
        ofLiteral?_natural (by omega), hvalue]

/-- The characters that end a word. -/
theorem mem_of_endsWord {c : Char} (h : Lexer.endsWord c = true) :
    c ∈ [' ', '\t', '\n', '\r', '"', '[', ']', '\x7b', '\x7d', ',', ':'] := by
  simp only [Lexer.endsWord, isSpace, Bool.or_eq_true, decide_eq_true_eq, Option.isSome_iff_exists]
    at h
  rcases h with ((((rfl | rfl) | rfl) | rfl) | rfl) | ⟨token, hmark⟩
  · decide
  · decide
  · decide
  · decide
  · decide
  · unfold punctuation? at hmark
    split at hmark
    · decide
    · decide
    · decide
    · decide
    · decide
    · decide
    · cases hmark

/-- The characters of numbers end no word. -/
theorem endsWord_of_isNumeral {c : Char} (h : IsNumeral c) : Lexer.endsWord c = false := by
  rw [Bool.eq_false_iff]
  intro hends
  have hnot : ∀ other ∈ [' ', '\t', '\n', '\r', '"', '[', ']', '\x7b', '\x7d', ',', ':'],
      ¬IsNumeral other := by
    simp [IsNumeral]
  exact hnot c (mem_of_endsWord hends) h

theorem isWord_of_all {letters : List Char}
    (h : letters.all (fun c => !Lexer.endsWord c) = true) :
    ∀ c ∈ letters, Lexer.endsWord c = false := by
  intro c hmem
  rw [List.all_eq_true] at h
  simpa using h c hmem

/-- What holds no other value and is no text is written as one word. -/
theorem isWord_writeScalar {json : Json} (h : ∀ text, json ≠ .string text) :
    json.writeScalar ≠ [] ∧ ∀ c ∈ json.writeScalar, Lexer.endsWord c = false := by
  have hnull : ∀ c ∈ ['n', 'u', 'l', 'l'], Lexer.endsWord c = false :=
    isWord_of_all (by decide)
  cases json with
  | null => exact ⟨List.cons_ne_nil _ _, hnull⟩
  | bool b =>
      cases b with
      | true => exact ⟨List.cons_ne_nil _ _, isWord_of_all (by decide)⟩
      | false => exact ⟨List.cons_ne_nil _ _, isWord_of_all (by decide)⟩
  | integer n =>
      refine ⟨?_, fun c hmem => endsWord_of_isNumeral (isNumeral_writeInteger n c hmem)⟩
      rw [writeScalar, writeInteger]
      split
      · exact List.cons_ne_nil _ _
      · exact Nat.toDigits_ne_nil
  | decimal x =>
      rw [writeScalar]
      split
      · next hfinite =>
          exact ⟨NumberStyle.write_ne_nil hfinite, fun c hmem =>
            endsWord_of_isNumeral (NumberStyle.isNumeral_write hfinite c hmem)⟩
      · exact ⟨List.cons_ne_nil _ _, hnull⟩
  | string text => exact absurd rfl (h text)
  | array items => exact ⟨List.cons_ne_nil _ _, hnull⟩
  | object members => exact ⟨List.cons_ne_nil _ _, hnull⟩
  | unreadable => exact ⟨List.cons_ne_nil _ _, hnull⟩

end Json

end FormDesigner
