import FormDesigner.Domain.Parser

/-!
The words of a text.

A text spells words by rules: white space is left aside, a word in double quotes goes up to the
next quote, and any other word up to the next white space.  Splitting finds the words that a text
spells, and fails exactly if it spells none.
-/

namespace FormDesigner

namespace Domain

/-- The words that a text spells. -/
inductive Spells : List Char → List String → Prop where
  | nil : Spells [] []
  | blank {c : Char} {rest : List Char} {words : List String} :
      isBlank c = true → Spells rest words → Spells (c :: rest) words
  | quoted {inside rest : List Char} {words : List String} :
      '"' ∉ inside → Spells rest words →
      Spells ('"' :: (inside ++ '"' :: rest)) (String.ofList inside :: words)
  | bare {c : Char} {more rest : List Char} {words : List String} :
      c ≠ '"' → (∀ d ∈ c :: more, isBlank d = false) → (∀ d ∈ rest.head?, isBlank d = true) →
      Spells rest words → Spells (c :: (more ++ rest)) (String.ofList (c :: more) :: words)

/-- What is left to read in a state spells the words that are left. -/
def Continues : WordMode → List Char → List String → Prop
  | .between, source, words => Spells source words
  | .bare letters, source, words =>
      ∃ more rest others, source = more ++ rest ∧ (∀ d ∈ more, isBlank d = false) ∧
        (∀ d ∈ rest.head?, isBlank d = true) ∧ Spells rest others ∧
        words = String.ofList (letters.reverse ++ more) :: others
  | .quoted _ letters, source, words =>
      ∃ inside rest others, source = inside ++ '"' :: rest ∧ '"' ∉ inside ∧ Spells rest others ∧
        words = String.ofList (letters.reverse ++ inside) :: others

section Words

variable {position opened : Nat} {letters source rest : List Char} {words : List String}

theorem of_map_words_ok {answer : Except ParseError (List String)} {word : String}
    (h : answer.map (word :: ·) = .ok words) :
    ∃ others, answer = .ok others ∧ words = word :: others := by
  cases answer with
  | error failure => cases h
  | ok others =>
      cases h
      exact ⟨others, rfl, rfl⟩

theorem continues_of_wordsFrom_ok {mode : WordMode}
    (h : wordsFrom position mode source = .ok words) : Continues mode source words := by
  induction source generalizing position mode words with
  | nil =>
      cases mode with
      | between =>
          cases h
          exact .nil
      | bare letters =>
          cases h
          exact ⟨[], [], [], rfl, nofun, nofun, .nil, by rw [List.append_nil]⟩
      | quoted opened letters => cases h
  | cons c rest ih =>
      cases mode with
      | between =>
          simp only [wordsFrom] at h
          split at h
          · next hblank => exact .blank hblank (ih h)
          · next hblank =>
              split at h
              · next hquote =>
                  obtain ⟨inside, behind, others, rfl, hinside, hspells, rfl⟩ := ih h
                  subst hquote
                  exact .quoted hinside hspells
              · next hquote =>
                  obtain ⟨more, behind, others, rfl, hmore, hbehind, hspells, rfl⟩ := ih h
                  exact .bare hquote (List.forall_mem_cons.mpr ⟨by simpa using hblank, hmore⟩)
                    hbehind hspells
      | bare letters =>
          simp only [wordsFrom] at h
          split at h
          · next hblank =>
              obtain ⟨others, hothers, rfl⟩ := of_map_words_ok h
              refine ⟨[], c :: rest, others, rfl, nofun, ?_, .blank hblank (ih hothers), ?_⟩
              · rintro d ⟨⟩
                exact hblank
              · rw [List.append_nil]
          · next hblank =>
              obtain ⟨more, behind, others, rfl, hmore, hbehind, hspells, rfl⟩ := ih h
              refine ⟨c :: more, behind, others, rfl,
                List.forall_mem_cons.mpr ⟨by simpa using hblank, hmore⟩, hbehind, hspells, ?_⟩
              rw [List.reverse_cons, List.append_assoc]
              rfl
      | quoted opened letters =>
          simp only [wordsFrom] at h
          split at h
          · next hquote =>
              obtain ⟨others, hothers, rfl⟩ := of_map_words_ok h
              subst hquote
              exact ⟨[], rest, others, rfl, List.not_mem_nil, ih hothers, by rw [List.append_nil]⟩
          · next hquote =>
              obtain ⟨inside, behind, others, rfl, hinside, hspells, rfl⟩ := ih h
              refine ⟨c :: inside, behind, others, rfl, ?_, hspells, ?_⟩
              · rw [List.mem_cons, not_or]
                exact ⟨Ne.symm hquote, hinside⟩
              · rw [List.reverse_cons, List.append_assoc]
                rfl

/-- Up to its closing quote a word is gathered. -/
theorem wordsFrom_quoted {inside : List Char} (h : '"' ∉ inside) :
    ∃ next, wordsFrom position (.quoted opened letters) (inside ++ '"' :: rest) =
      (wordsFrom next .between rest).map (String.ofList (letters.reverse ++ inside) :: ·) := by
  induction inside generalizing position letters with
  | nil =>
      rw [List.append_nil]
      exact ⟨_, rfl⟩
  | cons c more ih =>
      obtain ⟨hc, hmore⟩ := List.ne_and_not_mem_of_not_mem_cons h
      obtain ⟨next, hnext⟩ := ih hmore
      refine ⟨next, ?_⟩
      rw [List.cons_append, wordsFrom, if_neg (Ne.symm hc), hnext, List.reverse_cons,
        List.append_assoc]
      rfl

/-- Up to the next white space a word is gathered. -/
theorem wordsFrom_bare {more : List Char} (hmore : ∀ d ∈ more, isBlank d = false)
    (hrest : ∀ d ∈ rest.head?, isBlank d = true) :
    ∃ next, wordsFrom position (.bare letters) (more ++ rest) =
      (wordsFrom next .between rest).map (String.ofList (letters.reverse ++ more) :: ·) := by
  induction more generalizing position letters with
  | nil =>
      rw [List.append_nil]
      cases rest with
      | nil => exact ⟨0, rfl⟩
      | cons c behind =>
          have hblank : isBlank c = true := hrest c rfl
          refine ⟨position, ?_⟩
          rw [List.nil_append, wordsFrom, if_pos hblank, wordsFrom, if_pos hblank]
  | cons c more ih =>
      obtain ⟨hc, hothers⟩ := List.forall_mem_cons.mp hmore
      obtain ⟨next, hnext⟩ := ih hothers
      refine ⟨next, ?_⟩
      rw [List.cons_append, wordsFrom, if_neg (by simp [hc]), hnext, List.reverse_cons,
        List.append_assoc]
      rfl

theorem wordsFrom_of_spells (h : Spells source words) :
    wordsFrom position .between source = .ok words := by
  induction h generalizing position with
  | nil => rfl
  | blank hblank _ ih => rw [wordsFrom, if_pos hblank, ih]
  | @quoted inside rest words hinside _ ih =>
      have hquote : isBlank '"' = false := by decide
      obtain ⟨next, hnext⟩ := wordsFrom_quoted hinside
      rw [wordsFrom, if_neg (by simp [hquote]), if_pos rfl, hnext, ih]
      rfl
  | @bare c more rest words hquote hword hrest _ ih =>
      obtain ⟨hc, hmore⟩ := List.forall_mem_cons.mp hword
      obtain ⟨next, hnext⟩ := wordsFrom_bare hmore hrest
      rw [wordsFrom, if_neg (by simp [hc]), if_neg hquote, hnext, ih]
      rfl

/-- Splitting a text finds the words that it spells. -/
theorem words_ok_iff {text : String} : Domain.words text = .ok words ↔ Spells text.toList words :=
  ⟨continues_of_wordsFrom_ok, wordsFrom_of_spells⟩

end Words

/-! ### Words in quotes -/

/-- A word in double quotes, and what stands behind it. -/
def quoteWord (entry : String × List Char) : List Char :=
  '"' :: (entry.1.toList ++ '"' :: entry.2)

theorem Spells.blanks {gap rest : List Char} {words : List String} (h : Spells rest words)
    (hgap : ∀ c ∈ gap, isBlank c = true) : Spells (gap ++ rest) words := by
  induction gap with
  | nil => exact h
  | cons c more ih =>
      obtain ⟨hc, hmore⟩ := List.forall_mem_cons.mp hgap
      exact .blank hc (ih hmore)

/-- Words in quotes are found again, whatever white space stands between them. -/
theorem spells_quoteWords {entries : List (String × List Char)}
    (hwords : ∀ entry ∈ entries, '"' ∉ entry.1.toList)
    (hgaps : ∀ entry ∈ entries, ∀ c ∈ entry.2, isBlank c = true) :
    Spells (entries.flatMap quoteWord) (entries.map Prod.fst) := by
  induction entries with
  | nil => exact .nil
  | cons entry rest ih =>
      obtain ⟨hword, hothers⟩ := List.forall_mem_cons.mp hwords
      obtain ⟨hgap, hmore⟩ := List.forall_mem_cons.mp hgaps
      have hspells := Spells.quoted hword ((ih hothers hmore).blanks hgap)
      rw [String.ofList_toList] at hspells
      rw [List.flatMap_cons, quoteWord, List.cons_append, List.append_assoc, List.cons_append]
      exact hspells

end Domain

end FormDesigner
