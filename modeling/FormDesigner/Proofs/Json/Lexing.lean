import FormDesigner.Proofs.Json.Words

/-!
The tokens of a printed JSON text.

A printed text is read piece by piece, from its start.  Quotes, blanks and marks of
punctuation end where they do by themselves; a word ends where one of these follows.
-/

namespace FormDesigner

namespace Json

/-- The tokens that a text has from a place between tokens on. -/
def Lexer.result? (lexer : Lexer) (text : List Char) : Option (List Token) :=
  (text.foldlM Lexer.feed lexer).bind Lexer.finish

theorem Lexer.result?_cons (lexer : Lexer) (c : Char) (rest : List Char) :
    lexer.result? (c :: rest) = (lexer.feed c).bind fun next => next.result? rest := by
  rw [result?, List.foldlM_cons]
  exact Option.bind_assoc _ _ _

/-- Between tokens a text is read as the given tokens. -/
def Lexes (text : List Char) (tokens : List Token) : Prop :=
  ∀ done, Lexer.result? ⟨.between, done⟩ text = some (done.reverse ++ tokens)

/-- A word that stands in front of the text ends there. -/
def EndsWord (text : List Char) : Prop := ∀ c ∈ text.head?, Lexer.endsWord c = true

theorem tokens?_of_lexes {text : List Char} {tokens : List Token} (h : Lexes text tokens) :
    tokens? text = some tokens :=
  h []

theorem punctuation?_cases {c : Char} {token : Token} (h : punctuation? c = some token) :
    isSpace c = false ∧ c ≠ '"' := by
  unfold punctuation? at h
  split at h
  · decide
  · decide
  · decide
  · decide
  · decide
  · decide
  · cases h

namespace Lexes

variable {rest : List Char} {tokens : List Token}

theorem nil : Lexes [] [] := by
  intro done
  rw [List.append_nil]
  rfl

theorem blank {c : Char} (hblank : isSpace c = true) (h : Lexes rest tokens) :
    Lexes (c :: rest) tokens := by
  intro done
  rw [Lexer.result?_cons, Lexer.feed, Lexer.start, if_pos hblank]
  exact h done

theorem blanks {text : List Char} (hblanks : ∀ c ∈ text, isSpace c = true)
    (h : Lexes rest tokens) : Lexes (text ++ rest) tokens := by
  induction text with
  | nil => exact h
  | cons c text ih =>
      obtain ⟨hfirst, hothers⟩ := List.forall_mem_cons.1 hblanks
      exact (ih hothers).blank hfirst

theorem mark {c : Char} {token : Token} (hmark : punctuation? c = some token)
    (h : Lexes rest tokens) : Lexes (c :: rest) (token :: tokens) := by
  intro done
  obtain ⟨hblank, hquote⟩ := punctuation?_cases hmark
  rw [Lexer.result?_cons, Lexer.feed, Lexer.start, if_neg (by simp [hblank]), if_neg hquote]
  simp only [hmark, Option.bind_some]
  rw [h (token :: done), List.reverse_cons, List.append_assoc]
  rfl

/-- In a word the letters are gathered. -/
theorem result?_word {letters : List Char} (hletters : ∀ c ∈ letters, Lexer.endsWord c = false)
    (hend : EndsWord rest) (h : Lexes rest tokens) (gathered : List Char) (done : List Token) :
    Lexer.result? ⟨.word gathered, done⟩ (letters ++ rest) =
      some (done.reverse ++ .word (gathered.reverse ++ letters) :: tokens) := by
  induction letters generalizing gathered with
  | nil =>
      -- What ends the word is read as if it stood between tokens.
      have hnext : Lexer.result? ⟨.word gathered, done⟩ rest =
          Lexer.result? ⟨.between, .word gathered.reverse :: done⟩ rest := by
        cases rest with
        | nil => rfl
        | cons c rest =>
            rw [Lexer.result?_cons, Lexer.result?_cons, Lexer.feed, Lexer.feed]
            exact congrArg (fun next => Option.bind next _) (if_pos (hend c rfl))
      rw [List.nil_append, hnext, h, List.append_nil, List.reverse_cons, List.append_assoc]
      rfl
  | cons c letters ih =>
      obtain ⟨hfirst, hothers⟩ := List.forall_mem_cons.1 hletters
      rw [List.cons_append, Lexer.result?_cons, Lexer.feed]
      simp only [hfirst, Bool.false_eq_true, if_false, Option.bind_some]
      rw [ih hothers, List.reverse_cons, List.append_assoc]
      rfl

theorem word {letters : List Char} (hnonempty : letters ≠ [])
    (hletters : ∀ c ∈ letters, Lexer.endsWord c = false) (hend : EndsWord rest)
    (h : Lexes rest tokens) : Lexes (letters ++ rest) (.word letters :: tokens) := by
  intro done
  cases letters with
  | nil => exact absurd rfl hnonempty
  | cons c letters =>
      obtain ⟨hfirst, hothers⟩ := List.forall_mem_cons.1 hletters
      simp only [Lexer.endsWord, Bool.or_eq_false_iff, decide_eq_false_iff_not,
        Option.isSome_eq_false_iff, Option.isNone_iff_eq_none] at hfirst
      obtain ⟨⟨hblank, hquote⟩, hmark⟩ := hfirst
      rw [List.cons_append, Lexer.result?_cons, Lexer.feed, Lexer.start,
        if_neg (by simp [hblank]), if_neg hquote]
      simp only [hmark, Option.bind_some]
      exact result?_word hothers hend h [c] done

end Lexes

/-- A character is no half. -/
theorem not_isHalf (c : Char) : isHighHalf c.toNat = false ∧ isLowHalf c.toNat = false := by
  have hvalid : c.toNat < 0xD800 ∨ (0xDFFF < c.toNat ∧ c.toNat < 0x110000) := c.valid
  simp only [isHighHalf, isLowHalf, Bool.and_eq_false_iff, decide_eq_false_iff_not]
  omega

/-- Whole characters are not joined. -/
theorem joinHalves_toNat (chars : List Char) :
    joinHalves (chars.map Char.toNat) = some chars := by
  induction chars with
  | nil => rfl
  | cons c rest ih =>
      obtain ⟨hhigh, hlow⟩ := not_isHalf c
      cases rest with
      | nil =>
          simp [joinHalves, hhigh, hlow]
      | cons next rest =>
          rw [List.map_cons] at ih
          simp [joinHalves, hhigh, hlow, ih]

theorem hexValue?_digitChar : ∀ digit < 16, hexValue? (Nat.digitChar digit) = some digit := by
  decide

/-- A backslash and a letter are read as the character that they stand for. -/
theorem result?_unescape (units : List Nat) (done : List Token) {letter c : Char}
    (h : unescape? letter = some c) (rest : List Char) :
    Lexer.result? ⟨.text units, done⟩ ('\\' :: letter :: rest) =
      Lexer.result? ⟨.text (c.toNat :: units), done⟩ rest := by
  have hletter : letter ≠ 'u' := by
    rintro rfl
    cases h
  have hbackslash : Lexer.feed ⟨.text units, done⟩ '\\' = some ⟨.escape units, done⟩ := rfl
  rw [Lexer.result?_cons, hbackslash, Option.bind_some, Lexer.result?_cons, Lexer.feed]
  simp only [hletter, if_false, h, Option.map_some, Option.bind_some]

/-- Two hexadecimal digits behind two zeros are read as the code unit of that value. -/
theorem result?_hex (units : List Nat) (done : List Token) {high low : Nat} (hhigh : high < 16)
    (hlow : low < 16) (rest : List Char) :
    Lexer.result? ⟨.text units, done⟩
        ('\\' :: 'u' :: '0' :: '0' :: Nat.digitChar high :: Nat.digitChar low :: rest) =
      Lexer.result? ⟨.text ((16 * high + low) :: units), done⟩ rest := by
  have hzero : hexValue? '0' = some 0 := by decide
  have hfirst := hexValue?_digitChar high hhigh
  have hsecond := hexValue?_digitChar low hlow
  simp [Lexer.result?_cons, Lexer.feed, hzero, hfirst, hsecond]

/-- An escaped character is read as that character. -/
theorem result?_escape (units : List Nat) (done : List Token) (c : Char) (rest : List Char) :
    Lexer.result? ⟨.text units, done⟩ (escape c ++ rest) =
      Lexer.result? ⟨.text (c.toNat :: units), done⟩ rest := by
  unfold escape
  split
  case isTrue heq => exact result?_unescape units done (by rw [heq]; rfl) rest
  case isFalse hquote =>
  split
  case isTrue heq => exact result?_unescape units done (by rw [heq]; rfl) rest
  case isFalse hbackslash =>
  split
  case isTrue heq => exact result?_unescape units done (by rw [heq]; rfl) rest
  split
  case isTrue heq => exact result?_unescape units done (by rw [heq]; rfl) rest
  split
  case isTrue heq => exact result?_unescape units done (by rw [heq]; rfl) rest
  split
  case isTrue heq => exact result?_unescape units done (by rw [heq]; rfl) rest
  split
  case isTrue heq => exact result?_unescape units done (by rw [heq]; rfl) rest
  split
  case isTrue hcontrol =>
    have hhigh : c.toNat / 16 < 16 := by omega
    have hlow : c.toNat % 16 < 16 := Nat.mod_lt c.toNat (by decide)
    have hunit : 16 * (c.toNat / 16) + c.toNat % 16 = c.toNat := Nat.div_add_mod c.toNat 16
    have hhex := result?_hex units done hhigh hlow rest
    rw [hunit] at hhex
    exact hhex
  case isFalse hplain =>
    rw [List.singleton_append, Lexer.result?_cons, Lexer.feed]
    simp only [hquote, hbackslash, hplain, if_false, Option.bind_some]

/-- The characters of a quoted text are gathered. -/
theorem result?_escaped (chars : List Char) (units : List Nat) (done : List Token)
    (rest : List Char) :
    Lexer.result? ⟨.text units, done⟩ (chars.flatMap escape ++ rest) =
      Lexer.result? ⟨.text ((chars.map Char.toNat).reverse ++ units), done⟩ rest := by
  induction chars generalizing units with
  | nil => rfl
  | cons c chars ih =>
      rw [List.flatMap_cons, List.append_assoc, result?_escape, ih, List.map_cons,
        List.reverse_cons, List.append_assoc]
      rfl

/-- A quoted text is read as that text. -/
theorem Lexes.quote {rest : List Char} {tokens : List Token} (text : String)
    (h : Lexes rest tokens) : Lexes (Json.quote text ++ rest) (.text (some text) :: tokens) := by
  intro done
  have hopen : Lexer.feed ⟨.between, done⟩ '"' = some ⟨.text [], done⟩ := rfl
  have hclose : ∀ units, Lexer.feed ⟨.text units, done⟩ '"' = some ⟨.between,
      .text ((joinHalves units.reverse).map String.ofList) :: done⟩ := fun _ => rfl
  rw [Json.quote, List.cons_append, List.append_assoc, Lexer.result?_cons, hopen, Option.bind_some,
    result?_escaped, List.append_nil, List.singleton_append, Lexer.result?_cons, hclose,
    Option.bind_some, List.reverse_reverse, joinHalves_toNat, Option.map_some, String.ofList_toList,
    h, List.reverse_cons, List.append_assoc]
  rfl

/-- The token of a value that holds no other. -/
def scalarToken : Json → Token
  | .string text => .text (some text)
  | other => .word other.writeScalar

mutual

/-- The tokens of a value. -/
def tokens : Json → List Token
  | .array items => .openArray :: (itemTokens items ++ [.closeArray])
  | .object members => .openObject :: (memberTokens members ++ [.closeObject])
  | scalar => [scalarToken scalar]

def itemTokens : List Json → List Token
  | [] => []
  | [item] => tokens item
  | item :: rest => tokens item ++ .comma :: itemTokens rest

def memberTokens : List (String × Json) → List Token
  | [] => []
  | [(name, value)] => .text (some name) :: .colon :: tokens value
  | (name, value) :: rest =>
      .text (some name) :: .colon :: (tokens value ++ .comma :: memberTokens rest)

end

theorem endsWord_mark {c : Char} (h : Lexer.endsWord c = true) (rest : List Char) :
    EndsWord (c :: rest) := by
  intro first hfirst
  cases hfirst
  exact h

theorem endsWord_newline (level : Nat) (rest : List Char) :
    EndsWord (newline level ++ rest) :=
  endsWord_mark (by decide) _

theorem Lexes.newline {rest : List Char} {tokens : List Token} (level : Nat)
    (h : Lexes rest tokens) : Lexes (Json.newline level ++ rest) tokens := by
  apply Lexes.blanks _ h
  intro c hmem
  rcases List.mem_cons.1 hmem with rfl | hmem
  · rfl
  · rw [List.eq_of_mem_replicate hmem]
    rfl

theorem Lexes.scalar {rest : List Char} {tokens : List Token} (json : Json) (hend : EndsWord rest)
    (h : Lexes rest tokens) : Lexes (json.writeScalar ++ rest) (json.scalarToken :: tokens) := by
  by_cases hstring : ∃ text, json = .string text
  · obtain ⟨text, rfl⟩ := hstring
    exact h.quote text
  · have hother : ∀ text, json ≠ .string text := fun text heq => hstring ⟨text, heq⟩
    have htoken : json.scalarToken = .word json.writeScalar := by
      cases json with
      | string text => exact absurd rfl (hother text)
      | _ => rfl
    obtain ⟨hnonempty, hletters⟩ := isWord_writeScalar hother
    rw [htoken]
    exact h.word hnonempty hletters hend

mutual

/-- The text on one line is read as the tokens of the value. -/
theorem lexes_write : ∀ (json : Json) {rest : List Char} {ts : List Token}, EndsWord rest →
    Lexes rest ts → Lexes (json.write ++ rest) (json.tokens ++ ts)
  | .array items, rest, ts, _, h => by
      simp only [write, tokens, List.cons_append, List.append_assoc, List.nil_append]
      apply Lexes.mark rfl
      exact lexes_writeItems items (endsWord_mark (by decide) _) (h.mark rfl)
  | .object members, rest, ts, _, h => by
      simp only [write, tokens, List.cons_append, List.append_assoc, List.nil_append]
      apply Lexes.mark rfl
      exact lexes_writeMembers members (endsWord_mark (by decide) _) (h.mark rfl)
  | .null, _, _, hend, h => h.scalar .null hend
  | .bool b, _, _, hend, h => h.scalar (.bool b) hend
  | .integer n, _, _, hend, h => h.scalar (.integer n) hend
  | .decimal x, _, _, hend, h => h.scalar (.decimal x) hend
  | .string text, _, _, hend, h => h.scalar (.string text) hend
  | .unreadable, _, _, hend, h => h.scalar .unreadable hend

theorem lexes_writeItems : ∀ (items : List Json) {rest : List Char} {ts : List Token},
    EndsWord rest → Lexes rest ts → Lexes (writeItems items ++ rest) (itemTokens items ++ ts)
  | [], _, _, _, h => h
  | [item], _, _, hend, h => lexes_write item hend h
  | item :: next :: others, rest, ts, hend, h => by
      simp only [writeItems, itemTokens, List.append_assoc, List.cons_append]
      apply lexes_write item (endsWord_mark (by decide) _)
      apply Lexes.mark rfl
      exact lexes_writeItems (next :: others) hend h

theorem lexes_writeMembers : ∀ (members : List (String × Json)) {rest : List Char}
    {ts : List Token}, EndsWord rest → Lexes rest ts →
      Lexes (writeMembers members ++ rest) (memberTokens members ++ ts)
  | [], _, _, _, h => h
  | [(name, value)], rest, ts, hend, h => by
      simp only [writeMembers, memberTokens, List.append_assoc, List.cons_append]
      apply Lexes.quote
      apply Lexes.mark rfl
      exact lexes_write value hend h
  | (name, value) :: next :: others, rest, ts, hend, h => by
      simp only [writeMembers, memberTokens, List.append_assoc, List.cons_append]
      apply Lexes.quote
      apply Lexes.mark rfl
      apply lexes_write value (endsWord_mark (by decide) _)
      apply Lexes.mark rfl
      exact lexes_writeMembers (next :: others) hend h

end

mutual

/-- The indented text is read as the tokens of the value. -/
theorem lexes_writeIndented : ∀ (level : Nat) (json : Json) {rest : List Char} {ts : List Token},
    EndsWord rest → Lexes rest ts → Lexes (json.writeIndented level ++ rest) (json.tokens ++ ts)
  | level, .array (item :: others), rest, ts, _, h => by
      simp only [writeIndented, tokens, List.cons_append, List.append_assoc, List.nil_append]
      apply Lexes.mark rfl
      apply lexes_writeIndentedItems (level + 1) (item :: others) (endsWord_newline level _)
      exact (h.mark rfl).newline level
  | level, .object (member :: others), rest, ts, _, h => by
      simp only [writeIndented, tokens, List.cons_append, List.append_assoc, List.nil_append]
      apply Lexes.mark rfl
      apply lexes_writeIndentedMembers (level + 1) (member :: others) (endsWord_newline level _)
      exact (h.mark rfl).newline level
  | _, .array [], _, _, _, h => (h.mark rfl).mark rfl
  | _, .object [], _, _, _, h => (h.mark rfl).mark rfl
  | _, .null, _, _, hend, h => h.scalar .null hend
  | _, .bool b, _, _, hend, h => h.scalar (.bool b) hend
  | _, .integer n, _, _, hend, h => h.scalar (.integer n) hend
  | _, .decimal x, _, _, hend, h => h.scalar (.decimal x) hend
  | _, .string text, _, _, hend, h => h.scalar (.string text) hend
  | _, .unreadable, _, _, hend, h => h.scalar .unreadable hend

theorem lexes_writeIndentedItems : ∀ (level : Nat) (items : List Json) {rest : List Char}
    {ts : List Token}, EndsWord rest → Lexes rest ts →
      Lexes (writeIndentedItems level items ++ rest) (itemTokens items ++ ts)
  | _, [], _, _, _, h => h
  | level, [item], rest, ts, hend, h => by
      simp only [writeIndentedItems, itemTokens, List.append_assoc]
      apply Lexes.newline
      exact lexes_writeIndented level item hend h
  | level, item :: next :: others, rest, ts, hend, h => by
      simp only [writeIndentedItems, itemTokens, List.append_assoc, List.cons_append]
      apply Lexes.newline
      apply lexes_writeIndented level item (endsWord_mark (by decide) _)
      apply Lexes.mark rfl
      exact lexes_writeIndentedItems level (next :: others) hend h

theorem lexes_writeIndentedMembers : ∀ (level : Nat) (members : List (String × Json))
    {rest : List Char} {ts : List Token}, EndsWord rest → Lexes rest ts →
      Lexes (writeIndentedMembers level members ++ rest) (memberTokens members ++ ts)
  | _, [], _, _, _, h => h
  | level, [(name, value)], rest, ts, hend, h => by
      simp only [writeIndentedMembers, memberTokens, List.append_assoc, List.cons_append]
      apply Lexes.newline
      apply Lexes.quote
      apply Lexes.mark rfl
      apply Lexes.blank rfl
      exact lexes_writeIndented level value hend h
  | level, (name, value) :: next :: others, rest, ts, hend, h => by
      simp only [writeIndentedMembers, memberTokens, List.append_assoc, List.cons_append]
      apply Lexes.newline
      apply Lexes.quote
      apply Lexes.mark rfl
      apply Lexes.blank rfl
      apply lexes_writeIndented level value (endsWord_mark (by decide) _)
      apply Lexes.mark rfl
      exact lexes_writeIndentedMembers level (next :: others) hend h

end

theorem endsWord_nil : EndsWord [] := by
  intro c hmem
  cases hmem

/-- Both texts of a value have its tokens. -/
theorem tokens?_write (json : Json) : tokens? json.write = some json.tokens := by
  have hlexes := tokens?_of_lexes (lexes_write json endsWord_nil Lexes.nil)
  rwa [List.append_nil, List.append_nil] at hlexes

theorem tokens?_writeIndented (json : Json) (level : Nat) :
    tokens? (json.writeIndented level) = some json.tokens := by
  have hlexes := tokens?_of_lexes (lexes_writeIndented level json endsWord_nil Lexes.nil)
  rwa [List.append_nil, List.append_nil] at hlexes

end Json

end FormDesigner
