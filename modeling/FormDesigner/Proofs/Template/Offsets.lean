import FormDesigner.Proofs.Template.Pairing

/-!
Scanning by byte offsets.

A scanner that keeps the whole source and cuts it at byte offsets, with every cut checked: no text
can be cut inside a character.  All marks of the notation are single bytes, so no cut fails, and
each round of its loop takes two dollar signs.  It finds what `Token.scan` finds.
-/

namespace FormDesigner

open Token (byteCount byteCount_cons byteCount_append)

namespace Bytes

/-! ### Cuts -/

/-- Cuts a text behind its first `offset` bytes.  There is no cut inside a character or behind the
end. -/
def cut? : Nat → List Char → Option (List Char × List Char)
  | 0, text => some ([], text)
  | _ + 1, [] => none
  | offset + 1, c :: rest =>
      if c.utf8Size ≤ offset + 1 then
        (cut? (offset + 1 - c.utf8Size) rest).map fun parts => (c :: parts.1, parts.2)
      else none

example : cut? 1 ['é', 'x'] = none ∧ cut? 2 ['é', 'x'] = some (['é'], ['x']) := by decide

/-- A text from a byte offset on. -/
def from? (start : Nat) (text : List Char) : Option (List Char) := (cut? start text).map Prod.snd

/-- A text up to a byte offset. -/
def upTo? (stop : Nat) (text : List Char) : Option (List Char) := (cut? stop text).map Prod.fst

/-- The part of a text between two byte offsets. -/
def between? (start stop : Nat) (text : List Char) : Option (List Char) :=
  (upTo? stop text).bind (from? start)

/-- The byte offset of the first place of a character. -/
def find? (mark : Char) : List Char → Option Nat
  | [] => none
  | c :: rest => if c = mark then some 0 else (find? mark rest).map (c.utf8Size + ·)

section Cuts

variable {mark : Char} {ahead : List Char} (behind : List Char)

/-- Behind a character a text can be cut. -/
theorem cut?_append (ahead behind : List Char) :
    cut? (byteCount ahead) (ahead ++ behind) = some (ahead, behind) := by
  induction ahead with
  | nil => simp [cut?, byteCount]
  | cons c rest ih =>
      obtain ⟨size, hsize⟩ := Nat.exists_eq_add_one.mpr c.utf8Size_pos
      have hcount : byteCount (c :: rest) = size + byteCount rest + 1 := by
        rw [byteCount_cons, hsize]
        omega
      have hrest : size + byteCount rest + 1 - c.utf8Size = byteCount rest := by omega
      rw [hcount, List.cons_append, cut?, if_pos (by omega), hrest, ih]
      rfl

theorem from?_append (ahead behind : List Char) :
    from? (byteCount ahead) (ahead ++ behind) = some behind := by
  rw [from?, cut?_append]
  rfl

/-- Behind a mark of one byte. -/
theorem from?_append_mark (hmark : mark.utf8Size = 1) (ahead behind : List Char) :
    from? (byteCount ahead + 1) (ahead ++ mark :: behind) = some behind := by
  have hcount : byteCount (ahead ++ [mark]) = byteCount ahead + 1 := by
    rw [byteCount_append, byteCount_cons, hmark]
    rfl
  have hbehind := from?_append (ahead ++ [mark]) behind
  rwa [hcount, ← List.append_cons] at hbehind

theorem upTo?_append (ahead behind : List Char) :
    upTo? (byteCount ahead) (ahead ++ behind) = some ahead := by
  rw [upTo?, cut?_append]
  rfl

theorem between?_append (ahead inside behind : List Char) :
    between? (byteCount ahead) (byteCount ahead + byteCount inside) (ahead ++ (inside ++ behind)) =
      some inside := by
  rw [between?, ← byteCount_append, ← List.append_assoc, upTo?_append]
  exact from?_append ahead inside

theorem find?_eq_none (h : mark ∉ ahead) : find? mark ahead = none := by
  induction ahead with
  | nil => rfl
  | cons c rest ih =>
      obtain ⟨hc, hrest⟩ := List.ne_and_not_mem_of_not_mem_cons h
      rw [find?, if_neg (Ne.symm hc), ih hrest]
      rfl

theorem find?_append (h : mark ∉ ahead) :
    find? mark (ahead ++ mark :: behind) = some (byteCount ahead) := by
  induction ahead with
  | nil => simp [find?, byteCount]
  | cons c rest ih =>
      obtain ⟨hc, hrest⟩ := List.ne_and_not_mem_of_not_mem_cons h
      rw [List.cons_append, find?, if_neg (Ne.symm hc), ih hrest]
      rfl

end Cuts

/-! ### Bytes -/

section Bytes

variable {c : Char} {byte : UInt8}

/-- Every byte of a character of several bytes has its highest bit set. -/
theorem lt_of_mem_utf8EncodeChar (hsize : c.utf8Size ≠ 1)
    (hmem : byte ∈ String.utf8EncodeChar c) : 127 < byte.toNat := by
  have hval : ¬c.val.toNat ≤ 127 := fun h =>
    hsize (Char.utf8Size_eq_one_iff.mpr (UInt32.le_iff_toNat_le.mpr h))
  have hhigh (n : Nat) (hlow : 128 ≤ n) (hbelow : n < 256) : 127 < (UInt8.ofNat n).toNat := by
    rw [UInt8.toNat_ofNat', Nat.mod_eq_of_lt hbelow]
    omega
  simp only [String.utf8EncodeChar, if_neg hval] at hmem
  split at hmem
  · rcases List.mem_pair.mp hmem with rfl | rfl
    · exact hhigh _ (by omega) (by omega)
    · exact hhigh _ (by omega) (by omega)
  · split at hmem
    · simp only [List.mem_cons, List.not_mem_nil, or_false] at hmem
      rcases hmem with rfl | rfl | rfl
      · exact hhigh _ (by omega) (by omega)
      · exact hhigh _ (by omega) (by omega)
      · exact hhigh _ (by omega) (by omega)
    · simp only [List.mem_cons, List.not_mem_nil, or_false] at hmem
      rcases hmem with rfl | rfl | rfl | rfl
      · exact hhigh _ (by omega) (by omega)
      · exact hhigh _ (by omega) (by omega)
      · exact hhigh _ (by omega) (by omega)
      · exact hhigh _ (by omega) (by omega)

/-- The byte of a character of one byte. -/
theorem eq_ofUInt8 (hsize : c.utf8Size = 1) : c = Char.ofUInt8 c.toUInt8 := by
  have hval : c.val.toNat ≤ 127 := UInt32.le_iff_toNat_le.mp (Char.utf8Size_eq_one_iff.mp hsize)
  apply Char.toNat_inj.mp
  change c.val.toNat = c.val.toUInt8.toUInt32.toNat
  rw [UInt8.toNat_toUInt32, UInt32.toNat_toUInt8]
  omega

/-- A byte below 128 is a whole character. -/
theorem eq_of_mem_utf8EncodeChar (hmem : byte ∈ String.utf8EncodeChar c)
    (hbyte : byte.toNat ≤ 127) : String.utf8EncodeChar c = [byte] ∧ c = Char.ofUInt8 byte := by
  have hsize : c.utf8Size = 1 := by
    by_contra hsize
    exact absurd hbyte (Nat.not_le.mpr (lt_of_mem_utf8EncodeChar hsize hmem))
  rw [String.utf8EncodeChar_eq_singleton hsize] at hmem
  cases List.mem_singleton.mp hmem
  exact ⟨String.utf8EncodeChar_eq_singleton hsize, eq_ofUInt8 hsize⟩

theorem exists_utf8EncodeChar (c : Char) :
    ∃ first more, String.utf8EncodeChar c = first :: more ∧ more.length + 1 = c.utf8Size := by
  have hlength := String.length_utf8EncodeChar c
  have hpos := c.utf8Size_pos
  cases hbytes : String.utf8EncodeChar c with
  | nil =>
      rw [hbytes, List.length_nil] at hlength
      omega
  | cons first more =>
      rw [hbytes] at hlength
      exact ⟨first, more, rfl, hlength⟩

end Bytes

end Bytes

namespace Directive

/-- Splits a mode and its colon off the front, by the first two bytes. -/
def splitModeAt? (position : Nat) (name : List Char) :
    Option (Except TemplateError (Option RenderMode × List Char)) :=
  match name.flatMap String.utf8EncodeChar with
  | first :: second :: _ =>
      if second = ':'.toUInt8 then
        let letter := Char.ofUInt8 first
        if letter = 'e' || letter = 'E' then
          (Bytes.from? 2 name).map fun rest => .ok (some .edit, rest)
        else if letter = 'r' || letter = 'R' then
          (Bytes.from? 2 name).map fun rest => .ok (some .run, rest)
        else some (.error (.unknownMode letter position))
      else some (.ok (none, name))
  | _ => some (.ok (none, name))

section Mode

variable {letter : Char} {rest : List Char}

theorem flatMap_utf8EncodeChar_colon (hsize : letter.utf8Size = 1) :
    (letter :: ':' :: rest).flatMap String.utf8EncodeChar =
      letter.toUInt8 :: ':'.toUInt8 :: rest.flatMap String.utf8EncodeChar := by
  rw [List.flatMap_cons, String.utf8EncodeChar_eq_singleton hsize, List.flatMap_cons]
  rfl

/-- The second byte is a colon only if the second character is one, behind a character of one
byte. -/
theorem of_second_byte {name : List Char} {first : UInt8} {more : List UInt8}
    (h : name.flatMap String.utf8EncodeChar = first :: ':'.toUInt8 :: more) :
    ∃ letter rest, name = letter :: ':' :: rest ∧ letter.utf8Size = 1 := by
  have hcolon {c : Char} (hmem : ':'.toUInt8 ∈ String.utf8EncodeChar c) :
      String.utf8EncodeChar c = [':'.toUInt8] ∧ c = ':' :=
    Bytes.eq_of_mem_utf8EncodeChar hmem (by decide)
  cases name with
  | nil => cases h
  | cons letter rest =>
      rw [List.flatMap_cons] at h
      obtain ⟨byte, others, hletter, hlength⟩ := Bytes.exists_utf8EncodeChar letter
      rw [hletter] at h
      cases others with
      | cons other others =>
          cases h
          -- The colon would be a byte of the first character, and so all of it.
          have hmem : ':'.toUInt8 ∈ String.utf8EncodeChar letter := by
            rw [hletter]
            exact List.mem_cons_of_mem _ List.mem_cons_self
          cases hletter.symm.trans (hcolon hmem).1
      | nil =>
          cases rest with
          | nil => cases h
          | cons c rest =>
              rw [List.flatMap_cons] at h
              obtain ⟨byte, others, hc, -⟩ := Bytes.exists_utf8EncodeChar c
              rw [hc] at h
              cases h
              have hmem : ':'.toUInt8 ∈ String.utf8EncodeChar c := by
                rw [hc]
                exact List.mem_cons_self
              cases (hcolon hmem).2
              exact ⟨letter, rest, rfl, hlength.symm⟩

theorem splitModeAt?_eq (position : Nat) (name : List Char) :
    splitModeAt? position name = some (splitMode position name) := by
  by_cases hmode : ∃ letter rest, name = letter :: ':' :: rest ∧ letter.utf8Size = 1
  · obtain ⟨letter, rest, rfl, hsize⟩ := hmode
    have hfrom : Bytes.from? 2 (letter :: ':' :: rest) = some rest := by
      have hcount : byteCount [letter, ':'] = 2 := by
        rw [byteCount_cons, hsize]
        rfl
      rw [← hcount]
      exact Bytes.from?_append [letter, ':'] rest
    have hletter := (Bytes.eq_ofUInt8 hsize).symm
    simp only [splitModeAt?, flatMap_utf8EncodeChar_colon hsize, hfrom, hletter, splitMode, hsize]
    simp only [if_true, ne_eq, not_true_eq_false, if_false, Option.map_some]
    repeat' split
    · rfl
    · rfl
    · rfl
  · have hwhole : splitMode position name = .ok (none, name) := by
      unfold splitMode
      split
      · next letter rest =>
          rw [if_pos fun hsize => hmode ⟨letter, rest, rfl, hsize⟩]
      · rfl
    rw [hwhole]
    unfold splitModeAt?
    split
    · next first second more hbytes =>
        rw [if_neg]
        rintro rfl
        exact hmode (of_second_byte hbytes)
    · rfl

end Mode

/-- Reads a directive that sets an attribute. -/
def readAssignmentAt? (position : Nat) (name value : List Char) :
    Option (Except TemplateError Directive) := do
  let (name, optional) := stripOptional name
  match ← splitModeAt? position name with
  | .error failure => return .error failure
  | .ok (mode, attr) =>
      let (property, braced) := stripBraces value
      return .ok ⟨position, mode,
        .assignment (String.ofList attr) (String.ofList property) optional braced⟩

/-- Reads a directive that stands for content. -/
def readReferenceAt? (position : Nat) (content : List Char) :
    Option (Except TemplateError Directive) := do
  match ← splitModeAt? position content with
  | .error failure => return .error failure
  | .ok (mode, content) =>
      return (readContent position content).map fun kind => ⟨position, mode, kind⟩

/-- Reads what stands between two dollar signs, cut at the first equals sign unless it stands in
front. -/
def readAt? (position : Nat) (content : List Char) : Option (Except TemplateError Directive) :=
  match Bytes.find? '=' content with
  | some (offset + 1) => do
      let name ← Bytes.upTo? (offset + 1) content
      let value ← Bytes.from? (offset + 2) content
      readAssignmentAt? position name value
  | _ => readReferenceAt? position content

theorem readAssignmentAt?_eq (position : Nat) (name value : List Char) :
    readAssignmentAt? position name value = some (readAssignment position name value) := by
  simp only [readAssignmentAt?, readAssignment, splitModeAt?_eq]
  rcases splitMode position (stripOptional name).1 with failure | ⟨mode, attr⟩
  · rfl
  · rfl

theorem readReferenceAt?_eq (position : Nat) (content : List Char) :
    readReferenceAt? position content = some (readReference position content) := by
  simp only [readReferenceAt?, readReference, splitModeAt?_eq]
  rcases splitMode position content with failure | ⟨mode, content⟩
  · rfl
  · simp only [bind, Option.bind, Except.bind]
    cases readContent position content <;> rfl

theorem readAt?_eq (position : Nat) (content : List Char) :
    readAt? position content = some (read position content) := by
  by_cases hequals : '=' ∈ content
  · obtain ⟨name, value, rfl, hname⟩ := List.eq_append_cons_of_mem hequals
    rw [readAt?, Bytes.find?_append value hname, read, span_equals hname]
    cases name with
    | nil => exact readReferenceAt?_eq position _
    | cons c more =>
        have hpos : 0 < byteCount (c :: more) := by
          rw [byteCount_cons]
          exact Nat.add_pos_left c.utf8Size_pos _
        obtain ⟨size, hsize⟩ := Nat.exists_eq_add_one.mpr hpos
        have hahead := Bytes.upTo?_append (c :: more) ('=' :: value)
        have hbehind := Bytes.from?_append_mark (show '='.utf8Size = 1 from rfl) (c :: more) value
        rw [hsize] at hahead hbehind
        simp only [hsize, hahead, hbehind]
        exact readAssignmentAt?_eq position (c :: more) value
  · rw [readAt?, Bytes.find?_eq_none hequals, read_of_not_mem hequals]
    exact readReferenceAt?_eq position content

end Directive

namespace Token

/-- Splits a source from the byte `start` on, behind pending text, in at most so many rounds.
There is no result if the rounds run out or a cut fails. -/
def scanAt? (source : List Char) :
    Nat → Nat → List Char → Option (Except TemplateError (List Token))
  | 0, _, _ => none
  | rounds + 1, start, pending => do
      let rest ← Bytes.from? start source
      match Bytes.find? '$' rest with
      | none => return .ok (ofText (pending ++ rest).reverse)
      | some offset =>
          let opened := start + offset
          let ahead ← Bytes.between? start opened source
          let behind ← Bytes.from? (opened + 1) source
          match Bytes.find? '$' behind with
          | none => return .error (.unclosedDirective opened)
          | some length =>
              let closed := opened + 1 + length
              if length = 0 then scanAt? source rounds (closed + 1) (pending ++ ahead ++ ['$'])
              else
                let content ← Bytes.between? (opened + 1) closed source
                match ← Directive.readAt? opened content with
                | .error failure => return .error failure
                | .ok found =>
                    (scanAt? source rounds (closed + 1) []).map
                      (·.map (ofText (pending ++ ahead).reverse ++ .directive found :: ·))

section Rounds

variable (consumed ahead inside behind rest pending : List Char) {rounds : Nat}

theorem byteCount_append_dollar (text : List Char) :
    byteCount (text ++ ['$']) = byteCount text + 1 :=
  byteCount_append text ['$']

theorem scanAt?_plain (hahead : '$' ∉ ahead) :
    scanAt? (consumed ++ ahead) (rounds + 1) (byteCount consumed) pending =
      some (.ok (ofText (pending ++ ahead).reverse)) := by
  simp only [scanAt?, Bytes.from?_append, Option.bind_eq_bind, Option.bind_some,
    Bytes.find?_eq_none hahead]
  rfl

/-- The cuts at a dollar sign. -/
theorem cuts_opened :
    Bytes.between? (byteCount consumed) (byteCount consumed + byteCount ahead)
        (consumed ++ (ahead ++ '$' :: behind)) = some ahead ∧
      Bytes.from? (byteCount consumed + byteCount ahead + 1)
        (consumed ++ (ahead ++ '$' :: behind)) = some behind := by
  refine ⟨Bytes.between?_append consumed ahead _, ?_⟩
  rw [← byteCount_append, ← List.append_assoc]
  exact Bytes.from?_append_mark rfl (consumed ++ ahead) behind

theorem scanAt?_unclosed (hahead : '$' ∉ ahead) (hbehind : '$' ∉ behind) :
    scanAt? (consumed ++ (ahead ++ '$' :: behind)) (rounds + 1) (byteCount consumed) pending =
      some (.error (.unclosedDirective (byteCount consumed + byteCount ahead))) := by
  obtain ⟨hcut, hopened⟩ := cuts_opened consumed ahead behind
  simp only [scanAt?, Bytes.from?_append, Option.bind_eq_bind, Option.bind_some,
    Bytes.find?_append _ hahead, hcut, hopened, Bytes.find?_eq_none hbehind]
  rfl

theorem scanAt?_escape (hahead : '$' ∉ ahead) :
    scanAt? (consumed ++ (ahead ++ '$' :: '$' :: rest)) (rounds + 1) (byteCount consumed) pending =
      scanAt? (consumed ++ (ahead ++ '$' :: '$' :: rest)) rounds
        (byteCount consumed + byteCount ahead + 2) (pending ++ ahead ++ ['$']) := by
  obtain ⟨hcut, hopened⟩ := cuts_opened consumed ahead ('$' :: rest)
  have hclosed : Bytes.find? '$' ('$' :: rest) = some 0 := rfl
  simp only [scanAt?, Bytes.from?_append, Option.bind_eq_bind, Option.bind_some,
    Bytes.find?_append _ hahead, hcut, hopened, hclosed]
  rfl

theorem scanAt?_closed (hahead : '$' ∉ ahead) (hinside : '$' ∉ inside) (hne : inside ≠ []) :
    scanAt? (consumed ++ (ahead ++ '$' :: (inside ++ '$' :: rest))) (rounds + 1)
        (byteCount consumed) pending =
      match Directive.read (byteCount consumed + byteCount ahead) inside with
      | .error failure => some (.error failure)
      | .ok found =>
          (scanAt? (consumed ++ (ahead ++ '$' :: (inside ++ '$' :: rest))) rounds
            (byteCount consumed + byteCount ahead + 1 + byteCount inside + 1) []).map
              (·.map (ofText (pending ++ ahead).reverse ++ .directive found :: ·)) := by
  obtain ⟨hcut, hopened⟩ := cuts_opened consumed ahead (inside ++ '$' :: rest)
  have hcontent : Bytes.between? (byteCount consumed + byteCount ahead + 1)
      (byteCount consumed + byteCount ahead + 1 + byteCount inside)
      (consumed ++ (ahead ++ '$' :: (inside ++ '$' :: rest))) = some inside := by
    have hbetween := Bytes.between?_append (consumed ++ ahead ++ ['$']) inside ('$' :: rest)
    rw [byteCount_append_dollar, byteCount_append] at hbetween
    simpa using hbetween
  have hlength : byteCount inside ≠ 0 := by
    obtain ⟨c, more, rfl⟩ := List.exists_cons_of_ne_nil hne
    have hpos := c.utf8Size_pos
    rw [byteCount_cons]
    omega
  simp only [scanAt?, Bytes.from?_append, Option.bind_eq_bind, Option.bind_some,
    Bytes.find?_append _ hahead, hcut, hopened, Bytes.find?_append _ hinside, if_neg hlength,
    hcontent, Directive.readAt?_eq]
  cases Directive.read (byteCount consumed + byteCount ahead) inside with
  | error failure => rfl
  | ok found => rfl

end Rounds

/-- No cut fails, and as many rounds as there are pairs of dollar signs, and one more, are enough:
at a place where the scanner is in text, it finds what `scanFrom` finds behind it. -/
theorem scanAt?_eq (consumed rest pending : List Char) {rounds : Nat}
    (h : rest.count '$' < 2 * rounds) :
    scanAt? (consumed ++ rest) rounds (byteCount consumed) pending =
      some (scanFrom (byteCount consumed) (.text pending.reverse) rest) := by
  induction rest using pairs_induction generalizing consumed pending rounds with
  | plain ahead hahead =>
      obtain ⟨rounds, rfl⟩ := Nat.exists_eq_add_one.mpr (show 0 < rounds by omega)
      rw [scanAt?_plain _ _ _ hahead, scanFrom_plain hahead, List.reverse_append]
  | unclosed ahead behind hahead hbehind =>
      obtain ⟨rounds, rfl⟩ := Nat.exists_eq_add_one.mpr (show 0 < rounds by omega)
      rw [scanAt?_unclosed _ _ _ _ hahead hbehind, scanFrom_unclosed hahead hbehind]
  | escape ahead rest hahead ih =>
      obtain ⟨rounds, rfl⟩ := Nat.exists_eq_add_one.mpr (show 0 < rounds by omega)
      have hrest : rest.count '$' < 2 * rounds := by
        rw [count_escape hahead] at h
        omega
      have hnext := ih (consumed ++ ahead ++ ['$'] ++ ['$']) (pending ++ ahead ++ ['$']) hrest
      rw [byteCount_append_dollar, byteCount_append_dollar, byteCount_append] at hnext
      rw [scanAt?_escape _ _ _ _ hahead, scanFrom_escape hahead]
      simpa using hnext
  | directive ahead inside rest hahead hinside hne ih =>
      obtain ⟨rounds, rfl⟩ := Nat.exists_eq_add_one.mpr (show 0 < rounds by omega)
      have hrest : rest.count '$' < 2 * rounds := by
        rw [count_closed hahead hinside] at h
        omega
      have hnext := ih (consumed ++ ahead ++ ['$'] ++ inside ++ ['$']) [] hrest
      rw [byteCount_append_dollar, byteCount_append, byteCount_append_dollar, byteCount_append]
        at hnext
      have hsource : consumed ++ ahead ++ ['$'] ++ inside ++ ['$'] ++ rest =
          consumed ++ (ahead ++ '$' :: (inside ++ '$' :: rest)) := by simp
      rw [hsource] at hnext
      rw [scanAt?_closed _ _ _ _ _ hahead hinside hne, scanFrom_closed hahead hinside hne, hnext,
        List.reverse_append]
      cases Directive.read (byteCount consumed + byteCount ahead) inside <;> rfl

/-- The scanner by byte offsets finds the pieces of a source. -/
theorem scanAt?_start (source : String) :
    scanAt? source.toList (source.toList.count '$' / 2 + 1) 0 [] = some (scan source) :=
  scanAt?_eq [] source.toList [] (by omega)

end Token

end FormDesigner
