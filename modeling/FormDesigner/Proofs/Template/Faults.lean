import Mathlib.Algebra.Group.Nat.Even
import Mathlib.Algebra.Ring.Parity
import FormDesigner.Proofs.Template.Joining
import FormDesigner.Proofs.Template.Offsets

/-!
What is wrong with a source, and where.

A source that splits has all its dollar signs in pairs.  One that does not is at fault where the
first directive opens that is not closed or cannot be read: up to there it splits.  The fault
carries the byte offset of that dollar sign, and every directive that is found carries its own.
-/

namespace FormDesigner

namespace Directive

variable {position : Nat} {content : List Char}

theorem splitMode_error {failure : TemplateError}
    (h : splitMode position content = .error failure) :
    ∃ letter, failure = .unknownMode letter position := by
  unfold splitMode at h
  repeat' split at h
  · cases h
  · cases h
  · cases h
  · cases h
    exact ⟨_, rfl⟩
  · cases h

theorem readContent_error {failure : TemplateError}
    (h : readContent position content = .error failure) : failure = .unclosedLiteral position := by
  unfold readContent at h
  split at h
  · split at h
    · cases h
    · cases h
      rfl
  · simp only at h
    split at h <;> cases h

/-- A directive that cannot be read has an unknown mode or a literal that is not closed. -/
theorem read_error {failure : TemplateError} (h : read position content = .error failure) :
    (∃ letter, failure = .unknownMode letter position) ∨ failure = .unclosedLiteral position := by
  simp only [read] at h
  split at h
  · rw [readAssignment] at h
    rcases Answer.of_bind_error h with hmode | ⟨_, _, hrest⟩
    · exact Or.inl (splitMode_error hmode)
    · cases hrest
  · rw [readReference] at h
    rcases Answer.of_bind_error h with hmode | ⟨⟨mode, rest⟩, _, hrest⟩
    · exact Or.inl (splitMode_error hmode)
    · rcases Answer.of_bind_error hrest with hcontent | ⟨_, _, hend⟩
      · exact Or.inr (readContent_error hcontent)
      · cases hend

theorem position_of_read {found : Directive} (h : read position content = .ok found) :
    found.position = position := by
  simp only [read] at h
  split at h
  · rw [readAssignment] at h
    obtain ⟨⟨mode, attr⟩, -, hrest⟩ := Answer.of_bind_ok h
    cases hrest
    rfl
  · rw [readReference] at h
    obtain ⟨⟨mode, rest⟩, -, hrest⟩ := Answer.of_bind_ok h
    obtain ⟨kind, -, hend⟩ := Answer.of_bind_ok hrest
    cases hend
    rfl

end Directive

namespace Token

/-- The byte offset of a dollar sign that opens a pair. -/
def OpensAt (source : List Char) (position : Nat) : Prop :=
  ∃ ahead behind, source = ahead ++ '$' :: behind ∧ Even (ahead.count '$') ∧
    position = byteCount ahead

/-- The positions of the directives among some pieces. -/
def positions (tokens : List Token) : List Nat :=
  tokens.filterMap fun
    | .text _ => none
    | .directive found => some found.position

theorem positions_ofText_append (letters : List Char) (tokens : List Token) :
    positions (ofText letters ++ tokens) = positions tokens := by
  rw [ofText]
  split <;> rfl

/-! ### What is found -/

section Found

variable {position offset : Nat} {letters source ahead inside rest : List Char}
  {tokens : List Token}

/-- What splits has its dollar signs in pairs. -/
theorem even_of_scanFrom_ok (h : scanFrom position (.text letters) source = .ok tokens) :
    Even (source.count '$') := by
  induction source using pairs_induction generalizing position letters tokens with
  | plain ahead hahead =>
      rw [List.count_eq_zero_of_not_mem hahead]
      exact Even.zero
  | unclosed ahead behind hahead hbehind =>
      rw [scanFrom_unclosed hahead hbehind] at h
      cases h
  | escape ahead rest hahead ih =>
      rw [scanFrom_escape hahead] at h
      rw [count_escape hahead]
      exact (ih h).add even_two
  | directive ahead inside rest hahead hinside hne ih =>
      obtain ⟨found, others, -, hrest, -⟩ := of_scanFrom_closed_ok hahead hinside hne h
      rw [count_closed hahead hinside]
      exact (ih hrest).add even_two

/-- Behind a pair of dollar signs they count anew. -/
theorem OpensAt.behind_escape (h : OpensAt rest offset) (hahead : '$' ∉ ahead) :
    OpensAt (ahead ++ '$' :: '$' :: rest) (byteCount ahead + 2 + offset) := by
  obtain ⟨front, behind, rfl, heven, rfl⟩ := h
  refine ⟨ahead ++ '$' :: '$' :: front, behind, by simp, ?_, ?_⟩
  · rw [count_escape hahead]
    exact heven.add even_two
  · rw [byteCount_append, byteCount_cons, byteCount_cons, ← Nat.add_assoc ('$'.utf8Size),
      ← Nat.add_assoc]
    rfl

/-- Behind a directive they count anew. -/
theorem OpensAt.behind_closed (h : OpensAt rest offset) (hahead : '$' ∉ ahead)
    (hinside : '$' ∉ inside) :
    OpensAt (ahead ++ '$' :: (inside ++ '$' :: rest))
      (byteCount ahead + 1 + byteCount inside + 1 + offset) := by
  obtain ⟨front, behind, rfl, heven, rfl⟩ := h
  have hdollar : '$'.utf8Size = 1 := rfl
  refine ⟨ahead ++ '$' :: (inside ++ '$' :: front), behind, by simp, ?_, ?_⟩
  · rw [count_closed hahead hinside]
    exact heven.add even_two
  · rw [byteCount_append, byteCount_cons, byteCount_append, byteCount_cons, hdollar]
    omega

/-- The directives of a source stand behind each other, each at the dollar sign that opens it. -/
theorem positions_of_scanFrom_ok (h : scanFrom position (.text letters) source = .ok tokens) :
    (positions tokens).Pairwise (· < ·) ∧ ∀ opened ∈ positions tokens,
      ∃ offset, OpensAt source offset ∧ opened = position + offset := by
  induction source using pairs_induction generalizing position letters tokens with
  | plain ahead hahead =>
      rw [scanFrom_plain hahead] at h
      cases h
      have hnone := positions_ofText_append (ahead.reverse ++ letters) []
      rw [List.append_nil] at hnone
      rw [hnone]
      exact ⟨List.Pairwise.nil, nofun⟩
  | unclosed ahead behind hahead hbehind =>
      rw [scanFrom_unclosed hahead hbehind] at h
      cases h
  | escape ahead rest hahead ih =>
      rw [scanFrom_escape hahead] at h
      obtain ⟨hsorted, hopens⟩ := ih h
      refine ⟨hsorted, fun opened hmem => ?_⟩
      obtain ⟨offset, hoffset, rfl⟩ := hopens opened hmem
      exact ⟨_, hoffset.behind_escape hahead, by omega⟩
  | directive ahead inside rest hahead hinside hne ih =>
      obtain ⟨found, others, hread, hrest, rfl⟩ := of_scanFrom_closed_ok hahead hinside hne h
      obtain ⟨hsorted, hopens⟩ := ih hrest
      have hpositions : positions (.directive found :: others) =
          (position + byteCount ahead) :: positions others := by
        rw [← Directive.position_of_read hread]
        rfl
      rw [positions_ofText_append, hpositions, List.pairwise_cons, List.forall_mem_cons]
      refine ⟨⟨fun opened hmem => ?_, hsorted⟩, ?_, fun opened hmem => ?_⟩
      · obtain ⟨offset, -, rfl⟩ := hopens opened hmem
        omega
      · refine ⟨byteCount ahead, ⟨ahead, inside ++ '$' :: rest, rfl, ?_, rfl⟩, rfl⟩
        rw [List.count_eq_zero_of_not_mem hahead]
        exact Even.zero
      · obtain ⟨offset, hoffset, rfl⟩ := hopens opened hmem
        exact ⟨_, hoffset.behind_closed hahead hinside, by omega⟩

end Found

/-! ### What is wrong -/

/-- What is wrong with a source: a directive is not closed or cannot be read, and up to the dollar
sign that opens it the source splits. -/
inductive Fault (source : List Char) : TemplateError → Prop where
  | unclosed {ahead behind : List Char} {tokens : List Token} :
      source = ahead ++ '$' :: behind → scan (String.ofList ahead) = .ok tokens →
      '$' ∉ behind → Fault source (.unclosedDirective (byteCount ahead))
  | malformed {ahead inside behind : List Char} {tokens : List Token} {failure : TemplateError} :
      source = ahead ++ '$' :: (inside ++ '$' :: behind) →
      scan (String.ofList ahead) = .ok tokens → '$' ∉ inside → inside ≠ [] →
      Directive.read (byteCount ahead) inside = .error failure → Fault source failure

section Faults

variable {front rest source : List Char} {tokens : List Token} {failure : TemplateError}

theorem scan_ofList (source : List Char) :
    scan (String.ofList source) = scanFrom 0 (.text []) source := by
  rw [scan, String.toList_ofList]

/-- Behind a source that splits, another one splits or fails as it does alone. -/
theorem scan_behind (h : scan (String.ofList front) = .ok tokens) (rest : List Char) :
    scan (String.ofList (front ++ rest)) =
      ((scan (String.ofList rest)).map fun more =>
        weld tokens (more.map (shift (byteCount front)))).mapError
          (TemplateError.shift (byteCount front)) := by
  rw [String.ofList_append, scan_append h, utf8ByteSize_ofList]

theorem scan_behind_error_iff (h : scan (String.ofList front) = .ok tokens) :
    scan (String.ofList (front ++ rest)) = .error failure ↔
      ∃ cause, scan (String.ofList rest) = .error cause ∧
        failure = cause.shift (byteCount front) := by
  rw [scan_behind h]
  cases scan (String.ofList rest) with
  | error cause =>
      constructor
      · rintro ⟨⟩
        exact ⟨cause, rfl, rfl⟩
      · rintro ⟨_, ⟨⟩, rfl⟩
        rfl
  | ok more =>
      constructor
      · rintro ⟨⟩
      · rintro ⟨_, ⟨⟩, _⟩

/-- What is wrong behind a source that splits. -/
theorem Fault.behind (h : Fault rest failure) (hfront : scan (String.ofList front) = .ok tokens) :
    Fault (front ++ rest) (failure.shift (byteCount front)) := by
  have hsplits {ahead : List Char} {others : List Token}
      (hahead : scan (String.ofList ahead) = .ok others) :
      ∃ more, scan (String.ofList (front ++ ahead)) = .ok more := by
    rw [scan_behind hfront, hahead]
    exact ⟨_, rfl⟩
  cases h with
  | @unclosed ahead behind others hrest hahead hbehind =>
      obtain ⟨more, hmore⟩ := hsplits hahead
      have hsource : front ++ rest = front ++ ahead ++ '$' :: behind := by
        rw [hrest, List.append_assoc]
      have hfault := Fault.unclosed hsource hmore hbehind
      rwa [byteCount_append] at hfault
  | @malformed ahead inside behind others cause hrest hahead hinside hne hread =>
      obtain ⟨more, hmore⟩ := hsplits hahead
      have hsource : front ++ rest = front ++ ahead ++ '$' :: (inside ++ '$' :: behind) := by
        rw [hrest, List.append_assoc]
      refine .malformed hsource hmore hinside hne ?_
      rw [byteCount_append, Directive.read_shift, hread]
      rfl

theorem fault_of_scan_error (h : scan (String.ofList source) = .error failure) :
    Fault source failure := by
  induction source using pairs_induction generalizing failure with
  | plain ahead hahead =>
      rw [scan_ofList, scanFrom_plain hahead] at h
      cases h
  | unclosed ahead behind hahead hbehind =>
      rw [scan_ofList, scanFrom_unclosed hahead hbehind, Nat.zero_add] at h
      cases h
      exact .unclosed rfl ((scan_ofList ahead).trans (scanFrom_plain hahead)) hbehind
  | escape ahead rest hahead ih =>
      have hfront : scan (String.ofList (ahead ++ ['$', '$'])) =
          .ok (ofText ('$' :: (ahead.reverse ++ []))) := by
        rw [scan_ofList, scanFrom_escape hahead]
        rfl
      have hsource : ahead ++ '$' :: '$' :: rest = ahead ++ ['$', '$'] ++ rest := by simp
      rw [hsource] at h ⊢
      obtain ⟨cause, hcause, rfl⟩ := (scan_behind_error_iff hfront).mp h
      exact (ih hcause).behind hfront
  | directive ahead inside rest hahead hinside hne ih =>
      cases hread : Directive.read (byteCount ahead) inside with
      | error cause =>
          rw [scan_ofList, scanFrom_closed hahead hinside hne, Nat.zero_add, hread] at h
          cases h
          exact .malformed rfl ((scan_ofList ahead).trans (scanFrom_plain hahead)) hinside hne hread
      | ok found =>
          have hfront : scan (String.ofList (ahead ++ '$' :: (inside ++ ['$']))) =
              .ok (ofText (ahead.reverse ++ []) ++ [.directive found]) := by
            rw [scan_ofList, scanFrom_closed hahead hinside hne, Nat.zero_add, hread]
            rfl
          have hsource : ahead ++ '$' :: (inside ++ '$' :: rest) =
              ahead ++ '$' :: (inside ++ ['$']) ++ rest := by simp
          rw [hsource] at h ⊢
          obtain ⟨cause, hcause, rfl⟩ := (scan_behind_error_iff hfront).mp h
          exact (ih hcause).behind hfront

theorem Fault.scan_error (h : Fault source failure) :
    scan (String.ofList source) = .error failure := by
  cases h with
  | @unclosed ahead behind tokens hsource hahead hbehind =>
      rw [hsource, scan_behind_error_iff hahead]
      refine ⟨.unclosedDirective 0, ?_, rfl⟩
      rw [scan_ofList, ← List.nil_append ('$' :: behind)]
      exact scanFrom_unclosed List.not_mem_nil hbehind
  | @malformed ahead inside behind tokens _ hsource hahead hinside hne hread =>
      have hshift : Directive.read (byteCount ahead + 0) inside = _ := Directive.read_shift inside
      have hclosed : scanFrom 0 (.text []) ([] ++ '$' :: (inside ++ '$' :: behind)) = _ :=
        scanFrom_closed List.not_mem_nil hinside hne
      have hstart : 0 + byteCount [] = 0 := rfl
      rw [Nat.add_zero, hread] at hshift
      rw [List.nil_append, hstart] at hclosed
      rw [hsource, scan_behind_error_iff hahead, scan_ofList, hclosed]
      cases hfirst : Directive.read 0 inside with
      | error cause =>
          rw [hfirst] at hshift
          cases hshift
          exact ⟨cause, rfl, rfl⟩
      | ok found =>
          rw [hfirst] at hshift
          cases hshift

end Faults

/-- A source fails exactly by what is wrong with it. -/
theorem scan_error_iff_fault {source : List Char} {failure : TemplateError} :
    scan (String.ofList source) = .error failure ↔ Fault source failure :=
  ⟨fault_of_scan_error, Fault.scan_error⟩

/-- Splitting a source cuts it at ends of characters only, and ends after one round for each pair of
dollar signs and one more.  With an odd number of dollar signs it fails; a directive that is not
closed is reported only then, at the last dollar sign.  Any other failure is that of the first
directive that cannot be read, at the dollar sign that opens it, and up to there the source splits.
If nothing fails, the directives ascend, each at a dollar sign that opens a pair. -/
theorem faults_are_exact (source : String) :
    scanAt? source.toList (source.toList.count '$' / 2 + 1) 0 [] = some (scan source) ∧
    (Odd (source.toList.count '$') → ∃ failure, scan source = .error failure) ∧
    (∀ position, scan source = .error (.unclosedDirective position) →
      Odd (source.toList.count '$') ∧
      ∃ ahead behind, source.toList = ahead ++ '$' :: behind ∧ '$' ∉ behind ∧
        position = byteCount ahead) ∧
    (∀ failure, (∀ position, failure ≠ .unclosedDirective position) →
      (scan source = .error failure ↔
        ∃ ahead inside behind tokens, source.toList = ahead ++ '$' :: (inside ++ '$' :: behind) ∧
          Even (ahead.count '$') ∧ scan (String.ofList ahead) = .ok tokens ∧
          '$' ∉ inside ∧ inside ≠ [] ∧
          Directive.read (byteCount ahead) inside = .error failure ∧
          failure.position = byteCount ahead)) ∧
    ∀ tokens, scan source = .ok tokens →
      (positions tokens).Pairwise (· < ·) ∧
      ∀ position ∈ positions tokens, OpensAt source.toList position := by
  have hfault {failure : TemplateError} :
      scan source = .error failure ↔ Fault source.toList failure := by
    rw [← scan_error_iff_fault, String.ofList_toList]
  have heven {ahead : List Char} {tokens : List Token}
      (h : scan (String.ofList ahead) = .ok tokens) : Even (ahead.count '$') :=
    even_of_scanFrom_ok ((scan_ofList ahead).symm.trans h)
  refine ⟨scanAt?_start source, fun hodd => ?_, fun position h => ?_, fun failure hother => ?_,
    fun tokens h => ?_⟩
  · cases hscan : scan source with
    | error failure => exact ⟨failure, rfl⟩
    | ok tokens => exact absurd (even_of_scanFrom_ok hscan) (Nat.not_even_iff_odd.mpr hodd)
  · cases hfault.mp h with
    | @unclosed ahead behind tokens hsource hahead hbehind =>
        refine ⟨?_, ahead, behind, hsource, hbehind, rfl⟩
        rw [hsource, List.count_append, List.count_cons_self,
          List.count_eq_zero_of_not_mem hbehind]
        exact (heven hahead).add_one
    | malformed _ _ _ _ hread =>
        rcases Directive.read_error hread with ⟨letter, hmode⟩ | hliteral
        · cases hmode
        · cases hliteral
  · rw [hfault]
    constructor
    · rintro (_ | @⟨ahead, inside, behind, tokens, _, hsource, hahead, hinside, hne, hread⟩)
      · exact absurd rfl (hother _)
      · refine ⟨ahead, inside, behind, tokens, hsource, heven hahead, hahead, hinside, hne, hread,
          ?_⟩
        rcases Directive.read_error hread with ⟨letter, rfl⟩ | rfl
        · rfl
        · rfl
    · rintro ⟨ahead, inside, behind, tokens, hsource, -, hahead, hinside, hne, hread, -⟩
      exact .malformed hsource hahead hinside hne hread
  · obtain ⟨hsorted, hopens⟩ := positions_of_scanFrom_ok h
    refine ⟨hsorted, fun position hmem => ?_⟩
    obtain ⟨offset, hoffset, rfl⟩ := hopens position hmem
    rwa [Nat.zero_add]

/-- A letter of two bytes stands ahead of a directive that is not closed, of one with an unknown
mode, and between two that can be read. -/
theorem faults_are_exact_of_accents :
    (∃ failure, scan "$a$é$b" = .error failure) ∧
    (Odd ("$a$é$b".toList.count '$') ∧
      ∃ ahead behind, "$a$é$b".toList = ahead ++ '$' :: behind ∧ '$' ∉ behind ∧
        5 = byteCount ahead) ∧
    scan "é$x:b$ $" = .error (.unknownMode 'x' 2) ∧
    ([0, 5].Pairwise (· < ·) ∧ ∀ position ∈ [0, 5], OpensAt "$a$é$b$".toList position) := by
  refine ⟨(faults_are_exact "$a$é$b").2.1 (by decide),
    (faults_are_exact "$a$é$b").2.2.1 5 rfl, ?_, ?_⟩
  · refine ((faults_are_exact "é$x:b$ $").2.2.2.1 (.unknownMode 'x' 2) nofun).mpr ?_
    exact ⟨['é'], ['x', ':', 'b'], [' ', '$'], [.text "é"], rfl, by decide, rfl, by decide,
      by decide, rfl, rfl⟩
  · exact (faults_are_exact "$a$é$b$").2.2.2.2 _ rfl

end Token

end FormDesigner
