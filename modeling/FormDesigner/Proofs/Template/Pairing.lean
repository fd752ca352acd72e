import Mathlib.Data.List.Basic
import FormDesigner.Proofs.Template.Scanning

/-!
Dollar signs in pairs.

The scanner takes two dollar signs at a time: two that touch are one of the text, and two apart
have a directive between them.  A source is therefore text alone, or it ends inside a directive,
or it starts with such a pair; that is the induction by which all of scanning is proved.
-/

namespace FormDesigner

namespace Token

/-- Induction along the pairs of dollar signs. -/
@[elab_as_elim]
theorem pairs_induction {motive : List Char → Prop}
    (plain : ∀ ahead, '$' ∉ ahead → motive ahead)
    (unclosed : ∀ ahead behind, '$' ∉ ahead → '$' ∉ behind → motive (ahead ++ '$' :: behind))
    (escape : ∀ ahead rest, '$' ∉ ahead → motive rest → motive (ahead ++ '$' :: '$' :: rest))
    (directive : ∀ ahead inside rest, '$' ∉ ahead → '$' ∉ inside → inside ≠ [] → motive rest →
      motive (ahead ++ '$' :: (inside ++ '$' :: rest)))
    (source : List Char) : motive source := by
  by_cases hopen : '$' ∈ source
  · obtain ⟨ahead, behind, hsource, hahead⟩ := List.eq_append_cons_of_mem hopen
    rw [hsource]
    by_cases hclose : '$' ∈ behind
    · obtain ⟨inside, rest, hbehind, hinside⟩ := List.eq_append_cons_of_mem hclose
      have hshorter : rest.length < source.length := by
        rw [hsource, hbehind]
        simp only [List.length_append, List.length_cons]
        omega
      have hrest := pairs_induction plain unclosed escape directive rest
      rw [hbehind]
      cases inside with
      | nil => exact escape ahead rest hahead hrest
      | cons c more =>
          exact directive ahead (c :: more) rest hahead hinside (List.cons_ne_nil c more) hrest
    · exact unclosed ahead behind hahead hclose
  · exact plain source hopen
termination_by source.length

section Rounds

variable {position : Nat} {letters ahead inside behind rest : List Char}

theorem count_escape (h : '$' ∉ ahead) (rest : List Char) :
    (ahead ++ '$' :: '$' :: rest).count '$' = rest.count '$' + 2 := by
  rw [List.count_append, List.count_eq_zero_of_not_mem h, List.count_cons_self,
    List.count_cons_self, Nat.zero_add]

theorem count_closed (hahead : '$' ∉ ahead) (hinside : '$' ∉ inside) (rest : List Char) :
    (ahead ++ '$' :: (inside ++ '$' :: rest)).count '$' = rest.count '$' + 2 := by
  rw [List.count_append, List.count_eq_zero_of_not_mem hahead, List.count_cons_self,
    List.count_append, List.count_eq_zero_of_not_mem hinside, List.count_cons_self, Nat.zero_add,
    Nat.zero_add]

/-- Up to the next dollar sign a text is gathered. -/
theorem scanFrom_ahead (h : '$' ∉ ahead) :
    scanFrom position (.text letters) (ahead ++ rest) =
      scanFrom (position + byteCount ahead) (.text (ahead.reverse ++ letters)) rest := by
  induction ahead generalizing position letters with
  | nil => rfl
  | cons c more ih =>
      obtain ⟨hc, hmore⟩ := List.ne_and_not_mem_of_not_mem_cons h
      rw [List.cons_append, scanFrom, if_neg (Ne.symm hc), ih hmore, byteCount_cons, Nat.add_assoc,
        List.reverse_cons, List.append_assoc]
      rfl

/-- Up to the next dollar sign a directive is gathered. -/
theorem scanFrom_inside {before : List Char} {opened : Nat} (h : '$' ∉ inside) :
    scanFrom position (.directive before opened letters) (inside ++ rest) =
      scanFrom (position + byteCount inside) (.directive before opened (inside.reverse ++ letters))
        rest := by
  induction inside generalizing position letters with
  | nil => rfl
  | cons c more ih =>
      obtain ⟨hc, hmore⟩ := List.ne_and_not_mem_of_not_mem_cons h
      rw [List.cons_append, scanFrom, if_neg (Ne.symm hc), ih hmore, byteCount_cons, Nat.add_assoc,
        List.reverse_cons, List.append_assoc]
      rfl

theorem scanFrom_plain (h : '$' ∉ ahead) :
    scanFrom position (.text letters) ahead = .ok (ofText (ahead.reverse ++ letters)) := by
  have hahead : scanFrom position (.text letters) (ahead ++ []) = _ := scanFrom_ahead h
  rwa [List.append_nil] at hahead

theorem scanFrom_opened (h : '$' ∉ ahead) :
    scanFrom position (.text letters) (ahead ++ '$' :: rest) =
      scanFrom (position + byteCount ahead + 1)
        (.directive (ahead.reverse ++ letters) (position + byteCount ahead) []) rest := by
  rw [scanFrom_ahead h, scanFrom, if_pos rfl]
  rfl

theorem scanFrom_unclosed (hahead : '$' ∉ ahead) (hbehind : '$' ∉ behind) :
    scanFrom position (.text letters) (ahead ++ '$' :: behind) =
      .error (.unclosedDirective (position + byteCount ahead)) := by
  rw [scanFrom_opened hahead, ← List.append_nil behind, scanFrom_inside hbehind]
  rfl

theorem scanFrom_escape (h : '$' ∉ ahead) :
    scanFrom position (.text letters) (ahead ++ '$' :: '$' :: rest) =
      scanFrom (position + byteCount ahead + 2) (.text ('$' :: (ahead.reverse ++ letters)))
        rest := by
  rw [scanFrom_opened h, scanFrom, if_pos rfl]
  rfl

theorem scanFrom_closed (hahead : '$' ∉ ahead) (hinside : '$' ∉ inside) (hne : inside ≠ []) :
    scanFrom position (.text letters) (ahead ++ '$' :: (inside ++ '$' :: rest)) =
      match Directive.read (position + byteCount ahead) inside with
      | .error failure => .error failure
      | .ok found =>
          (scanFrom (position + byteCount ahead + 1 + byteCount inside + 1) (.text []) rest).map
            (ofText (ahead.reverse ++ letters) ++ .directive found :: ·) := by
  have hletters : (inside.reverse ++ []).isEmpty = false := by simpa using hne
  rw [scanFrom_opened hahead, scanFrom_inside hinside, scanFrom, if_pos rfl, hletters,
    List.append_nil, List.reverse_reverse]
  rfl

/-- A pair with a directive between it splits off the directive and goes on behind it. -/
theorem of_scanFrom_closed_ok {tokens : List Token} (hahead : '$' ∉ ahead) (hinside : '$' ∉ inside)
    (hne : inside ≠ [])
    (h : scanFrom position (.text letters) (ahead ++ '$' :: (inside ++ '$' :: rest)) = .ok tokens) :
    ∃ found others, Directive.read (position + byteCount ahead) inside = .ok found ∧
      scanFrom (position + byteCount ahead + 1 + byteCount inside + 1) (.text []) rest =
        .ok others ∧
      tokens = ofText (ahead.reverse ++ letters) ++ .directive found :: others := by
  rw [scanFrom_closed hahead hinside hne] at h
  split at h
  · cases h
  · next found hread =>
      cases hrest : scanFrom (position + byteCount ahead + 1 + byteCount inside + 1) (.text [])
          rest with
      | error failure =>
          rw [hrest] at h
          cases h
      | ok others =>
          rw [hrest] at h
          cases h
          exact ⟨found, others, hread, rfl, rfl⟩

end Rounds

/-- A source of one directive. -/
theorem scan_single {inside : List Char} (hinside : '$' ∉ inside) (hne : inside ≠ []) :
    scan (String.ofList ('$' :: (inside ++ ['$']))) =
      (Directive.read 0 inside).map fun found => [.directive found] := by
  have hclosed : scanFrom 0 (.text []) ([] ++ '$' :: (inside ++ '$' :: [])) = _ :=
    scanFrom_closed List.not_mem_nil hinside hne
  have hstart : 0 + byteCount [] = 0 := rfl
  rw [List.nil_append, hstart] at hclosed
  rw [scan, String.toList_ofList, hclosed]
  cases Directive.read 0 inside <;> rfl

end Token

end FormDesigner
