import FormDesigner.Proofs.Template.Joining
import FormDesigner.Proofs.Template.Pairing

/-!
Text between double quotes.

An equals sign makes a directive an attribute, also where it stands between quotes.  Without one a
quoted text is shown as it is; the colon of a mode is looked for only at the second place.
-/

namespace FormDesigner

namespace Directive

/-- What can be written ahead of a directive, and the mode that it is then for. -/
inductive ModeMark : List Char → Option RenderMode → Prop where
  | both : ModeMark [] none
  | edit : ModeMark ['e', ':'] (some .edit)
  | capitalEdit : ModeMark ['E', ':'] (some .edit)
  | run : ModeMark ['r', ':'] (some .run)
  | capitalRun : ModeMark ['R', ':'] (some .run)

/-- A text in double quotes behind a mark. -/
def quote (mark : List Char) (text : String) : List Char :=
  mark ++ '"' :: (text.toList ++ ['"'])

section Quote

variable {position : Nat} {mark : List Char} {mode : Option RenderMode} {text : String}

theorem ModeMark.not_mem (h : ModeMark mark mode) {c : Char} (hc : c = '$' ∨ c = '=') :
    c ∉ mark := by
  rcases hc with rfl | rfl <;> cases h <;> decide

/-- The mode is split off, and the quotes stay. -/
theorem splitMode_quote (h : ModeMark mark mode)
    (hcolon : mark = [] → text.toList.head? ≠ some ':') :
    splitMode position (quote mark text) = .ok (mode, quote [] text) := by
  cases h with
  | both =>
      unfold splitMode
      split
      · next letter rest heq =>
          -- The second character is a colon, and so is the first one of the text.
          exfalso
          obtain ⟨-, htail⟩ := List.cons.inj heq
          apply hcolon rfl
          cases htext : text.toList with
          | nil =>
              rw [htext] at htail
              cases htail
          | cons c more =>
              rw [htext] at htail
              cases htail
              rfl
      · rfl
  | edit => rfl
  | capitalEdit => rfl
  | run => rfl
  | capitalRun => rfl

theorem read_quote (h : ModeMark mark mode) (hcolon : mark = [] → text.toList.head? ≠ some ':')
    (hequals : '=' ∉ text.toList) :
    read position (quote mark text) = .ok ⟨position, mode, .literal text⟩ := by
  have hwhole : '=' ∉ quote mark text := by
    simp [quote, h.not_mem (Or.inr rfl), hequals]
  have hcontent : readContent position (quote [] text) = .ok (.literal text) :=
    readContent_literal text
  rw [read_of_not_mem hwhole, readReference, splitMode_quote h hcolon]
  change (readContent position (quote [] text) >>= _) = _
  rw [hcontent]
  rfl

/-- Behind an equals sign an attribute is read, and never a text. -/
theorem ne_literal_of_equals {name value : List Char} {found : Directive} (hname : '=' ∉ name)
    (hne : name ≠ []) (h : read position (name ++ '=' :: value) = .ok found) (words : String) :
    found.kind ≠ .literal words := by
  obtain ⟨c, more, rfl⟩ := List.exists_cons_of_ne_nil hne
  rw [read, span_equals hname] at h
  obtain ⟨⟨mode, attr⟩, -, hrest⟩ := Answer.of_bind_ok h
  cases hrest
  rintro ⟨⟩

theorem not_mem_of_read_quote (h : ModeMark mark mode) {found : Directive}
    (hread : read position (quote mark text) = .ok found) (hkind : found.kind = .literal text) :
    '=' ∉ text.toList := by
  intro hmem
  obtain ⟨name, value, htext, hname⟩ := List.eq_append_cons_of_mem hmem
  have hquote : quote mark text = (mark ++ '"' :: name) ++ '=' :: (value ++ ['"']) := by
    simp [quote, htext]
  rw [hquote] at hread
  have hahead : '=' ∉ mark ++ '"' :: name := by simp [h.not_mem (Or.inr rfl), hname]
  exact ne_literal_of_equals hahead (by simp) hread text hkind

end Quote

end Directive

namespace Token

open Directive (ModeMark quote)

/-- The source of one directive: a text in double quotes behind a mark. -/
def quoted (mark : List Char) (text : String) : String :=
  String.ofList ('$' :: (quote mark text ++ ['$']))

theorem scan_quoted_iff {mark : List Char} {mode : Option RenderMode} {text : String}
    (h : ModeMark mark mode) (hdollar : '$' ∉ text.toList)
    (hcolon : mark = [] → text.toList.head? ≠ some ':') :
    scan (quoted mark text) = .ok [.directive ⟨0, mode, .literal text⟩] ↔ '=' ∉ text.toList := by
  have hinside : '$' ∉ quote mark text := by
    simp [quote, h.not_mem (Or.inl rfl), hdollar]
  have hne : quote mark text ≠ [] := by simp [quote]
  rw [quoted, scan_single hinside hne]
  constructor
  · intro hread
    cases hfound : Directive.read 0 (quote mark text) with
    | error failure =>
        rw [hfound] at hread
        cases hread
    | ok found =>
        rw [hfound] at hread
        cases hread
        exact Directive.not_mem_of_read_quote h hfound rfl
  · intro hequals
    rw [Directive.read_quote h hcolon hequals]
    rfl

end Token

namespace Template

open Directive (ModeMark)
open Token (scan quoted)

variable {mark : List Char} {mode : Option RenderMode} {text : String}

/-- A source that is one text in quotes makes a template, which shows the text in the modes that
it is for. -/
theorem exists_compile_quoted
    (hscan : scan (quoted mark text) = .ok [.directive ⟨0, mode, .literal text⟩])
    (shown : RenderMode) (properties : List Property) (settings : RenderSettings) :
    ∃ template, compile (quoted mark text) shown properties settings = .ok template ∧
      ∀ children node, template.render children node =
        if mode = none ∨ mode = some shown then text else "" := by
  have hresolved : ∀ token ∈ [Token.directive ⟨0, mode, .literal text⟩],
      token.Resolved shown properties := by
    intro token hmem
    cases List.mem_singleton.mp hmem
    apply Token.resolved_of_named?_eq_none
    simp [Token.named?, DirectiveKind.property?]
  obtain ⟨template, htemplate⟩ := exists_compile_ok settings hscan hresolved
  refine ⟨template, htemplate, fun children node => ?_⟩
  obtain ⟨tokens, hfound, -, hpieces⟩ := exists_pieces htemplate
  cases hscan.symm.trans hfound
  rw [hpieces]
  simp [Token.piece, Token.directivePiece]

/-- A text without a dollar sign between double quotes, behind a mark for a mode or none, is one
directive that stands for the text exactly if it has no equals sign.  Then every template that
holds it can be made if what stands around it can, and shows it as it is in the modes that it is
for.  Where no mark stands ahead of it, the text does not start with a colon. -/
theorem quoted_is_literal_iff (hmark : ModeMark mark mode) (hdollar : '$' ∉ text.toList)
    (hcolon : mark = [] → text.toList.head? ≠ some ':') :
    (scan (quoted mark text) = .ok [.directive ⟨0, mode, .literal text⟩] ↔ '=' ∉ text.toList) ∧
    ('=' ∉ text.toList → ∀ first second shown properties settings ahead behind,
      compile first shown properties settings = .ok ahead →
      compile second shown properties settings = .ok behind →
      ∃ whole, compile (first ++ quoted mark text ++ second) shown properties settings = .ok whole ∧
        ∀ children node, whole.render children node =
          ahead.render children node ++ (if mode = none ∨ mode = some shown then text else "") ++
            behind.render children node) := by
  have hiff := Token.scan_quoted_iff hmark hdollar hcolon
  refine ⟨hiff, fun hequals => ?_⟩
  intro first second shown properties settings ahead behind hahead hbehind
  obtain ⟨template, htemplate, htext⟩ :=
    exists_compile_quoted (hiff.mpr hequals) shown properties settings
  obtain ⟨front, hfront, hfirst⟩ := exists_compile_append hahead htemplate
  obtain ⟨whole, hwhole, hboth⟩ := exists_compile_append hfront hbehind
  refine ⟨whole, hwhole, fun children node => ?_⟩
  rw [hboth, hfirst, htext]

/-- Colons, braces, question marks and quotes inside are no obstacle. -/
theorem quoted_is_literal_iff_of_marks :
    '$' ∉ ":a?:\x7bb\x7d\"é".toList ∧ '=' ∉ ":a?:\x7bb\x7d\"é".toList ∧
    scan (quoted ['E', ':'] ":a?:\x7bb\x7d\"é") =
      .ok [.directive ⟨0, some .edit, .literal ":a?:\x7bb\x7d\"é"⟩] ∧
    ∃ whole, compile ("<b>" ++ quoted ['E', ':'] ":a?:\x7bb\x7d\"é" ++ "</b>") .edit [] {} =
        .ok whole ∧
      ∀ children node, whole.render children node = "<b>:a?:\x7bb\x7d\"é</b>" := by
  have hdollar : '$' ∉ ":a?:\x7bb\x7d\"é".toList := by decide
  have hequals : '=' ∉ ":a?:\x7bb\x7d\"é".toList := by decide
  obtain ⟨hscan, hshows⟩ := quoted_is_literal_iff .capitalEdit hdollar nofun
  obtain ⟨whole, hwhole, htext⟩ := hshows hequals "<b>" "</b>" .edit [] {} _ _ rfl rfl
  exact ⟨hdollar, hequals, hscan.mpr hequals, whole, hwhole, htext⟩

/-- A quoted text with an equals sign is taken for an attribute. -/
theorem not_quoted_is_literal :
    ¬∀ mark mode text, ModeMark mark mode → '$' ∉ text.toList →
      scan (quoted mark text) = .ok [.directive ⟨0, mode, .literal text⟩] := by
  intro h
  have hscan : scan (quoted [] "a=b") =
      .ok [.directive ⟨0, none, .assignment "\"a" "b\"" false false⟩] := rfl
  have hliteral := h [] none "a=b" .both (by decide)
  rw [hscan] at hliteral
  cases hliteral

end Template

end FormDesigner
