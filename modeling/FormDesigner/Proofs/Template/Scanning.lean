import Mathlib.Data.List.Chain
import Mathlib.Data.List.TakeDrop
import FormDesigner.Template.Printer

/-!
Scanning a written template finds its pieces again.

Dollar signs pair up from the left.  Behind every written piece the scanner is
in text again: a text writes its dollar signs in pairs, and a directive has
none between its two.
-/

namespace FormDesigner

namespace Directive

/-- The characters that mean something in a directive. -/
def marks : List Char := ['$', '=', '?', ':', '\x7b', '\x7d', '"']

/-- A name that can stand in a directive as it is. -/
structure PlainName (name : String) : Prop where
  nonempty : name ≠ ""
  unmarked : ∀ c ∈ name.toList, c ∉ marks

theorem PlainName.not_mem {name : String} (h : PlainName name) {c : Char} (hc : c ∈ marks) :
    c ∉ name.toList :=
  fun hmem => h.unmarked c hmem hc

theorem PlainName.toList_ne_nil {name : String} (h : PlainName name) : name.toList ≠ [] := by
  intro hnil
  exact h.nonempty (String.toList_eq_nil_iff.mp hnil)

end Directive

/-- What a directive asks for can be written without loss. -/
def DirectiveKind.Normal : DirectiveKind → Prop
  | .assignment attr property _ _ => Directive.PlainName attr ∧ Directive.PlainName property
  | .reference property _ _ => Directive.PlainName property ∧ property ≠ Directive.childrenName
  | .literal text => '$' ∉ text.toList ∧ '=' ∉ text.toList ∧ ':' ∉ text.toList
  | .children => True

namespace Token

def isText : Token → Bool
  | .text _ => true
  | .directive _ => false

/-- The same piece at another position. -/
def moved (position : Nat) : Token → Token
  | .text content => .text content
  | .directive found => .directive { found with position }

/-- Pieces that a template can consist of: no text is empty, no two texts touch,
and what the directives ask for can be written. -/
structure NormalForm (tokens : List Token) : Prop where
  texts : ∀ content, .text content ∈ tokens → content ≠ ""
  apart : tokens.IsChain fun first second => ¬(first.isText = true ∧ second.isText = true)
  directives : ∀ found, .directive found ∈ tokens → found.kind.Normal

theorem NormalForm.tail {token : Token} {rest : List Token} (h : NormalForm (token :: rest)) :
    NormalForm rest := by
  constructor
  · intro content hmem
    exact h.texts content (List.mem_cons_of_mem token hmem)
  · exact h.apart.tail
  · intro found hmem
    exact h.directives found (List.mem_cons_of_mem token hmem)

end Token

namespace Directive

section Parts

variable {position : Nat} {name : List Char}

/-! ### The parts of a directive -/

theorem splitMode_of_not_mem (h : ':' ∉ name) : splitMode position name = .ok (none, name) := by
  unfold splitMode
  split
  · simp at h
  · rfl

/-- A written mode is split off. -/
theorem splitMode_writeMode (mode : Option RenderMode) (h : ':' ∉ name) :
    splitMode position (writeMode mode ++ name) = .ok (mode, name) := by
  rcases mode with _ | (_ | _)
  · exact splitMode_of_not_mem h
  · rfl
  · rfl

/-- A written mark of an optional value is split off. -/
theorem stripOptional_writeOptional (h : '?' ∉ name) (optional : Bool) :
    stripOptional (name ++ writeOptional optional) = (name, optional) := by
  cases optional with
  | true => simp [stripOptional, writeOptional]
  | false =>
      have hlast : name.getLast? ≠ some '?' := fun heq => h (List.mem_of_getLast? heq)
      simp [stripOptional, writeOptional, hlast]

/-- Written braces are taken off. -/
theorem stripBraces_writeProperty {property : String} (h : '\x7b' ∉ property.toList)
    (braced : Bool) :
    stripBraces (writeProperty property braced) = (property.toList, braced) := by
  cases braced with
  | true => simp [stripBraces, writeProperty]
  | false =>
      unfold stripBraces
      split
      · next inner heq =>
          simp only [writeProperty, Bool.false_eq_true, ↓reduceIte] at heq
          simp [heq] at h
      · rfl

/-- A mark other than a brace is not in a written property. -/
theorem not_mem_writeProperty {property : String} (h : PlainName property) (braced : Bool)
    {c : Char} (hc : c ∈ marks) (hopen : c ≠ '\x7b') (hclose : c ≠ '\x7d') :
    c ∉ writeProperty property braced := by
  have hname := h.not_mem hc
  cases braced <;> simp [writeProperty, hname, hopen, hclose]

theorem not_mem_writeMode (mode : Option RenderMode) {c : Char} (hc : c ∈ marks) (hne : c ≠ ':') :
    c ∉ writeMode mode := by
  have hedit : c ≠ 'e' := by rintro rfl; revert hc; decide
  have hrun : c ≠ 'r' := by rintro rfl; revert hc; decide
  rcases mode with _ | (_ | _) <;> simp [writeMode, hne, hedit, hrun]

theorem not_mem_writeOptional (optional : Bool) {c : Char} (hne : c ≠ '?') :
    c ∉ writeOptional optional := by
  cases optional <;> simp [writeOptional, hne]

theorem span_append (h : '=' ∉ name) (rest : List Char) :
    (name ++ rest).span (fun c => decide (c ≠ '=')) =
      (name ++ rest.takeWhile fun c => decide (c ≠ '='),
        rest.dropWhile fun c => decide (c ≠ '=')) := by
  have hall : ∀ c ∈ name, decide (c ≠ '=') = true := by
    intro c hc
    simpa using fun heq : c = '=' => h (heq ▸ hc)
  rw [List.span_eq_takeWhile_dropWhile, List.takeWhile_append_of_pos hall,
    List.dropWhile_append_of_pos hall]

/-- The first equals sign ends the name. -/
theorem span_equals (h : '=' ∉ name) (value : List Char) :
    (name ++ '=' :: value).span (fun c => decide (c ≠ '=')) = (name, '=' :: value) := by
  rw [span_append h]
  simp

theorem span_of_not_mem (h : '=' ∉ name) :
    name.span (fun c => decide (c ≠ '=')) = (name, []) := by
  simpa using span_append h []

end Parts

section Read

variable {position : Nat}

/-! ### A directive as a whole -/

/-- What is written ahead of the equals sign of an assignment. -/
theorem not_mem_target (mode : Option RenderMode) {attr : String} (h : PlainName attr)
    (optional : Bool) : '=' ∉ writeMode mode ++ (attr.toList ++ writeOptional optional) := by
  have hmode : '=' ∉ writeMode mode := not_mem_writeMode mode (by decide) (by decide)
  have hattr : '=' ∉ attr.toList := h.not_mem (by decide)
  have hmark : '=' ∉ writeOptional optional := not_mem_writeOptional optional (by decide)
  simp [hmode, hattr, hmark]

theorem read_assignment (mode : Option RenderMode) {attr property : String}
    (hattr : PlainName attr) (hproperty : PlainName property) (optional braced : Bool) :
    read position (writeMode mode ++ writeKind (.assignment attr property optional braced)) =
      .ok ⟨position, mode, .assignment attr property optional braced⟩ := by
  have hsplit : writeMode mode ++ writeKind (.assignment attr property optional braced) =
      (writeMode mode ++ (attr.toList ++ writeOptional optional)) ++
        '=' :: writeProperty property braced := by
    simp [writeKind]
  have hquestion : '?' ∉ writeMode mode ++ attr.toList := by
    simp [not_mem_writeMode mode (show '?' ∈ marks by decide) (by decide),
      hattr.not_mem (show '?' ∈ marks by decide)]
  have hoptional := stripOptional_writeOptional hquestion optional
  have hmode : splitMode position (writeMode mode ++ attr.toList) = .ok (mode, attr.toList) :=
    splitMode_writeMode mode (hattr.not_mem (show ':' ∈ marks by decide))
  have hbraces := stripBraces_writeProperty (hproperty.not_mem (show '\x7b' ∈ marks by decide))
    braced
  rw [hsplit, read, span_equals (not_mem_target mode hattr optional), ← List.append_assoc]
  rcases hfirst : writeMode mode ++ attr.toList ++ writeOptional optional with _ | ⟨c, more⟩
  · simp [hattr.toList_ne_nil] at hfirst
  · simp only []
    rw [readAssignment, ← hfirst, hoptional]
    simp [hmode, hbraces, bind, Except.bind, pure, Except.pure]

/-- Without an equals sign a directive stands for content. -/
theorem read_of_not_mem {content : List Char} (h : '=' ∉ content) :
    read position content = readReference position content := by
  rw [read, span_of_not_mem h]
  cases content <;> rfl

theorem readReference_writeMode (mode : Option RenderMode) {content : List Char}
    (hcolon : ':' ∉ content) {kind : DirectiveKind}
    (hcontent : readContent position content = .ok kind) :
    readReference position (writeMode mode ++ content) = .ok ⟨position, mode, kind⟩ := by
  simp [readReference, splitMode_writeMode mode hcolon, hcontent, bind, Except.bind, pure,
    Except.pure]

theorem readContent_reference {property : String} (h : PlainName property)
    (hchildren : property ≠ childrenName) (optional braced : Bool) :
    readContent position (writeKind (.reference property optional braced)) =
      .ok (.reference property optional braced) := by
  have hoptional := stripOptional_writeOptional
    (not_mem_writeProperty h braced (show '?' ∈ marks by decide) (by decide) (by decide)) optional
  have hbraces := stripBraces_writeProperty (h.not_mem (show '\x7b' ∈ marks by decide)) braced
  have hquote := not_mem_writeProperty h braced (show '"' ∈ marks by decide) (by decide)
    (by decide)
  have hmark : '"' ∉ writeOptional optional := not_mem_writeOptional optional (by decide)
  unfold readContent
  split
  · next rest heq =>
      have hmem : '"' ∈ writeProperty property braced ++ writeOptional optional := by
        rw [writeKind] at heq
        rw [heq]
        exact List.mem_cons_self
      simp [hquote, hmark] at hmem
  · simp [writeKind, hoptional, hbraces, hchildren]

theorem readContent_literal (text : String) :
    readContent position (writeKind (.literal text)) = .ok (.literal text) := by
  simp [writeKind, readContent]

/-- Reading a written directive gives what it asks for. -/
theorem read_write (position : Nat) (mode : Option RenderMode) {kind : DirectiveKind}
    (h : kind.Normal) :
    read position (writeMode mode ++ writeKind kind) = .ok ⟨position, mode, kind⟩ := by
  have hmode : '=' ∉ writeMode mode := not_mem_writeMode mode (by decide) (by decide)
  cases kind with
  | assignment attr property optional braced =>
      exact read_assignment mode h.1 h.2 optional braced
  | reference property optional braced =>
      have hequals : '=' ∉ writeKind (.reference property optional braced) := by
        simp [writeKind, not_mem_writeOptional optional (show '=' ≠ '?' by decide),
          not_mem_writeProperty h.1 braced (show '=' ∈ marks by decide) (by decide) (by decide)]
      have hcolon : ':' ∉ writeKind (.reference property optional braced) := by
        simp [writeKind, not_mem_writeOptional optional (show ':' ≠ '?' by decide),
          not_mem_writeProperty h.1 braced (show ':' ∈ marks by decide) (by decide) (by decide)]
      rw [read_of_not_mem (by simp [hmode, hequals])]
      exact readReference_writeMode mode hcolon (readContent_reference h.1 h.2 optional braced)
  | literal text =>
      obtain ⟨-, hequals, hcolon⟩ := h
      rw [read_of_not_mem (by simp [writeKind, hmode, hequals])]
      exact readReference_writeMode mode (by simp [writeKind, hcolon]) (readContent_literal text)
  | children =>
      rw [read_of_not_mem (by simp [writeKind, hmode, childrenName])]
      exact readReference_writeMode mode (by decide) rfl

/-- A written directive has no dollar sign inside. -/
theorem not_mem_write (mode : Option RenderMode) {kind : DirectiveKind} (h : kind.Normal) :
    '$' ∉ writeMode mode ++ writeKind kind := by
  have hmode : '$' ∉ writeMode mode := not_mem_writeMode mode (by decide) (by decide)
  have hmark (optional : Bool) : '$' ∉ writeOptional optional :=
    not_mem_writeOptional optional (by decide)
  have hproperty {property : String} (hname : PlainName property) (braced : Bool) :
      '$' ∉ writeProperty property braced :=
    not_mem_writeProperty hname braced (by decide) (by decide) (by decide)
  cases kind with
  | assignment attr property optional braced =>
      simp [writeKind, hmode, hmark, hproperty h.2, h.1.not_mem (show '$' ∈ marks by decide)]
  | reference property optional braced => simp [writeKind, hmode, hmark, hproperty h.1]
  | literal text => simp [writeKind, hmode, h.1]
  | children => simp [writeKind, hmode, childrenName]

theorem writeKind_ne_nil {kind : DirectiveKind} (h : kind.Normal) : writeKind kind ≠ [] := by
  cases kind with
  | assignment attr property optional braced => simp [writeKind]
  | reference property optional braced =>
      cases braced <;> simp [writeKind, writeProperty, h.1.toList_ne_nil]
  | literal text => simp [writeKind]
  | children => decide

end Read

end Directive

namespace Token

section Scan

variable {position : Nat} {letters : List Char}

/-! ### Pieces one after another -/

theorem byteCount_cons (c : Char) (text : List Char) :
    byteCount (c :: text) = c.utf8Size + byteCount text := rfl

theorem byteCount_append (first second : List Char) :
    byteCount (first ++ second) = byteCount first + byteCount second := by
  induction first with
  | nil => simp [byteCount]
  | cons c rest ih =>
      rw [List.cons_append, byteCount_cons, byteCount_cons, ih]
      omega

/-- The size of a text is the number of bytes that its characters take up. -/
theorem utf8ByteSize_ofList (text : List Char) :
    (String.ofList text).utf8ByteSize = byteCount text := by
  induction text with
  | nil => rfl
  | cons c rest ih =>
      rw [String.ofList_cons, String.utf8ByteSize_append, String.utf8ByteSize_singleton, ih,
        byteCount_cons]

/-- A written text is read as text, each pair of dollar signs as one. -/
theorem scanFrom_text (content rest : List Char) :
    scanFrom position (.text letters) (content.flatMap writeChar ++ rest) =
      scanFrom (position + byteCount (content.flatMap writeChar))
        (.text (content.reverse ++ letters)) rest := by
  induction content generalizing position letters with
  | nil => rfl
  | cons c more ih =>
      rw [List.flatMap_cons, List.append_assoc, byteCount_append, ← Nat.add_assoc]
      by_cases hdollar : c = '$'
      · subst hdollar
        have hstep : scanFrom position (.text letters)
            (writeChar '$' ++ (more.flatMap writeChar ++ rest)) =
              scanFrom (position + byteCount (writeChar '$')) (.text ('$' :: letters))
                (more.flatMap writeChar ++ rest) := rfl
        rw [hstep, ih]
        simp
      · have hstep : scanFrom position (.text letters)
            (writeChar c ++ (more.flatMap writeChar ++ rest)) =
              scanFrom (position + byteCount (writeChar c)) (.text (c :: letters))
                (more.flatMap writeChar ++ rest) := by
          simp [writeChar, hdollar, scanFrom, byteCount]
        rw [hstep, ih]
        simp

/-- Up to its closing dollar sign a directive is gathered and then read. -/
theorem scanFrom_directive {before body rest : List Char} {opened : Nat} {found : Directive}
    (hbody : '$' ∉ body) (hne : letters.reverse ++ body ≠ [])
    (hread : Directive.read opened (letters.reverse ++ body) = .ok found) :
    scanFrom position (.directive before opened letters) (body ++ '$' :: rest) =
      (scanFrom (position + byteCount (body ++ ['$'])) (.text []) rest).map
        (ofText before ++ .directive found :: ·) := by
  induction body generalizing position letters with
  | nil =>
      have hletters : letters ≠ [] := by simpa using hne
      rw [List.append_nil] at hread
      simp only [List.nil_append, scanFrom, ↓reduceIte, List.isEmpty_iff, hletters, hread]
      rfl
  | cons c more ih =>
      obtain ⟨hc, hmore⟩ := List.ne_and_not_mem_of_not_mem_cons hbody
      have hnext : (c :: letters).reverse ++ more = letters.reverse ++ c :: more := by simp
      rw [← hnext] at hne hread
      rw [List.cons_append, scanFrom, if_neg (Ne.symm hc), ih hmore hne hread, List.cons_append,
        byteCount_cons, Nat.add_assoc]

/-- A piece that is text, ready to be put in front of what follows. -/
theorem ofText_reverse {content : String} (h : content ≠ "") :
    ofText (content.toList.reverse ++ []) = [.text content] := by
  have hletters : content.toList ≠ [] := fun hnil => h (String.toList_eq_nil_iff.mp hnil)
  simp [ofText, hletters]

/-- Written pieces are found again, behind a text that none of them continues. -/
theorem scanFrom_flatMap_write {tokens : List Token} (h : NormalForm tokens)
    (hstart : letters = [] ∨ ∀ token ∈ tokens.head?, token.isText = false) :
    scanFrom position (.text letters) (tokens.flatMap write) =
      .ok (ofText letters ++ place position tokens) := by
  induction tokens generalizing position letters with
  | nil => simp [scanFrom, place]
  | cons token rest ih =>
      obtain ⟨happart, -⟩ := List.isChain_cons.mp h.apart
      rw [List.flatMap_cons]
      cases token with
      | text content =>
          have hletters : letters = [] := by
            rcases hstart with hnil | hhead
            · exact hnil
            · cases hhead (.text content) rfl
          have hnext : ∀ token ∈ rest.head?, token.isText = false := by
            intro token hmem
            simpa [isText] using happart token hmem
          subst hletters
          rw [write, scanFrom_text, ih h.tail (Or.inr hnext),
            ofText_reverse (h.texts content List.mem_cons_self)]
          rfl
      | directive found =>
          have hnormal := h.directives found List.mem_cons_self
          have hopen : scanFrom position (.text letters)
              (write (.directive found) ++ rest.flatMap write) =
                scanFrom (position + 1) (.directive letters position [])
                  ((Directive.writeMode found.mode ++ Directive.writeKind found.kind) ++
                    '$' :: rest.flatMap write) := by
            simp only [write, Directive.write, List.cons_append, List.append_assoc,
              List.nil_append]
            rfl
          have hsize : byteCount found.write =
              1 + byteCount (Directive.writeMode found.mode ++ Directive.writeKind found.kind ++
                ['$']) := by
            rw [Directive.write, byteCount_cons, List.append_assoc]
            rfl
          have hne : ([] : List Char).reverse ++
              (Directive.writeMode found.mode ++ Directive.writeKind found.kind) ≠ [] := by
            simp [Directive.writeKind_ne_nil hnormal]
          rw [hopen, scanFrom_directive (Directive.not_mem_write found.mode hnormal) hne
            (Directive.read_write position found.mode hnormal), ih h.tail (Or.inl rfl), place,
            hsize, Nat.add_assoc]
          rfl

/-- The place of a piece is the size of what is written before it. -/
theorem place_eq_mapIdx (position : Nat) (tokens : List Token) :
    place position tokens = tokens.mapIdx fun index token =>
      token.moved (position + byteCount ((tokens.take index).flatMap write)) := by
  induction tokens generalizing position with
  | nil => rfl
  | cons token rest ih =>
      have htail (size : Nat) : place (position + size) rest = rest.mapIdx fun index found =>
          found.moved (position + (size + byteCount ((rest.take index).flatMap write))) := by
        rw [ih]
        simp only [Nat.add_assoc]
      rw [List.mapIdx_cons]
      simp only [List.take_zero, List.take_succ_cons, List.flatMap_nil, List.flatMap_cons,
        byteCount_append]
      cases token with
      | text content =>
          rw [place, htail]
          rfl
      | directive found =>
          rw [place, htail]
          rfl

end Scan

/-- Scanning undoes printing: of pieces in normal form it finds the same pieces again, and
the position of each directive is the number of bytes that are printed before it. -/
theorem scan_print {tokens : List Token} (h : NormalForm tokens) :
    scan (print tokens) = .ok (tokens.mapIdx fun index token =>
      token.moved (print (tokens.take index)).utf8ByteSize) := by
  have hscan : scanFrom 0 (.text []) (tokens.flatMap write) = .ok (ofText [] ++ place 0 tokens) :=
    scanFrom_flatMap_write h (Or.inl rfl)
  rw [place_eq_mapIdx] at hscan
  simpa [scan, print, utf8ByteSize_ofList, ofText] using hscan

/-- A text with a dollar sign, next to an optional attribute for the canvas. -/
theorem scan_print_of_attribute :
    NormalForm [.text "é$", .directive ⟨0, some .edit, .assignment "for" "target" true true⟩,
      .directive ⟨0, none, .children⟩] ∧
    scan (print [.text "é$", .directive ⟨0, some .edit, .assignment "for" "target" true true⟩,
      .directive ⟨0, none, .children⟩]) =
      .ok [.text "é$", .directive ⟨4, some .edit, .assignment "for" "target" true true⟩,
        .directive ⟨21, none, .children⟩] := by
  have hattr : Directive.PlainName "for" := ⟨by decide, by simp [Directive.marks]⟩
  have hproperty : Directive.PlainName "target" := ⟨by decide, by simp [Directive.marks]⟩
  have hnormal : NormalForm [.text "é$",
      .directive ⟨0, some .edit, .assignment "for" "target" true true⟩,
      .directive ⟨0, none, .children⟩] := by
    constructor
    · simp
    · simp [isText]
    · simpa [DirectiveKind.Normal] using And.intro hattr hproperty
  refine ⟨hnormal, ?_⟩
  rw [scan_print hnormal]
  rfl

end Token

end FormDesigner
