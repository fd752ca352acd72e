import Mathlib.Data.Option.NAry
import FormDesigner.Proofs.Template.Rendering
import FormDesigner.Proofs.Template.Scanning

/-!
Templates one behind the other.

A source that splits into pieces leaves the scanner in text, with all dollar signs paired.  So
what is written behind it splits as it does alone, only further on, and a text at the seam goes
on.  What the two sources show then stands one behind the other as well.
-/

namespace FormDesigner

/-- The same failure in a source with `bytes` more bytes in front. -/
def TemplateError.shift (bytes : Nat) : TemplateError → TemplateError
  | .unclosedDirective position => .unclosedDirective (bytes + position)
  | .unknownMode letter position => .unknownMode letter (bytes + position)
  | .unclosedLiteral position => .unclosedLiteral (bytes + position)
  | .unknownProperty name position => .unknownProperty name (bytes + position)

namespace Directive

/-- The same directive in a source with `bytes` more bytes in front. -/
def shift (bytes : Nat) (found : Directive) : Directive :=
  { found with position := bytes + found.position }

/-! ### Positions -/

section Shift

variable {bytes position : Nat}

theorem splitMode_shift (name : List Char) :
    splitMode (bytes + position) name =
      (splitMode position name).mapError (TemplateError.shift bytes) := by
  simp only [splitMode]
  split
  · split
    · rfl
    · split
      · rfl
      · split <;> rfl
  · rfl

theorem readContent_shift (content : List Char) :
    readContent (bytes + position) content =
      (readContent position content).mapError (TemplateError.shift bytes) := by
  simp only [readContent]
  split
  · split <;> rfl
  · split <;> rfl

/-- The position of a directive shows in what it is read as, and nowhere else. -/
theorem read_shift (content : List Char) :
    read (bytes + position) content =
      ((read position content).map (shift bytes)).mapError (TemplateError.shift bytes) := by
  have hassignment : ∀ name value, readAssignment (bytes + position) name value =
      ((readAssignment position name value).map (shift bytes)).mapError
        (TemplateError.shift bytes) := by
    intro name value
    simp only [readAssignment, splitMode_shift]
    cases splitMode position (stripOptional name).1 <;> rfl
  have hreference : readReference (bytes + position) content =
      ((readReference position content).map (shift bytes)).mapError
        (TemplateError.shift bytes) := by
    simp only [readReference, splitMode_shift]
    rcases splitMode position content with failure | ⟨mode, rest⟩
    · rfl
    · simp only [Except.mapError, bind, Except.bind, readContent_shift]
      cases readContent position rest <;> rfl
  simp only [read]
  split
  · exact hassignment _ _
  · exact hreference

end Shift

end Directive

namespace Token

/-- The same piece in a source with `bytes` more bytes in front. -/
def shift (bytes : Nat) : Token → Token
  | .text content => .text content
  | .directive found => .directive (found.shift bytes)

/-- Pieces behind others, where a text at the end goes on in a text at the start. -/
def weld (first second : List Token) : List Token :=
  match first.getLast?, second with
  | some (.text ahead), .text behind :: rest => first.dropLast ++ .text (ahead ++ behind) :: rest
  | _, _ => first ++ second

/-- The same state in a source with `bytes` more bytes in front. -/
def Mode.shift (bytes : Nat) : Mode → Mode
  | .text letters => .text letters
  | .directive before opened letters => .directive before (bytes + opened) letters

theorem map_shift_ofText (bytes : Nat) (letters : List Char) :
    (ofText letters).map (shift bytes) = ofText letters := by
  rw [ofText]
  split <;> rfl

/-- With more bytes in front a source splits as it does alone, further on. -/
theorem scanFrom_shift (bytes position : Nat) (mode : Mode) (source : List Char) :
    scanFrom (bytes + position) (mode.shift bytes) source =
      ((scanFrom position mode source).map (List.map (shift bytes))).mapError
        (TemplateError.shift bytes) := by
  induction source generalizing position mode with
  | nil =>
      cases mode with
      | text letters => exact congrArg Except.ok (map_shift_ofText bytes letters).symm
      | directive before opened letters => rfl
  | cons c rest ih =>
      cases mode with
      | text letters =>
          simp only [Mode.shift, scanFrom, Nat.add_assoc]
          split
          · exact ih (position + c.utf8Size) (.directive letters position [])
          · exact ih (position + c.utf8Size) (.text (c :: letters))
      | directive before opened letters =>
          simp only [Mode.shift, scanFrom, Nat.add_assoc]
          split
          · split
            · exact ih (position + c.utf8Size) (.text ('$' :: before))
            · have hrest := ih (position + c.utf8Size) (.text [])
              rw [Mode.shift] at hrest
              rw [Directive.read_shift, hrest]
              cases Directive.read opened letters.reverse with
              | error failure => rfl
              | ok found =>
                  cases scanFrom (position + c.utf8Size) (.text []) rest with
                  | error failure => rfl
                  | ok tokens =>
                      refine congrArg Except.ok ?_
                      rw [List.map_append, map_shift_ofText]
                      rfl
          · exact ih (position + c.utf8Size) (.directive before opened (c :: letters))

/-! ### The seam -/

/-- Only what stands behind the last directive takes part. -/
theorem weld_append_directive (before : List Token) (found : Directive)
    (tokens more : List Token) :
    weld (before ++ .directive found :: tokens) more =
      before ++ .directive found :: weld tokens more := by
  cases tokens with
  | nil => simp [weld]
  | cons token rest =>
      have hlast : (before ++ .directive found :: token :: rest).getLast? =
          (token :: rest).getLast? := by
        rw [List.getLast?_append_cons, List.getLast?_cons_cons]
      simp only [weld, hlast, List.dropLast_append_cons, List.dropLast_cons_cons]
      split <;> simp

/-- A text that was begun before goes on. -/
theorem weld_ofText (letters more : List Char) (rest : List Token)
    (hrest : ∀ token ∈ rest.head?, token.isText = false) :
    weld (ofText letters) (ofText more ++ rest) = ofText (more ++ letters) ++ rest := by
  cases letters with
  | nil => simp [ofText, weld]
  | cons c letters =>
      cases more with
      | nil =>
          cases rest with
          | nil => rfl
          | cons token rest =>
              cases token with
              | text words => exact absurd (hrest _ rfl) Bool.noConfusion
              | directive found => rfl
      | cons d more =>
          change Token.text (String.ofList (c :: letters).reverse ++
              String.ofList (d :: more).reverse) :: rest =
            .text (String.ofList (d :: more ++ c :: letters).reverse) :: rest
          rw [← String.ofList_append, ← List.reverse_append]

/-- What was read of a text before shows only in the first piece.  In a directive it is the text
ahead of it that waits. -/
theorem scanFrom_ofText (position : Nat) (letters more source : List Char) :
    scanFrom position (.text (more ++ letters)) source =
        (scanFrom position (.text more) source).map (weld (ofText letters)) ∧
      ∀ opened name, scanFrom position (.directive (more ++ letters) opened name) source =
        (scanFrom position (.directive more opened name) source).map (weld (ofText letters)) := by
  induction source generalizing position more with
  | nil =>
      refine ⟨?_, fun _ _ => rfl⟩
      have hweld := weld_ofText letters more [] nofun
      rw [List.append_nil, List.append_nil] at hweld
      exact congrArg Except.ok hweld.symm
  | cons c rest ih =>
      constructor
      · simp only [scanFrom]
        split
        · exact (ih (position + c.utf8Size) more).2 position []
        · exact (ih (position + c.utf8Size) (c :: more)).1
      · intro opened name
        simp only [scanFrom]
        split
        · split
          · exact (ih (position + c.utf8Size) ('$' :: more)).1
          · cases Directive.read opened name.reverse with
            | error failure => rfl
            | ok found =>
                cases scanFrom (position + c.utf8Size) (.text []) rest with
                | error failure => rfl
                | ok tokens =>
                    have hweld := weld_ofText letters more (.directive found :: tokens) (by
                      rintro token ⟨⟩
                      rfl)
                    exact congrArg Except.ok hweld.symm
        · exact (ih (position + c.utf8Size) more).2 opened (c :: name)

/-- What one character can do, whatever stands behind it: the scanner goes on, it fails, or a
directive ends. -/
theorem scanFrom_cons_cases (position : Nat) (mode : Mode) (c : Char) :
    (∃ next, ∀ rest, scanFrom position mode (c :: rest) =
      scanFrom (position + c.utf8Size) next rest) ∨
    (∃ failure, ∀ rest, scanFrom position mode (c :: rest) = .error failure) ∨
    ∃ before found, ∀ rest, scanFrom position mode (c :: rest) =
      (scanFrom (position + c.utf8Size) (.text []) rest).map
        (ofText before ++ .directive found :: ·) := by
  cases mode with
  | text letters =>
      left
      by_cases hdollar : c = '$'
      · exact ⟨.directive letters position [], fun rest => by simp only [scanFrom, if_pos hdollar]⟩
      · exact ⟨.text (c :: letters), fun rest => by simp only [scanFrom, if_neg hdollar]⟩
  | directive before opened letters =>
      by_cases hdollar : c = '$'
      · by_cases hempty : letters.isEmpty = true
        · left
          refine ⟨.text ('$' :: before), fun rest => ?_⟩
          simp only [scanFrom, if_pos hdollar, if_pos hempty]
        · right
          cases hread : Directive.read opened letters.reverse with
          | error failure =>
              left
              refine ⟨failure, fun rest => ?_⟩
              simp only [scanFrom, if_pos hdollar, if_neg hempty, hread]
          | ok found =>
              right
              refine ⟨before, found, fun rest => ?_⟩
              simp only [scanFrom, if_pos hdollar, if_neg hempty, hread]
      · left
        refine ⟨.directive before opened (c :: letters), fun rest => ?_⟩
        simp only [scanFrom, if_neg hdollar]

/-- Behind pieces that are complete the rest splits as it does alone. -/
theorem scanFrom_append {position : Nat} {mode : Mode} {first : List Char} {tokens : List Token}
    (h : scanFrom position mode first = .ok tokens) (second : List Char) :
    scanFrom position mode (first ++ second) =
      (scanFrom (position + byteCount first) (.text []) second).map (weld tokens) := by
  induction first generalizing position mode tokens with
  | nil =>
      cases mode with
      | text letters =>
          -- The first part ends in text, and its last letters are still pending.
          cases h
          exact (scanFrom_ofText position letters [] second).1
      | directive before opened letters => cases h
  | cons c rest ih =>
      rw [List.cons_append, byteCount_cons, ← Nat.add_assoc]
      rcases scanFrom_cons_cases position mode c with
        ⟨next, hstep⟩ | ⟨failure, hstep⟩ | ⟨before, found, hstep⟩
      · rw [hstep] at h
        rw [hstep, ih h]
      · rw [hstep] at h
        cases h
      · rw [hstep] at h
        cases hscan : scanFrom (position + c.utf8Size) (.text []) rest with
        | error failure =>
            rw [hscan] at h
            cases h
        | ok others =>
            rw [hscan] at h
            cases h
            rw [hstep, ih hscan]
            cases scanFrom (position + c.utf8Size + byteCount rest) (.text []) second with
            | error failure => rfl
            | ok more =>
                exact congrArg Except.ok
                  (weld_append_directive (ofText before) found others more).symm

/-- The pieces of two sources one behind the other. -/
theorem scan_append {first : String} {tokens : List Token} (h : scan first = .ok tokens)
    (second : String) :
    scan (first ++ second) =
      ((scan second).map fun more => weld tokens (more.map (shift first.utf8ByteSize))).mapError
        (TemplateError.shift first.utf8ByteSize) := by
  have hsize : byteCount first.toList = first.utf8ByteSize := by
    rw [← utf8ByteSize_ofList, String.ofList_toList]
  have hsecond := scanFrom_shift first.utf8ByteSize 0 (.text []) second.toList
  rw [Mode.shift, Nat.add_zero] at hsecond
  rw [scan, String.toList_append, scanFrom_append h, Nat.zero_add, hsize, hsecond, scan]
  cases scanFrom 0 (.text []) second.toList <;> rfl

/-! ### What is shown -/

section Piece

variable {mode : RenderMode} {properties : List Property} {settings : RenderSettings}
  {children : String} {node : Node}

/-- A piece does not show where it stands. -/
theorem piece_shift (bytes : Nat) (token : Token) :
    (token.shift bytes).piece mode properties settings children node =
      token.piece mode properties settings children node := by
  cases token <;> rfl

theorem join_map_piece_weld (first second : List Token) :
    String.join ((weld first second).map (piece mode properties settings children node)) =
      String.join (first.map (piece mode properties settings children node)) ++
        String.join (second.map (piece mode properties settings children node)) := by
  simp only [weld]
  split
  · next ahead behind rest hlast =>
      have hfirst : first = first.dropLast ++ [.text ahead] :=
        (List.dropLast_append_getLast? _ hlast).symm
      rw [hfirst]
      simp [piece, String.append_assoc]
  · simp

theorem Resolved.shift {token : Token} (h : token.Resolved mode properties) (bytes : Nat) :
    (token.shift bytes).Resolved mode properties := by
  cases token with
  | text content => exact h
  | directive found =>
      intro name position hnamed
      simp only [Token.shift, named?, Directive.shift] at hnamed
      split at hnamed
      · next hmode =>
          obtain ⟨known, hproperty, heq⟩ := Option.map_eq_some_iff.mp hnamed
          cases heq
          apply h name found.position
          simp only [named?, if_pos hmode, hproperty, Option.map_some]
      · cases hnamed

theorem resolved_of_mem_weld {first second : List Token}
    (hfirst : ∀ token ∈ first, token.Resolved mode properties)
    (hsecond : ∀ token ∈ second, token.Resolved mode properties) :
    ∀ token ∈ weld first second, token.Resolved mode properties := by
  intro token hmem
  simp only [weld] at hmem
  split at hmem
  · rcases List.mem_append.mp hmem with hleft | hright
    · exact hfirst token (List.dropLast_subset first hleft)
    · rcases List.mem_cons.mp hright with rfl | hrest
      · exact resolved_of_named?_eq_none rfl
      · exact hsecond token (List.mem_cons_of_mem _ hrest)
  · rcases List.mem_append.mp hmem with hleft | hright
    · exact hfirst token hleft
    · exact hsecond token hright

end Piece

/-- The source in which every dollar sign of a text is written twice. -/
def doubled (text : String) : String := String.ofList (text.toList.flatMap writeChar)

theorem scan_doubled (text : String) : scan (doubled text) = .ok (ofText text.toList.reverse) := by
  have hscan : scanFrom 0 (.text []) (text.toList.flatMap writeChar ++ []) =
      scanFrom _ (.text (text.toList.reverse ++ [])) [] := scanFrom_text text.toList []
  rw [List.append_nil, List.append_nil] at hscan
  rw [scan, doubled, String.toList_ofList, hscan]
  rfl

end Token

namespace Template

open Token

variable {source : String} {mode : RenderMode} {properties : List Property}
  {settings : RenderSettings}

/-- Two sources that make templates make one together, which shows what they show. -/
theorem exists_compile_append {first second : String} {ahead behind : Template}
    (hahead : compile first mode properties settings = .ok ahead)
    (hbehind : compile second mode properties settings = .ok behind) :
    ∃ whole, compile (first ++ second) mode properties settings = .ok whole ∧
      ∀ children node, whole.render children node =
        ahead.render children node ++ behind.render children node := by
  obtain ⟨tokens, hfirst, hresolved, hshown⟩ := exists_pieces hahead
  obtain ⟨more, hsecond, hothers, hrest⟩ := exists_pieces hbehind
  have hscan : scan (first ++ second) =
      .ok (weld tokens (more.map (Token.shift first.utf8ByteSize))) := by
    rw [scan_append hfirst, hsecond]
    rfl
  have hshifted : ∀ token ∈ more.map (Token.shift first.utf8ByteSize),
      token.Resolved mode properties := by
    intro token hmem
    obtain ⟨earlier, hearlier, rfl⟩ := List.mem_map.mp hmem
    exact (hothers earlier hearlier).shift _
  obtain ⟨whole, hwhole⟩ := exists_compile_ok settings hscan
    (resolved_of_mem_weld hresolved hshifted)
  refine ⟨whole, hwhole, fun children node => ?_⟩
  obtain ⟨found, hfound, _, hpieces⟩ := exists_pieces hwhole
  cases hscan.symm.trans hfound
  rw [hpieces, hshown, hrest, join_map_piece_weld, List.map_map]
  congr 3
  funext token
  exact piece_shift _ token

/-- A text with doubled dollar signs makes a template that shows the text. -/
theorem exists_compile_doubled (text : String) (mode : RenderMode) (properties : List Property)
    (settings : RenderSettings) :
    ∃ template, compile (doubled text) mode properties settings = .ok template ∧
      ∀ children node, template.render children node = text := by
  have hresolved : ∀ token ∈ ofText text.toList.reverse, token.Resolved mode properties := by
    intro token hmem
    rw [ofText] at hmem
    split at hmem
    · cases hmem
    · cases List.mem_singleton.mp hmem
      exact resolved_of_named?_eq_none rfl
  obtain ⟨template, htemplate⟩ := exists_compile_ok settings (scan_doubled text)
    hresolved
  refine ⟨template, htemplate, fun children node => ?_⟩
  obtain ⟨tokens, hscan, _, hpieces⟩ := exists_pieces htemplate
  cases (scan_doubled text).symm.trans hscan
  rw [hpieces, ofText]
  split
  · next hempty =>
      have hnil : text.toList = [] := by simpa using hempty
      rw [String.toList_eq_nil_iff.mp hnil]
      rfl
  · simp [piece]

/-- Behind a source that splits, another one splits as it does alone: into the same pieces further
on, where a text at the seam goes on, or with the same failure further on.  If both make
templates, they make one together, which shows what the two show; and every text is shown by the
source in which its dollar signs are doubled. -/
theorem append_shows_both (first second : String) :
    (∀ tokens, scan first = .ok tokens →
      (∀ more, scan second = .ok more →
        scan (first ++ second) = .ok (weld tokens (more.map (Token.shift first.utf8ByteSize)))) ∧
      ∀ failure, scan second = .error failure →
        scan (first ++ second) = .error (failure.shift first.utf8ByteSize)) ∧
    (∀ mode properties settings ahead behind,
      compile first mode properties settings = .ok ahead →
      compile second mode properties settings = .ok behind →
      ∃ whole, compile (first ++ second) mode properties settings = .ok whole ∧
        ∀ host tree id, whole.renderAt host tree id =
          Option.map₂ (· ++ ·) (ahead.renderAt host tree id) (behind.renderAt host tree id)) ∧
    ∀ text mode properties settings,
      ∃ template, compile (doubled text) mode properties settings = .ok template ∧
        ∀ host tree id, template.renderAt host tree id = (tree.node? id).map fun _ => text := by
  refine ⟨fun tokens hfirst => ⟨fun more hsecond => ?_, fun failure hsecond => ?_⟩, ?_, ?_⟩
  · rw [scan_append hfirst, hsecond]
    rfl
  · rw [scan_append hfirst, hsecond]
    rfl
  · intro mode properties settings ahead behind hahead hbehind
    obtain ⟨whole, hwhole, hshows⟩ := exists_compile_append hahead hbehind
    refine ⟨whole, hwhole, fun host tree id => ?_⟩
    simp only [renderAt]
    cases tree.node? id with
    | none => rfl
    | some node => exact congrArg some (hshows _ node)
  · intro text mode properties settings
    obtain ⟨template, htemplate, hshows⟩ :=
      exists_compile_doubled text mode properties settings
    refine ⟨template, htemplate, fun host tree id => ?_⟩
    rw [renderAt]
    congr 1
    funext node
    exact hshows _ node

/-- A text at the seam goes on, and the directive behind it stands five bytes further on. -/
theorem append_shows_both_of_words :
    scan "é$$" = .ok [.text "é$"] ∧
    scan "ab$\"c\"$" = .ok [.text "ab", .directive ⟨2, none, .literal "c"⟩] ∧
    scan ("é$$" ++ "ab$\"c\"$") =
      .ok [.text "é$ab", .directive ⟨6, none, .literal "c"⟩] := by
  have hfirst : scan "é$$" = .ok [.text "é$"] := rfl
  have hsecond : scan "ab$\"c\"$" =
      .ok [.text "ab", .directive ⟨2, none, .literal "c"⟩] := rfl
  refine ⟨hfirst, hsecond, ?_⟩
  rw [((append_shows_both "é$$" "ab$\"c\"$").1 _ hfirst).1 _ hsecond]
  rfl

end Template

end FormDesigner
