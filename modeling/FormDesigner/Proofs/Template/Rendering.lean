import Mathlib.Data.List.Chain
import FormDesigner.Proofs.Answers
import FormDesigner.Template.Basic
import FormDesigner.Tree.Basic

/-!
A template says what its pieces say, one after the other.

Making a template drops what counts for the other mode, looks the properties
up and joins texts that touch.  None of this shows in the markup: it is that of
the pieces read one by one at the time of rendering.
-/

namespace FormDesigner

/-! ### The pieces read one by one -/

/-- What an element has to show for a property. -/
inductive Exhibit where
  | value (text : String)
  | expression (text : String)

/-- What an element has to show for a property: what is stored, or the default
where nothing or `null` is.  A value outside a binding counts as a literal. -/
def Property.exhibit (property : Property) (node : Node) : Exhibit :=
  let stored := (node.value? property.name).filter fun value => !value.isNull
  let held := stored.or (property.default?.map Datum.value)
  match property.bindable, held with
  | true, some (.binding .expression inner) => .expression inner.markup
  | true, some (.binding .literal inner) => .value (property.display node (some inner))
  | true, none => .value (property.display node (some .null))
  | _, _ => .value (property.display node held)

namespace Exhibit

/-- In content an expression is blank on the canvas, and in the running form it
stands between the markers if it is braced. -/
def asContent (mode : RenderMode) (settings : RenderSettings) (braced : Bool) : Exhibit → String
  | .value text => text
  | .expression text =>
      match mode, braced with
      | .edit, _ => ""
      | .run, false => text
      | .run, true => settings.bindingOpen ++ text ++ settings.bindingClose

/-- Whether it is shown in the running form and not by its value. -/
def isLive (mode : RenderMode) : Exhibit → Bool
  | .value _ => false
  | .expression _ => mode = .run

/-- As an attribute it is left out if that is optional and the content is empty,
but never while it is live. -/
def asAttribute (mode : RenderMode) (settings : RenderSettings) (name : String)
    (optional braced : Bool) (exhibit : Exhibit) : String :=
  let text := exhibit.asContent mode settings braced
  if optional = true ∧ text = "" ∧ exhibit.isLive mode = false then ""
  else name ++ "=\"" ++ text ++ "\""

end Exhibit

/-- The property that a directive names. -/
def DirectiveKind.property? : DirectiveKind → Option String
  | .assignment _ property _ _ => some property
  | .reference property _ _ => some property
  | .literal _ => none
  | .children => none

namespace Token

/-- The last listed property of a name. -/
def listed? (properties : List Property) (name : String) : Option Property :=
  (properties.filter fun property => property.name = name).getLast?

/-- What a directive shows on a node whose children have the given markup. -/
def directivePiece (mode : RenderMode) (properties : List Property) (settings : RenderSettings)
    (children : String) (node : Node) : DirectiveKind → String
  | .literal words => words
  | .children =>
      match mode with
      | .edit => settings.childrenPlaceholder
      | .run => children
  | .reference name _ braced =>
      match listed? properties name with
      | some property => (property.exhibit node).asContent mode settings braced
      | none => ""
  | .assignment attr name optional braced =>
      match listed? properties name with
      | some property => (property.exhibit node).asAttribute mode settings attr optional braced
      | none => ""

/-- What a piece shows on a node whose children have the given markup. -/
def piece (mode : RenderMode) (properties : List Property) (settings : RenderSettings)
    (children : String) (node : Node) : Token → String
  | .text words => words
  | .directive found =>
      if found.mode = none ∨ found.mode = some mode then
        directivePiece mode properties settings children node found.kind
      else ""

/-- The property that a piece names in a mode, and the position of the piece. -/
def named? (mode : RenderMode) : Token → Option (String × Nat)
  | .text _ => none
  | .directive found =>
      if found.mode = none ∨ found.mode = some mode then
        found.kind.property?.map fun name => (name, found.position)
      else none

/-- A property that the piece names in a mode is listed. -/
def Resolved (mode : RenderMode) (properties : List Property) (token : Token) : Prop :=
  ∀ name position, token.named? mode = some (name, position) →
    ∃ property ∈ properties, property.name = name

end Token

theorem Directive.appliesTo_iff (found : Directive) (mode : RenderMode) :
    found.appliesTo mode = true ↔ found.mode = none ∨ found.mode = some mode := by
  cases hmode : found.mode <;> simp [appliesTo, hmode]

/-! ### The parts of a template -/

namespace Property

variable {property : Property} {node : Node} {mode : RenderMode} {settings : RenderSettings}

theorem effective?_eq (property : Property) (node : Node) :
    property.effective? node =
      ((node.value? property.name).filter fun value => !value.isNull).or
        (property.default?.map Datum.value) := by
  unfold effective?
  cases node.value? property.name with
  | none => rfl
  | some value => cases value <;> rfl

/-- A property that cannot be bound shows its value. -/
theorem exhibit_plain (h : property.bindable = false) :
    property.exhibit node = .value (property.render node) := by
  simp only [exhibit, render, h, effective?_eq]

/-- A property that can be bound shows the inside of its binding. -/
theorem exhibit_bindable (h : property.bindable = true) :
    property.exhibit node =
      match property.binding node with
      | (.literal, inner) => .value (property.display node (some inner))
      | (.expression, inner) => .expression inner.markup := by
  simp only [exhibit, binding, h, effective?_eq]
  generalize ((node.value? property.name).filter fun value => !value.isNull).or
    (property.default?.map Datum.value) = held
  rcases held with _ | value
  · rfl
  · cases value with
    | binding kind inner => cases kind <;> rfl
    | _ => rfl

theorem contentText_eq (braced : Bool) :
    Template.contentText mode settings node property braced =
      (property.exhibit node).asContent mode settings braced := by
  unfold Template.contentText
  cases hbindable : property.bindable with
  | false => simp [exhibit_plain hbindable, Exhibit.asContent]
  | true =>
      rw [exhibit_bindable hbindable]
      rcases property.binding node with ⟨_ | _, inner⟩
      · simp [Exhibit.asContent]
      · cases mode <;> cases braced <;> simp [Exhibit.asContent, Template.expressionText,
          RenderSettings.interpolate]

theorem assignmentText_eq (attr : String) (optional braced : Bool) :
    Template.assignmentText mode settings node attr property optional braced =
      (property.exhibit node).asAttribute mode settings attr optional braced := by
  unfold Template.assignmentText
  cases hbindable : property.bindable with
  | false =>
      simp [exhibit_plain hbindable, Exhibit.asAttribute, Exhibit.asContent, Exhibit.isLive,
        Template.attributeUnlessEmpty, Template.attributeText, and_comm]
  | true =>
      rw [exhibit_bindable hbindable]
      rcases property.binding node with ⟨_ | _, inner⟩
      · simp [Exhibit.asAttribute, Exhibit.asContent, Exhibit.isLive,
          Template.attributeUnlessEmpty, Template.attributeText, and_comm]
      · cases mode
        · simp [Exhibit.asAttribute, Exhibit.asContent, Exhibit.isLive,
            Template.attributeUnlessEmpty, Template.attributeText]
        · cases braced <;> simp [Exhibit.asAttribute, Exhibit.asContent, Exhibit.isLive,
            Template.attributeText, Template.expressionText, RenderSettings.interpolate]

end Property

section Lookup

variable {properties : List Property} {name : String} {position : Nat}

theorem findProperty?_eq_listed? :
    findProperty? properties name = Token.listed? properties name := by
  rw [Token.listed?, List.getLast?_filter, findProperty?]

theorem listed?_eq_none_iff :
    Token.listed? properties name = none ↔ ∀ property ∈ properties, property.name ≠ name := by
  simp [Token.listed?]

theorem exists_of_listed? {property : Property}
    (h : Token.listed? properties name = some property) :
    ∃ property ∈ properties, property.name = name := by
  have hmem := List.mem_of_getLast? h
  rw [List.mem_filter] at hmem
  exact ⟨property, hmem.1, by simpa using hmem.2⟩

namespace Fragment

theorem require_ok {property : Property} (h : Token.listed? properties name = some property) :
    require properties name position = .ok property := by
  simp only [require, findProperty?_eq_listed?, h]

theorem require_error (h : Token.listed? properties name = none) :
    require properties name position = .error (.unknownProperty name position) := by
  simp only [require, findProperty?_eq_listed?, h]

end Fragment

end Lookup

namespace Token

section Pieces

variable {mode : RenderMode} {properties : List Property} {settings : RenderSettings}

/-- What becomes of a piece when a template is made: it is a part or dropped, and
shows the same, or it names a property that is not listed. -/
def Outcome (mode : RenderMode) (properties : List Property) (settings : RenderSettings)
    (token : Token) : Prop :=
  (token.Resolved mode properties ∧
    ∃ part, Fragment.ofToken mode properties settings token = .ok part ∧
      ∀ children node, (part.map (Template.renderFragment mode settings children node)).getD "" =
        token.piece mode properties settings children node) ∨
  ∃ name position, token.named? mode = some (name, position) ∧
    (∀ property ∈ properties, property.name ≠ name) ∧
    Fragment.ofToken mode properties settings token = .error (.unknownProperty name position)

theorem resolved_of_named?_eq_none {token : Token} (h : token.named? mode = none) :
    token.Resolved mode properties := by
  intro name position hnamed
  rw [h] at hnamed
  cases hnamed

/-- A piece that names no property is a part, or none. -/
theorem outcome_of_unnamed {token : Token} (part : Option Fragment)
    (hnamed : token.named? mode = none)
    (hpart : Fragment.ofToken mode properties settings token = .ok part)
    (hpiece : ∀ children node,
      (part.map (Template.renderFragment mode settings children node)).getD "" =
        token.piece mode properties settings children node) :
    Outcome mode properties settings token :=
  Or.inl ⟨resolved_of_named?_eq_none hnamed, part, hpart, hpiece⟩

/-- A directive that names a property: the property is looked up, and shown by
the part. -/
theorem outcome_of_named {found : Directive} {name : String} (part : Property → Fragment)
    (hnamed : (Token.directive found).named? mode = some (name, found.position))
    (hpart : Fragment.ofToken mode properties settings (.directive found) =
      (Fragment.require properties name found.position).map fun property => some (part property))
    (hpiece : ∀ property children node, Token.listed? properties name = some property →
      Template.renderFragment mode settings children node (part property) =
        (Token.directive found).piece mode properties settings children node) :
    Outcome mode properties settings (.directive found) := by
  cases hlisted : Token.listed? properties name with
  | none =>
      right
      refine ⟨name, found.position, hnamed, listed?_eq_none_iff.mp hlisted, ?_⟩
      rw [hpart, Fragment.require_error hlisted]
      rfl
  | some property =>
      left
      constructor
      · intro other position hother
        rw [hnamed] at hother
        cases hother
        exact exists_of_listed? hlisted
      · refine ⟨some (part property), ?_, ?_⟩
        · rw [hpart, Fragment.require_ok hlisted]
          rfl
        · intro children node
          exact hpiece property children node hlisted

/-- A directive that counts for the mode. -/
theorem outcome_of_applies {found : Directive} (happlies : found.appliesTo mode = true) :
    Outcome mode properties settings (.directive found) := by
  have hmode := (found.appliesTo_iff mode).mp happlies
  cases hkind : found.kind with
  | literal words =>
      apply outcome_of_unnamed (some (.literal words))
      · simp [Token.named?, hmode, hkind, DirectiveKind.property?]
      · simp [Fragment.ofToken, happlies, hkind]
      · simp [Token.piece, hmode, hkind, Token.directivePiece, Template.renderFragment]
  | children =>
      cases mode with
      | edit =>
          apply outcome_of_unnamed (some (.literal settings.childrenPlaceholder))
          · simp [Token.named?, hmode, hkind, DirectiveKind.property?]
          · simp [Fragment.ofToken, happlies, hkind]
          · simp [Token.piece, hmode, hkind, Token.directivePiece, Template.renderFragment]
      | run =>
          apply outcome_of_unnamed (some .children)
          · simp [Token.named?, hmode, hkind, DirectiveKind.property?]
          · simp [Fragment.ofToken, happlies, hkind]
          · simp [Token.piece, hmode, hkind, Token.directivePiece, Template.renderFragment]
  | reference name optional braced =>
      apply outcome_of_named fun property => .content property braced
      · simp [Token.named?, hmode, hkind, DirectiveKind.property?]
        rfl
      · simp [Fragment.ofToken, happlies, hkind]
      · intro property children node hlisted
        simp [Token.piece, hmode, hkind, Token.directivePiece, hlisted,
          Template.renderFragment, Property.contentText_eq]
  | assignment attr name optional braced =>
      apply outcome_of_named fun property => .attr attr property optional braced
      · simp [Token.named?, hmode, hkind, DirectiveKind.property?]
        rfl
      · simp [Fragment.ofToken, happlies, hkind]
      · intro property children node hlisted
        simp [Token.piece, hmode, hkind, Token.directivePiece, hlisted,
          Template.renderFragment, Property.assignmentText_eq]

theorem outcome (mode : RenderMode) (properties : List Property) (settings : RenderSettings)
    (token : Token) : Outcome mode properties settings token := by
  cases token with
  | text words => exact outcome_of_unnamed _ rfl rfl fun _ _ => rfl
  | directive found =>
      by_cases happlies : found.appliesTo mode = true
      · exact outcome_of_applies happlies
      · have hmode := mt (found.appliesTo_iff mode).mpr happlies
        apply outcome_of_unnamed none
        · simp [Token.named?, hmode]
        · simp [Fragment.ofToken, happlies]
        · simp [Token.piece, hmode]

end Pieces

end Token

/-! ### Joining the parts -/

namespace Fragment

def isLiteral : Fragment → Bool
  | .literal _ => true
  | _ => false

/-- What putting a part in front can do: an empty text is left out, a text is joined to
the text behind it, and any other part stands in front as it is. -/
theorem join_cases (fragment : Fragment) (rest : List Fragment) :
    (fragment = .literal "" ∧ join fragment rest = rest) ∨
    (∃ text next others, text ≠ "" ∧ fragment = .literal text ∧ rest = .literal next :: others ∧
      join fragment rest = .literal (text ++ next) :: others) ∨
    ((∀ text, fragment = .literal text → text ≠ "") ∧
      (∀ next ∈ rest.head?, ¬(fragment.isLiteral = true ∧ next.isLiteral = true)) ∧
      join fragment rest = fragment :: rest) := by
  cases fragment with
  | literal text =>
      by_cases hempty : text = ""
      · left
        subst hempty
        exact ⟨rfl, rfl⟩
      · right
        have htext : ¬text.isEmpty = true := fun h => hempty (String.isEmpty_iff.mp h)
        rcases rest with _ | ⟨_ | _ | _ | _, others⟩
        · right
          simp [join, htext, hempty]
        · left
          simp [join, htext, hempty]
        all_goals
          right
          simp [join, htext, hempty, isLiteral]
  | _ =>
      right
      right
      exact ⟨nofun, fun _ _ hboth => Bool.false_ne_true hboth.1, rfl⟩

end Fragment

section Markup

variable {mode : RenderMode} {properties : List Property} {settings : RenderSettings}
  {children : String} {node : Node}

/-- Joining does not show. -/
theorem join_map_join (fragment : Fragment) (rest : List Fragment) :
    String.join ((Fragment.join fragment rest).map
        (Template.renderFragment mode settings children node)) =
      Template.renderFragment mode settings children node fragment ++
        String.join (rest.map (Template.renderFragment mode settings children node)) := by
  rcases Fragment.join_cases fragment rest with
    ⟨rfl, hjoin⟩ | ⟨text, next, others, -, rfl, rfl, hjoin⟩ | ⟨-, -, hjoin⟩
  · simp [hjoin, Template.renderFragment]
  · simp [hjoin, Template.renderFragment, String.append_assoc]
  · simp [hjoin]

/-- Parts show what they show one by one; a piece without a part shows nothing. -/
theorem join_map_foldr_join (parts : List (Option Fragment)) :
    String.join (((parts.filterMap id).foldr Fragment.join []).map
        (Template.renderFragment mode settings children node)) =
      String.join (parts.map fun part =>
        (part.map (Template.renderFragment mode settings children node)).getD "") := by
  induction parts with
  | nil => rfl
  | cons part rest ih =>
      cases part with
      | none => simpa using ih
      | some fragment =>
          have hparts : (some fragment :: rest).filterMap id = fragment :: rest.filterMap id := rfl
          rw [hparts, List.foldr_cons, join_map_join, ih]
          simp

theorem map_parts_eq {tokens : List Token} {parts : List (Option Fragment)}
    (h : List.Forall₂
      (fun token part => Fragment.ofToken mode properties settings token = .ok part) tokens parts) :
    (parts.map fun part =>
        (part.map (Template.renderFragment mode settings children node)).getD "") =
      tokens.map (Token.piece mode properties settings children node) := by
  induction h with
  | nil => rfl
  | @cons token part _ _ hpart _ ih =>
      rw [List.map_cons, List.map_cons, ih]
      rcases Token.outcome mode properties settings token with
        ⟨-, found, hfound, hpiece⟩ | ⟨_, _, -, -, herror⟩
      · rw [hpart] at hfound
        cases hfound
        rw [hpiece]
      · rw [hpart] at herror
        cases herror

end Markup

namespace Template

variable {source : String} {mode : RenderMode} {properties : List Property}
  {settings : RenderSettings}

/-- The markup of a node of a tree whose children a host renders in the running
form. -/
def renderAt (template : Template) (host : Tree → NodeId → RenderMode → String) (tree : Tree)
    (id : NodeId) : Option String :=
  (tree.node? id).map
    (template.render (String.join ((tree.children id).map fun child => host tree child .run)))

theorem resolved_of_ofToken_ok {token : Token} {part : Option Fragment}
    (h : Fragment.ofToken mode properties settings token = .ok part) :
    token.Resolved mode properties := by
  rcases Token.outcome mode properties settings token with ⟨hresolved, -⟩ | ⟨_, _, -, -, herror⟩
  · exact hresolved
  · rw [h] at herror
    cases herror

theorem ofToken_ok_of_resolved (settings : RenderSettings) {token : Token}
    (h : token.Resolved mode properties) :
    ∃ part, Fragment.ofToken mode properties settings token = .ok part := by
  rcases Token.outcome mode properties settings token with
    ⟨-, part, hpart, -⟩ | ⟨name, position, hnamed, hmissing, -⟩
  · exact ⟨part, hpart⟩
  · obtain ⟨property, hmem, hname⟩ := h name position hnamed
    exact absurd hname (hmissing property hmem)

/-- A template that is made comes from pieces whose parts are joined. -/
theorem of_compile_ok {template : Template}
    (h : compile source mode properties settings = .ok template) :
    ∃ tokens parts, Token.scan source = .ok tokens ∧
      tokens.mapM (Fragment.ofToken mode properties settings) = .ok parts ∧
      template = ⟨source, mode, settings, (parts.filterMap id).foldr Fragment.join []⟩ := by
  rw [compile] at h
  obtain ⟨tokens, hscan, hrest⟩ := Answer.of_bind_ok h
  obtain ⟨parts, hparts, hlast⟩ := Answer.of_bind_ok hrest
  cases hlast
  exact ⟨tokens, parts, hscan, hparts, rfl⟩

theorem compile_ok {tokens : List Token} {parts : List (Option Fragment)}
    (hscan : Token.scan source = .ok tokens)
    (hparts : tokens.mapM (Fragment.ofToken mode properties settings) = .ok parts) :
    compile source mode properties settings =
      .ok ⟨source, mode, settings, (parts.filterMap id).foldr Fragment.join []⟩ := by
  simp [compile, hscan, hparts, bind, Except.bind, pure, Except.pure]

/-- A source whose pieces name nothing that is missing makes a template. -/
theorem exists_compile_ok (settings : RenderSettings) {tokens : List Token}
    (hscan : Token.scan source = .ok tokens)
    (hresolved : ∀ token ∈ tokens, token.Resolved mode properties) :
    ∃ template, compile source mode properties settings = .ok template := by
  obtain ⟨parts, hparts⟩ := Answer.exists_mapM_ok fun token hmem =>
    ofToken_ok_of_resolved settings (hresolved token hmem)
  exact ⟨_, compile_ok hscan hparts⟩

/-- A template that was made shows its pieces, which name nothing that is missing. -/
theorem exists_pieces {template : Template}
    (h : compile source mode properties settings = .ok template) :
    ∃ tokens, Token.scan source = .ok tokens ∧
      (∀ token ∈ tokens, token.Resolved mode properties) ∧
      ∀ children node, template.render children node =
        String.join (tokens.map (Token.piece mode properties settings children node)) := by
  obtain ⟨tokens, parts, hscan, hparts, rfl⟩ := of_compile_ok h
  refine ⟨tokens, hscan, fun token hmem => ?_, fun children node => ?_⟩
  · obtain ⟨part, hpart⟩ := Answer.ok_of_mem_mapM hparts hmem
    exact resolved_of_ofToken_ok hpart
  · rw [render, join_map_foldr_join, map_parts_eq (Answer.forall₂_of_mapM_ok hparts)]

end Template

end FormDesigner
