import FormDesigner.Template.Error

/-!
The pieces of a template: text, and directives between dollar signs.

    $$                a dollar sign
    $attr=prop$       an attribute with the value of a property
    $attr?=prop$      the same, left out when the value is empty
    $prop$            the value of a property
    $"text"$          the text
    $#children$       the children of the element

Braces around a property set its expression between the markers of the running
form.  A directive that starts with `e:` or `r:` counts for one mode alone.
-/

namespace FormDesigner

/-- What a directive asks for. -/
inductive DirectiveKind where
  | assignment (attr property : String) (optional braced : Bool)
  | reference (property : String) (optional braced : Bool)
  | literal (text : String)
  | children
  deriving DecidableEq, Repr

/-- A directive of a template. -/
structure Directive where
  /-- The number of bytes before the dollar sign that opens it. -/
  position : Nat
  /-- The mode that it counts for, if it does not count for both. -/
  mode : Option RenderMode
  kind : DirectiveKind
  deriving DecidableEq, Repr

/-- Whether a directive counts for a mode. -/
def Directive.appliesTo (directive : Directive) (mode : RenderMode) : Bool :=
  directive.mode.all fun only => only = mode

/-- One piece of a template. -/
inductive Token where
  | text (content : String)
  | directive (directive : Directive)
  deriving DecidableEq, Repr

namespace Directive

/-- The name of the piece that stands for the children. -/
def childrenName : String := "#children"

/-- Splits the mark of an optional value off the end. -/
def stripOptional (name : List Char) : List Char × Bool :=
  if name.getLast? = some '?' then (name.dropLast, true) else (name, false)

/-- Takes the braces off a name that stands between them. -/
def stripBraces (name : List Char) : List Char × Bool :=
  match name with
  | '\x7b' :: inner =>
      if inner.getLast? = some '\x7d' then (inner.dropLast, true) else (name, false)
  | _ => (name, false)

/-- Splits a mode and its colon off the front.  Only an ASCII letter can name a
mode. -/
def splitMode (position : Nat) (name : List Char) :
    Except TemplateError (Option RenderMode × List Char) :=
  match name with
  | letter :: ':' :: rest =>
      if letter.utf8Size ≠ 1 then .ok (none, name)
      else if letter = 'e' || letter = 'E' then .ok (some .edit, rest)
      else if letter = 'r' || letter = 'R' then .ok (some .run, rest)
      else .error (.unknownMode letter position)
  | _ => .ok (none, name)

/-- Reads a directive that sets an attribute. -/
def readAssignment (position : Nat) (name value : List Char) : Except TemplateError Directive := do
  let (name, optional) := stripOptional name
  let (mode, attr) ← splitMode position name
  let (property, braced) := stripBraces value
  return ⟨position, mode,
    .assignment (String.ofList attr) (String.ofList property) optional braced⟩

/-- What a piece without an equals sign and without a mode asks for. -/
def readContent (position : Nat) (content : List Char) : Except TemplateError DirectiveKind :=
  match content with
  | '"' :: rest =>
      if rest.getLast? = some '"' then .ok (.literal (String.ofList rest.dropLast))
      else .error (.unclosedLiteral position)
  | _ =>
      let (name, optional) := stripOptional content
      let (property, braced) := stripBraces name
      if String.ofList property = childrenName then .ok .children
      else .ok (.reference (String.ofList property) optional braced)

/-- Reads a directive that stands for content. -/
def readReference (position : Nat) (content : List Char) : Except TemplateError Directive := do
  let (mode, content) ← splitMode position content
  let kind ← readContent position content
  return ⟨position, mode, kind⟩

/-- Reads what stands between two dollar signs.  An equals sign anywhere but in
front makes it set an attribute. -/
def read (position : Nat) (content : List Char) : Except TemplateError Directive :=
  let (name, rest) := content.span (· ≠ '=')
  match name, rest with
  | _ :: _, '=' :: value => readAssignment position name value
  | _, _ => readReference position content

end Directive

namespace Token

/-- Where the splitting of a template stands. -/
inductive Mode where
  /-- In text, with its characters so far, the latest first. -/
  | text (letters : List Char)
  /-- Behind the dollar sign at a position, with the text before it and the
  characters since, each the latest first. -/
  | directive (before : List Char) (position : Nat) (letters : List Char)

/-- A text as a piece, unless it is empty. -/
def ofText (letters : List Char) : List Token :=
  if letters.isEmpty then [] else [.text (String.ofList letters.reverse)]

/-- Splits a template, of which `position` bytes are already read. -/
def scanFrom (position : Nat) : Mode → List Char → Except TemplateError (List Token)
  | .text letters, [] => .ok (ofText letters)
  | .directive _ opened _, [] => .error (.unclosedDirective opened)
  | .text letters, c :: rest =>
      let next := position + c.utf8Size
      if c = '$' then scanFrom next (.directive letters position []) rest
      else scanFrom next (.text (c :: letters)) rest
  | .directive before opened letters, c :: rest =>
      let next := position + c.utf8Size
      if c = '$' then
        if letters.isEmpty then scanFrom next (.text ('$' :: before)) rest
        else
          match Directive.read opened letters.reverse with
          | .error failure => .error failure
          | .ok found =>
              (scanFrom next (.text []) rest).map (ofText before ++ .directive found :: ·)
      else scanFrom next (.directive before opened (c :: letters)) rest

/-- Splits a template into its pieces.  Pieces of text that touch are one. -/
def scan (source : String) : Except TemplateError (List Token) :=
  scanFrom 0 (.text []) source.toList

end Token

end FormDesigner
