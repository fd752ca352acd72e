import FormDesigner.Property
import FormDesigner.Template.Settings
import FormDesigner.Template.Token

/-!
Templates: the markup of an element, with places for its properties.

A template is made for one mode.  What counts for the other mode alone is left
out, and every property that it names is looked up, before anything is
rendered.
-/

namespace FormDesigner

/-- One part of a template. -/
inductive Fragment where
  | literal (text : String)
  /-- The value of a property. -/
  | content (property : Property) (braced : Bool)
  /-- An attribute with the value of a property. -/
  | attr (name : String) (property : Property) (optional braced : Bool)
  /-- The rendered children of the element. -/
  | children
  deriving Inhabited

/-- A template, ready to be rendered in one mode. -/
structure Template where
  source : String
  mode : RenderMode
  settings : RenderSettings
  fragments : List Fragment
  deriving Inhabited

/-- The property of a name; of several the last one. -/
def findProperty? (properties : List Property) (name : String) : Option Property :=
  properties.reverse.find? fun property => property.name = name

namespace Fragment

/-- Looks a property up for the directive at a position. -/
def require (properties : List Property) (name : String) (position : Nat) :
    Except TemplateError Property :=
  match findProperty? properties name with
  | some property => .ok property
  | none => .error (.unknownProperty name position)

/-- The part that a piece of a template becomes in a mode, if any. -/
def ofToken (mode : RenderMode) (properties : List Property) (settings : RenderSettings) :
    Token → Except TemplateError (Option Fragment)
  | .text words => .ok (some (.literal words))
  | .directive directive =>
      if directive.appliesTo mode then
        match directive.kind with
        | .literal text => .ok (some (.literal text))
        | .children =>
            match mode with
            | .edit => .ok (some (.literal settings.childrenPlaceholder))
            | .run => .ok (some .children)
        | .reference name _ braced =>
            (require properties name directive.position).map fun property =>
              some (.content property braced)
        | .assignment target name optional braced =>
            (require properties name directive.position).map fun property =>
              some (.attr target property optional braced)
      else .ok none

/-- Puts a part in front of others.  Texts that touch become one, and an empty
text is left out. -/
def join : Fragment → List Fragment → List Fragment
  | .literal text, rest =>
      if text.isEmpty then rest
      else
        match rest with
        | .literal next :: others => .literal (text ++ next) :: others
        | _ => .literal text :: rest
  | fragment, rest => fragment :: rest

end Fragment

/-- The kind and inside that a node's property has as a binding.  A value
outside a binding counts as a literal. -/
def Property.binding (property : Property) (node : Node) : BindingKind × Value :=
  match property.effective? node with
  | some (.binding kind inner) => (kind, inner)
  | some value => (.literal, value)
  | none => (.literal, .null)

namespace Template

/-- Makes a template for one mode. -/
def compile (source : String) (mode : RenderMode) (properties : List Property)
    (settings : RenderSettings) : Except TemplateError Template := do
  let tokens ← Token.scan source
  let parts ← tokens.mapM (Fragment.ofToken mode properties settings)
  return ⟨source, mode, settings, (parts.filterMap id).foldr Fragment.join []⟩

/-- An expression in the running form, between the markers if it is braced. -/
def expressionText (settings : RenderSettings) (braced : Bool) (inner : Value) : String :=
  if braced then settings.interpolate inner.markup else inner.markup

/-- The value of a property as content.  The canvas shows no expression. -/
def contentText (mode : RenderMode) (settings : RenderSettings) (node : Node)
    (property : Property) (braced : Bool) : String :=
  if property.bindable then
    match property.binding node, mode with
    | (.literal, inner), _ => property.display node (some inner)
    | (.expression, _), .edit => ""
    | (.expression, inner), .run => expressionText settings braced inner
  else property.render node

/-- An attribute in markup. -/
def attributeText (name value : String) : String := name ++ "=\"" ++ value ++ "\""

/-- An attribute, unless it is optional and its value is empty. -/
def attributeUnlessEmpty (name : String) (optional : Bool) (value : String) : String :=
  if value.isEmpty && optional then "" else attributeText name value

/-- The value of a property as an attribute.  On the canvas an expression
counts as empty; in the running form it is never left out. -/
def assignmentText (mode : RenderMode) (settings : RenderSettings) (node : Node)
    (name : String) (property : Property) (optional braced : Bool) : String :=
  if property.bindable then
    match property.binding node, mode with
    | (.literal, inner), _ =>
        attributeUnlessEmpty name optional (property.display node (some inner))
    | (.expression, _), .edit => attributeUnlessEmpty name optional ""
    | (.expression, inner), .run => attributeText name (expressionText settings braced inner)
  else attributeUnlessEmpty name optional (property.render node)

/-- One part of a template for a node whose children have the given markup. -/
def renderFragment (mode : RenderMode) (settings : RenderSettings) (children : String)
    (node : Node) : Fragment → String
  | .literal text => text
  | .content property braced => contentText mode settings node property braced
  | .attr name property optional braced =>
      assignmentText mode settings node name property optional braced
  | .children => children

/-- The markup of a node whose children have the given markup. -/
def render (template : Template) (children : String) (node : Node) : String :=
  String.join
    (template.fragments.map (renderFragment template.mode template.settings children node))

end Template

end FormDesigner
