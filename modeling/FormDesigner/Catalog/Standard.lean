import FormDesigner.Catalog.Grid
import FormDesigner.Catalog.Hooks
import FormDesigner.Registry.Basic

/-!
The standard catalog.

Two abstract components carry the properties that many elements share: `base`
has name, class and free attributes, `style` has font, space and the style
attribute made of them.
-/

namespace FormDesigner

namespace Catalog

/-- A component and the properties that it adds. -/
abbrev Kind := ComponentDeclaration × List Property

/-- The components that hold elements with text. -/
def textParents : List String := ["col", "div", "form", "fieldset"]

/-- The components that hold other containers. -/
def containerParents : List String := ["body", "form", "col", "fieldset"]

/-- A text that can be bound, empty by default. -/
def boundText (name : String) : Property where
  name := name
  type := .string
  default := some (.string "")
  bindable := true
  composite := some ["kind", "value"]

/-- A switch that can be bound, off by default. -/
def boundFlag (name : String) : Property where
  name := name
  type := .boolean
  default := some (.bool false)
  bindable := true
  composite := some ["kind", "value"]

/-- A property with an empty text as default. -/
def plainText (name : String) : Property where
  name := name
  default := some (.string "")

/-- A number with a default. -/
def plainNumber (name : String) (default : Nat) : Property where
  name := name
  type := .number
  default := some (.ofNat default)

def base : Kind :=
  ({ id := "base", isAbstract := true },
    [{ plainText "name" with tooltip := some "the technical name" },
      { plainText "class" with group := "Advanced", tooltip := some "the css class" },
      { name := "attributes"
        type := .record
        default := some (.record .empty)
        hook := some attributesMarkup
        tooltip := some "arbitrary html attributes"
        editor := some "<attribute-editor></attribute-editor>" },
      { name := "$counter", artificial := true }])

def style : Kind :=
  ({ id := "style", isAbstract := true },
    [{ name := "box"
       type := .record
       default := some (.record .empty)
       composite := some (spaceParts.map fun part => part.1 ++ part.2)
       tooltip := some "margin and padding properties"
       editor := some "<box-editor></box-editor>" },
      { name := "style", artificial := true, hook := some styleMarkup },
      { name := "font"
        type := .record
        default := some (.record .empty)
        composite := some (fontRules.map Prod.fst)
        tooltip := some "font properties"
        editor := some "<font-editor></font-editor>" }])

/-- A component with one source for both templates. -/
def withTemplate (source : String) (declaration : ComponentDeclaration) :
    ComponentDeclaration :=
  { declaration with editSource := some source, runSource := some source }

def body : Kind :=
  (withTemplate "<div>$#children$</div>"
    { id := "body", label := some "Body", icon := some "th", group := some "Container" }, [])

def label : Kind :=
  (withTemplate
    "<label $r:attributes$ $r:for?=for$ $style$>$\x7bvalue\x7d$</label>"
    { id := "label"
      label := some "Label"
      icon := some "font"
      inherits := ["base", "style"]
      group := some "Widgets"
      validParents := textParents },
    [{ name := "for", tooltip := some "the corresponding input field" },
      { boundText "value" with tooltip := some "the label content" }])

def heading (level : Nat) : Kind :=
  let tag := "h" ++ toString level
  (withTemplate
    ("<" ++ tag ++ " $r:attributes$>$\x7bvalue\x7d$</" ++ tag ++ ">")
    { id := tag
      label := some ("H" ++ toString level)
      icon := some "font"
      inherits := ["base"]
      group := some "Widgets"
      validParents := textParents },
    [{ boundText "value" with tooltip := some "the text value" }])

def lineBreak : Kind :=
  (withTemplate "<br $r:attributes$>"
    { id := "br"
      label := some "Br"
      icon := some "font"
      inherits := ["base"]
      group := some "Widgets"
      validParents := textParents }, [])

def paragraph : Kind :=
  (withTemplate "<p $r:attributes$ $style$>$\x7bvalue\x7d$</p>"
    { id := "p"
      label := some "Paragraph"
      icon := some "font"
      inherits := ["base", "style"]
      group := some "Widgets"
      validParents := textParents },
    [{ boundText "value" with tooltip := some "the text value" }])

def line : Kind :=
  (withTemplate "<hr $r:attributes$ />"
    { id := "hr"
      label := some "Line"
      icon := some "font"
      inherits := ["base", "style"]
      group := some "Widgets"
      validParents := ["col", "div", "form", "fieldset", "body"] },
    [{ boundText "value" with tooltip := some "the text value" }])

def division : Kind :=
  (withTemplate "<div $class?=class$ $r:attributes$>$#children$</div>"
    { id := "div"
      label := some "Div"
      icon := some "th"
      inherits := ["base"]
      group := some "Container"
      validParents := containerParents }, [])

def form : Kind :=
  (withTemplate
    "<form $name?=name$ novalidate='' $class?=class$ $r:attributes$>$#children$</form>"
    { id := "form"
      label := some "Form"
      icon := some "th"
      inherits := ["base"]
      group := some "Container"
      validParents := containerParents }, [])

def fieldset : Kind :=
  (withTemplate
    ("<fieldset class=\"group\" $r:attributes$><legend>$\x7bvalue\x7d$</legend>"
      ++ "$#children$</fieldset>")
    { id := "fieldset"
      label := some "Fieldset"
      icon := some "th"
      inherits := ["base"]
      group := some "Container"
      validParents := ["body", "div", "col", "form"] },
    [boundText "value"])

def checkbox : Kind :=
  (withTemplate
    ("<div class=\"checkbox\"><label><input type=\"checkbox\" $name?=name$ "
      ++ "$[(ngModel)]?=model$ $r:attributes$/>$\x7blabel\x7d$</label></div>")
    { id := "checkbox"
      label := some "Checkbox"
      icon := some "th"
      inherits := ["base"]
      group := some "Inputs"
      validParents := containerParents },
    [{ boundText "label" with group := "Advanced", tooltip := some "the label" },
      { name := "model", group := "Advanced" }])

def button : Kind :=
  ({ id := "button"
     runSource := some
      ("<button type=\"button\" $(click)?=click$ class=\"btn $class$\" $r:attributes$>"
        ++ "$\x7btext\x7d$</button>")
     editSource := some
      "<button type=\"button\" class=\"btn $class$\">$\x7btext\x7d$</button>"
     label := some "Button"
     icon := some "th"
     inherits := ["base"]
     group := some "Inputs"
     validParents := ["div", "col"] },
    [{ boundText "text" with tooltip := some "the button text" }, plainText "click"])

def radioButton : Kind :=
  (withTemplate
    ("<div class=\"radio\"><label><input type=\"radio\" $name?=name$ $value?=value$ "
      ++ "$[(ngModel)]?=model$ $r:attributes$/>$\x7blabel\x7d$</label></div>")
    { id := "radio-button"
      label := some "Radio"
      icon := some "th"
      inherits := ["base"]
      group := some "Inputs"
      validParents := containerParents },
    [{ boundText "label" with group := "Advanced", tooltip := some "the radio button label" },
      { name := "value" },
      { name := "model", group := "Advanced", tooltip := some "the model binding" }])

/-- The kinds of input that a text input offers. -/
def inputTypes : Domain := .choice .string [.string "text", .string "number"]

def input : Kind :=
  (withTemplate
    ("<input $name?=name$ $type?=type$ $placeholder?=placeholder$ $[(ngModel)]?=model$ "
      ++ "$r:[required]=required$ $r:[disabled]=disabled$ $e:\"disabled\"$ $class?=class$ "
      ++ "$r:attributes$/>")
    { id := "input"
      label := some "Input"
      icon := some "th"
      inherits := ["base"]
      group := some "Inputs"
      validParents := ["col", "div"] },
    [{ boundFlag "required" with tooltip := some "the required property" },
      { boundText "placeholder" with tooltip := some "the placeholder text" },
      { name := "type"
        type := .domain inputTypes
        tooltip := some "the input type ( text or number )" },
      { boundFlag "disabled" with tooltip := some "the disabled property" },
      { name := "model", group := "Advanced" }])

def textarea : Kind :=
  (withTemplate
    ("<textarea class=\"form-control\" $name?=name$ $rows?=rows$ $maxlength?=max-length$ "
      ++ "$placeholder?=placeholder$ $[(ngModel)]?=model$ $r:[required]=required$ "
      ++ "$r:[disabled]=disabled$ $e:\"disabled\"$ $r:attributes$></textarea>")
    { id := "textarea"
      label := some "Text"
      icon := some "th"
      inherits := ["base", "style"]
      group := some "Widgets"
      validParents := ["col"] },
    [boundText "placeholder",
      plainNumber "rows" 2,
      { name := "max-length", type := .number },
      boundFlag "required",
      boundFlag "disabled",
      { plainText "model" with group := "Advanced" },
      { boundText "label" with group := "Advanced" },
      { name := "value" }])

def selectBox : Kind :=
  (withTemplate
    ("<select class=\"form-control\" $name?=name$ $r:[(ngModel)]?=model$ "
      ++ "$r:[required]=required$ $r:[disabled]=disabled$ $e:\"disabled\"$ $r:attributes$>"
      ++ "<option value=\"\">$emptyOption$</option><option *ngFor=\"let value of $options$\" "
      ++ "[ngValue]=\"value\">\x7b\x7bvalue\x7d\x7d</option></select>")
    { id := "select-box"
      label := some "Combo"
      icon := some "th"
      inherits := ["base", "style"]
      group := some "Widgets"
      validParents := ["col"] },
    [boundFlag "required", boundFlag "disabled", plainText "model", plainText "options",
      boundText "emptyOption"])

def row : Kind :=
  (withTemplate "<div class='row'>$#children$</div>"
    { id := "row"
      label := some "Row"
      icon := some "option-horizontal"
      inherits := ["base"]
      group := some "Layout"
      orientation := some .vertical
      validParents := ["body", "col", "fieldset", "div", "form"]
      decorator := some Grid.decorateRow }, [])

def column : Kind :=
  (withTemplate "<div class='col col-md-$columns$ col-md-offset-$offset$'>$#children$</div>"
    { id := "col"
      label := some "Column"
      icon := some "option-vertical"
      inherits := ["base"]
      group := some "Layout"
      validParents := ["row"]
      decorator := some Grid.decorateColumn },
    [plainNumber "columns" 2, plainNumber "offset" 0])

/-- The components of the catalog, in the order of the palette. -/
def kinds : List Kind :=
  [base, style, body, label, heading 1, heading 2, heading 3, heading 4, heading 5, lineBreak,
    paragraph, line, division, form, fieldset, checkbox, button, radioButton, input, textarea,
    selectBox, row, column]

/-- Numbers the properties of components from `first` on. -/
def numbered (first : Nat) : List Kind → List ComponentDeclaration
  | [] => []
  | (declaration, properties) :: rest =>
      { declaration with
        own := (properties.zipIdx first).map fun entry => ⟨entry.2, entry.1⟩ }
        :: numbered (first + properties.length) rest

/-- The declarations of the standard catalog. -/
def standard : List ComponentDeclaration := numbered 0 kinds

/-- The first serial number that no property of the catalog has. -/
def nextSerial : Nat := (kinds.map fun kind => kind.2.length).foldr (· + ·) 0

end Catalog

end FormDesigner
