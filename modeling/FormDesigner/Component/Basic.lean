import FormDesigner.Grouping
import FormDesigner.Template.Basic
import FormDesigner.Tree.Basic
import FormDesigner.Tree.Blueprint

/-!
Components: the kinds of form elements.

A component is declared with the properties that it adds.  In a registry it
also has the properties of the components that it inherits from, and its
templates are ready to be rendered.
-/

namespace FormDesigner

/-- A layout hint for elements with children. -/
inductive Orientation where
  | horizontal
  | vertical
  deriving DecidableEq, Repr

/-- The cells that the designer draws around a rendered element of the grid. -/
structure GridCells where
  /-- The classes of the cell that holds the element. -/
  classes : List String
  /-- The classes of the empty cells behind its children. -/
  placeholders : List String
  deriving DecidableEq, Repr

namespace GridCells

def empty : GridCells := ⟨[], []⟩

def hasClass (cells : GridCells) (name : String) : Bool :=
  cells.classes.contains name

end GridCells

/-- What a component decorates after it is rendered.  Each host has targets of
its own kind, and a decorator leaves alone those that it does not know. -/
inductive DecorationTarget where
  | cells (cells : GridCells)
  | foreign (content : String)
  deriving DecidableEq, Repr

/-- A property that several components may list.  The serial number tells it
from other properties, also from those that look the same. -/
structure SharedProperty where
  serial : Nat
  property : Property
  deriving Inhabited

/-- Shared properties of different names. -/
@[ext]
structure PropertyList where
  items : List SharedProperty
  names_nodup : (items.map fun shared => shared.property.name).Nodup

namespace PropertyList

def empty : PropertyList := ⟨[], List.nodup_nil⟩

def properties (list : PropertyList) : List Property := list.items.map SharedProperty.property

theorem properties_nodup (list : PropertyList) : (list.properties.map Property.name).Nodup := by
  rw [properties, List.map_map]
  exact list.names_nodup

/-- The shared property of a name. -/
def find? (list : PropertyList) (name : String) : Option SharedProperty :=
  list.items.find? fun shared => shared.property.name = name

theorem nodup_snoc (list : PropertyList) {added : SharedProperty}
    (h : list.find? added.property.name = none) :
    ((list.items ++ [added]).map fun shared => shared.property.name).Nodup := by
  rw [List.map_append, List.nodup_append]
  refine ⟨list.names_nodup, by simp, ?_⟩
  intro name hname other hother heq
  obtain ⟨shared, hshared, rfl⟩ := List.mem_map.mp hname
  rw [List.map_singleton, List.mem_singleton] at hother
  exact List.find?_eq_none.mp h shared hshared (decide_eq_true (heq.trans hother))

/-- Puts a property of a new name behind the others. -/
def snoc (list : PropertyList) (added : SharedProperty)
    (h : list.find? added.property.name = none) : PropertyList :=
  ⟨list.items ++ [added], list.nodup_snoc h⟩

end PropertyList

/-- What is declared of a component. -/
structure ComponentDeclaration where
  id : String
  /-- The text in the palette; the id if there is none. -/
  label : Option String := none
  icon : Option String := none
  /-- The heading in the palette. -/
  group : Option String := none
  /-- Whether the component only hands its properties down. -/
  isAbstract : Bool := false
  inherits : List String := []
  /-- The components whose elements may hold elements of this one. -/
  validParents : List String := []
  orientation : Option Orientation := none
  decorator : Option (Tree → NodeId → DecorationTarget → DecorationTarget) := none
  own : List SharedProperty := []
  editSource : Option String := none
  runSource : Option String := none
  deriving Inhabited

namespace ComponentDeclaration

/-- The sources of the two templates; one alone serves for both. -/
def templateSources (declaration : ComponentDeclaration) : Option (String × String) :=
  match declaration.editSource, declaration.runSource with
  | some edit, some run => some (edit, run)
  | some source, none => some (source, source)
  | none, some source => some (source, source)
  | none, none => none

/-- The source of the template for a mode. -/
def source? (declaration : ComponentDeclaration) (mode : RenderMode) : Option String :=
  declaration.templateSources.map fun sources =>
    match mode with
    | .edit => sources.1
    | .run => sources.2

end ComponentDeclaration

/-- The templates of a component. -/
structure Templates where
  edit : Template
  run : Template
  deriving Inhabited

/-- The template for a mode. -/
def Templates.get (templates : Templates) : RenderMode → Template
  | .edit => templates.edit
  | .run => templates.run

/-- A component of a registry. -/
structure Component extends ComponentDeclaration where
  /-- All properties: those inherited, in the order declared, and then its
  own. -/
  shared : PropertyList
  /-- The templates; none for a component without markup. -/
  templates : Option Templates
  settings : RenderSettings
  /-- Every template is made of its source for all properties. -/
  compiled : ∀ mode, (toComponentDeclaration.source? mode).map
      (fun source => Template.compile source mode shared.properties settings) =
    templates.map fun templates => .ok (templates.get mode)

namespace Component

def properties (component : Component) : List Property := component.shared.properties

/-- The text in the palette. -/
def labelText (component : Component) : String := component.label.getD component.id

def template? (component : Component) (mode : RenderMode) : Option Template :=
  component.templates.map fun templates => templates.get mode

/-- The property of a name.  An index by name would find the same one, as no two properties
have one name. -/
def property? (component : Component) (name : String) : Option Property :=
  component.properties.find? fun property => property.name = name

/-- The properties that the property editor shows, under their headings. -/
def propertyGroups (component : Component) : List (String × List Property) :=
  groupBy Property.group (component.properties.filter fun property => !property.artificial)

/-- Whether an element of this component may stand in one of `parent`. -/
def allowsParent (component : Component) (parent : String) : Bool :=
  component.validParents.contains parent

/-- Stores the default of a property where nothing or `null` is stored. -/
def fillDefault (fields : Fields Datum) (property : Property) : Fields Datum :=
  match Fields.get? property.name fields, property.default? with
  | none, some datum => Fields.put property.name datum fields
  | some ⟨.null, _⟩, some datum => Fields.put property.name datum fields
  | _, _ => fields

/-- Stores every missing default. -/
def addDefaults (component : Component) (fields : Fields Datum) : Fields Datum :=
  component.properties.foldl fillDefault fields

/-- Removes the value of a property if it counts as the default. -/
def stripDefault (fields : Fields Datum) (property : Property) : Fields Datum :=
  match Fields.get? property.name fields with
  | none => fields
  | some datum =>
      if property.agrees (some datum) property.default? then Fields.drop property.name fields
      else fields

/-- Removes every value that counts as the default. -/
def deleteDefaults (component : Component) (fields : Fields Datum) : Fields Datum :=
  component.properties.foldl stripDefault fields

/-- A node with every missing default. -/
def withDefaults (component : Component) (node : Node) : Node :=
  { node with fields := component.addDefaults node.fields }

/-- A node without the values that count as defaults and without an empty child
list. -/
def withoutDefaults (component : Component) (node : Node) : Node :=
  { node.clearEmptyChildren with fields := component.deleteDefaults node.fields }

/-- A new element with every default and an empty child list. -/
def create (component : Component) : Blueprint :=
  ⟨component.id, component.addDefaults .empty, some []⟩

/-- The stored value of a property as text for the host: an expression stands
between the markers. -/
def displayText (component : Component) (property : Property) (node : Node) : String :=
  match node.value? property.name with
  | none => ""
  | some (.binding kind inner) =>
      if property.bindable then
        match kind with
        | .expression => component.settings.interpolate inner.markup
        | .literal => inner.markup
      else (Value.binding kind inner).markup
  | some value => value.markup

/-- The markup of a node whose children have the given markup. -/
def render (component : Component) (mode : RenderMode) (children : String) (node : Node) :
    String :=
  match component.template? mode with
  | some template => template.render children node
  | none => ""

/-- Decorates a target for a rendered node. -/
def decorate (component : Component) (tree : Tree) (id : NodeId) (target : DecorationTarget) :
    DecorationTarget :=
  match component.decorator with
  | some decorator => decorator tree id target
  | none => target

end Component

end FormDesigner
