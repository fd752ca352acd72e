import FormDesigner.Component.Basic

/-!
Watches: what the designer looks at to see whether a node has to be rendered
again.

A watch holds a list of checks, each with what it saw of the node last.  Every
look keeps what it sees, so that one look both finds a change and takes note of
it.
-/

namespace FormDesigner

/-- What one check looks at. -/
inductive Subject where
  | property (name : String)
  /-- The named parts of a property. -/
  | composite (name : String) (parts : List String)
  | children
  deriving DecidableEq, Repr

/-- A check, with what it saw last. -/
inductive Check where
  | property (name : String) (seen : Option Value)
  /-- The parts that were seen; none if no value or `null` was stored. -/
  | composite (name : String) (parts : List String) (seen : Option (List (Option Value)))
  | children (seen : Option (List NodeId))

/-- A check that has seen nothing yet. -/
def Subject.check : Subject → Check
  | .property name => .property name none
  | .composite name parts => .composite name parts none
  | .children => .children none

namespace Check

/-- The name under which a check is listed. -/
def name : Check → String
  | .property name _ => name
  | .composite name _ _ => name
  | .children _ => "children"

/-- What a node stores under a name, unless it is `null`. -/
def present? (node : Node) (name : String) : Option Value :=
  (node.value? name).filter fun value => !value.isNull

/-- The named parts of a value. -/
def partsOf (parts : List String) (value : Value) : List (Option Value) :=
  parts.map fun part => value.field? part

/-- Looks at a node without comparing. -/
def takeSnapshot (node : Node) : Check → Check
  | .property name _ => .property name (node.value? name)
  | .composite name parts _ => .composite name parts ((present? node name).map (partsOf parts))
  | .children _ => .children node.children

/-- Puts the parts of a value in the place of those that were seen, one by one.
The answer says whether one of them differs. -/
def refresh (value : Value) : List (Option Value) → List String → Bool × List (Option Value)
  | seen :: slots, part :: parts =>
      let current := value.field? part
      let (changed, rest) := refresh value slots parts
      (!Value.equalsOption seen current || changed, current :: rest)
  | slots, _ => (false, slots)

/-- Whether a node differs from what was seen last, as values differ: NaN
differs from itself.  What is seen now is kept. -/
def look (node : Node) : Check → Bool × Check
  | .property name seen =>
      let current := node.value? name
      (!Value.equalsOption seen current, .property name current)
  | .composite name parts seen =>
      match present? node name, seen with
      | none, _ => (seen.isSome, .composite name parts none)
      | some value, some slots =>
          let (changed, slots) := refresh value slots parts
          (changed, .composite name parts (some slots))
      | some value, none => (true, .composite name parts (some (partsOf parts value)))
  | .children seen =>
      if seen = node.children then (false, .children seen)
      else (true, .children node.children)

end Check

/-- A list of checks on one node. -/
structure Watch where
  checks : List Check

namespace Watch

/-- A watch that has seen nothing yet. -/
def ofSubjects (subjects : List Subject) : Watch := ⟨subjects.map Subject.check⟩

/-- The names of what is watched. -/
def tracked (watch : Watch) : List String := watch.checks.map Check.name

/-- Looks at a node without comparing. -/
def takeSnapshot (watch : Watch) (node : Node) : Watch :=
  ⟨watch.checks.map (Check.takeSnapshot node)⟩

/-- Looks at a node with one check after another.  The answer says whether one
of them found a difference. -/
def lookAll (node : Node) : List Check → Bool × List Check
  | [] => (false, [])
  | check :: rest =>
      let (differs, check) := check.look node
      let (changed, rest) := lookAll node rest
      (differs || changed, check :: rest)

/-- Whether a node differs from what was seen last.  What is seen now is
kept. -/
def check (watch : Watch) (node : Node) : Bool × Watch :=
  let (changed, checks) := lookAll node watch.checks
  (changed, ⟨checks⟩)

/-- What there is to watch of a property. -/
def subjectOf (property : Property) : Subject :=
  match property.composite with
  | some parts => .composite property.name parts
  | none => .property property.name

/-- All that the property editor shows of a component, and the children. -/
def subjectsOf (component : Component) : List Subject :=
  (component.properties.filter fun property => !property.artificial).map subjectOf ++ [.children]

/-- A watch of a component's element, which has seen the node. -/
def ofComponent (component : Component) (node : Node) : Watch :=
  (ofSubjects (subjectsOf component)).takeSnapshot node

end Watch

end FormDesigner
