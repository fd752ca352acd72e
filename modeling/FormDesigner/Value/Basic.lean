import FormDesigner.Fields
import FormDesigner.Number.Rounding

/-!
The values that a property of a form element can hold.

A slot that may be bound to data holds a binding: either a literal value or an
expression that the host of the running form evaluates.  A property that was
never set holds no value at all, which is not the same as `null`; it is an
absent option.
-/

namespace FormDesigner

/-- What the inside of a binding is. -/
inductive BindingKind where
  | literal
  | expression
  deriving DecidableEq, Repr, Inhabited

namespace BindingKind

/-- The name of a kind in stored documents. -/
def name : BindingKind → String
  | .literal => "value"
  | .expression => "binding"

/-- The kind with a given name. -/
def ofName? (name : String) : Option BindingKind :=
  if name = "value" then some .literal
  else if name = "binding" then some .expression
  else none

theorem ofName?_name (kind : BindingKind) : ofName? kind.name = some kind := by
  cases kind <;> simp [ofName?, name]

end BindingKind

/-- A property value. -/
inductive Value where
  | null
  | bool (b : Bool)
  | number (x : Number)
  | string (s : String)
  | list (items : List Value)
  | record (fields : List (String × Value))
  | binding (kind : BindingKind) (inner : Value)
  deriving Inhabited

namespace Value

/-- A slot that holds a literal. -/
def literal (inner : Value) : Value := .binding .literal inner

/-- A slot that holds an expression. -/
def expression (source : String) : Value := .binding .expression (.string source)

/-- The value of a natural number. -/
def ofNat (n : Nat) : Value := .number (Number.ofInt n)

mutual

/-- Equality of values.  Numbers are equal as numbers, so NaN is not equal to
itself. -/
def equals : Value → Value → Bool
  | .null, .null => true
  | .bool a, .bool b => a == b
  | .number x, .number y => x.equals y
  | .string s, .string t => s == t
  | .list items, .list others => equalsItems items others
  | .record fields, .record others => equalsFields fields others
  | .binding kind inner, .binding other content => kind = other && equals inner content
  | _, _ => false

def equalsItems : List Value → List Value → Bool
  | [], [] => true
  | item :: rest, other :: others => equals item other && equalsItems rest others
  | _, _ => false

def equalsFields : List (String × Value) → List (String × Value) → Bool
  | [], [] => true
  | (name, value) :: rest, (other, content) :: others =>
      name == other && equals value content && equalsFields rest others
  | _, _ => false

end

/-- Equality of values that may be absent. -/
def equalsOption : Option Value → Option Value → Bool
  | none, none => true
  | some left, some right => left.equals right
  | _, _ => false

mutual

/-- Whether the names of every record, at any depth, ascend. -/
def Ordered : Value → Prop
  | .list items => OrderedItems items
  | .record fields => Entries.Ascending fields ∧ OrderedFields fields
  | .binding _ inner => Ordered inner
  | _ => True

def OrderedItems : List Value → Prop
  | [] => True
  | item :: rest => Ordered item ∧ OrderedItems rest

def OrderedFields : List (String × Value) → Prop
  | [] => True
  | (_, value) :: rest => Ordered value ∧ OrderedFields rest

end

def isNull : Value → Bool
  | .null => true
  | _ => false

/-- Whether a value is shown as nothing: `null` or the empty text. -/
def isBlank : Value → Bool
  | .null => true
  | .string s => s.isEmpty
  | _ => false

/-- The name of a value's shape; all but the three scalars are objects. -/
def kindName : Value → String
  | .bool _ => "boolean"
  | .number _ => "number"
  | .string _ => "string"
  | _ => "object"

def bool? : Value → Option Bool
  | .bool b => some b
  | _ => none

def number? : Value → Option Number
  | .number x => some x
  | _ => none

def string? : Value → Option String
  | .string s => some s
  | _ => none

def items? : Value → Option (List Value)
  | .list items => some items
  | _ => none

def fields? : Value → Option (Entries Value)
  | .record fields => some fields
  | _ => none

/-- Whether a binding holds an expression; `none` for all other values. -/
def isExpression? : Value → Option Bool
  | .binding kind _ => some (kind = .expression)
  | _ => none

/-- A named part: a field of a record, or the kind or inside of a binding. -/
def field? (name : String) : Value → Option Value
  | .record fields => Entries.get? name fields
  | .binding kind inner =>
      if name = "kind" then some (.string kind.name)
      else if name = "value" then some inner
      else none
  | _ => none

end Value

end FormDesigner
