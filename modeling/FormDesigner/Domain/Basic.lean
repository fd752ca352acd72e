import FormDesigner.Domain.Constraint
import FormDesigner.Value.Datum

/-!
Domains: the scalar values that a property admits.
-/

namespace FormDesigner

/-- The shapes of scalar values. -/
inductive Scalar where
  | string
  | number
  | boolean
  deriving DecidableEq, Repr, Inhabited

namespace Scalar

def name : Scalar → String
  | .string => "string"
  | .number => "number"
  | .boolean => "boolean"

/-- The scalar shape of a value, if it has one. -/
def of? : Value → Option Scalar
  | .string _ => some .string
  | .number _ => some .number
  | .bool _ => some .boolean
  | _ => none

end Scalar

/-- A set of scalar values of one shape. -/
inductive Domain where
  /-- All scalars of a shape that meet the constraint, if there is one. -/
  | plain (base : Scalar) (constraint : Option Constraint)
  /-- The listed values; the first one gives the shape. -/
  | choice (base : Scalar) (values : List Datum)
  deriving Inhabited

namespace Domain

def base : Domain → Scalar
  | .plain base _ => base
  | .choice base _ => base

/-- The listed values of a choice. -/
def values? : Domain → Option (List Datum)
  | .plain _ _ => none
  | .choice _ values => some values

/-- What a value has to meet beside its shape. -/
def constraint? : Domain → Option Constraint
  | .plain _ constraint => constraint
  | .choice _ values => some (.any (values.map fun listed => .equalTo listed.value))

/-- The choice among some values.  The first one has to be a scalar. -/
def ofValues? (values : List Datum) : Option Domain :=
  (values.head?.bind fun first => Scalar.of? first.value).map fun base => .choice base values

/-- Whether a value belongs to a domain. -/
def admits (domain : Domain) (value : Value) : Bool :=
  Scalar.of? value = some domain.base && domain.constraint?.all fun c => c.holds value

end Domain

end FormDesigner
