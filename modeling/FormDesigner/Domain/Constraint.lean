import FormDesigner.Value.Basic

/-!
Constraints on a single value.

A constraint that speaks of another shape than the value has does not hold.
-/

namespace FormDesigner

/-- A condition on a value. -/
inductive Constraint where
  | all (parts : List Constraint)
  | any (parts : List Constraint)
  /-- A text of at most so many characters, or a list of at most so many items. -/
  | lengthAtMost (limit : Nat)
  | lessThan (bound : Number)
  | greaterThan (bound : Number)
  | equalTo (value : Value)
  deriving Inhabited

namespace Constraint

/-- Whether a value has at most `limit` characters or items. -/
def fits (limit : Nat) : Value → Bool
  | .string s => s.length ≤ limit
  | .list items => items.length ≤ limit
  | _ => false

mutual

/-- Whether a value meets a constraint. -/
def holds : Constraint → Value → Bool
  | .all parts, value => holdsAll parts value
  | .any parts, value => holdsAny parts value
  | .lengthAtMost limit, value => fits limit value
  | .lessThan bound, value => value.number?.any fun x => x.less bound
  | .greaterThan bound, value => value.number?.any fun x => bound.less x
  | .equalTo expected, value => expected.equals value

def holdsAll : List Constraint → Value → Bool
  | [], _ => true
  | part :: rest, value => holds part value && holdsAll rest value

def holdsAny : List Constraint → Value → Bool
  | [], _ => false
  | part :: rest, value => holds part value || holdsAny rest value

end

theorem holdsAll_eq_all (parts : List Constraint) (value : Value) :
    holdsAll parts value = parts.all fun part => part.holds value := by
  induction parts with
  | nil => rfl
  | cons part rest ih => simp [holdsAll, ih]

end Constraint

end FormDesigner
