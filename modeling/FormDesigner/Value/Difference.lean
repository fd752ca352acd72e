import FormDesigner.Value.Inspect

/-!
The differences between two values.

Lists are compared item by item, records field by field, bindings by kind and
then by inside.  Everything else that is not equal is one difference, shown
with the path that leads to it.  NaN is equal to NaN here.
-/

namespace FormDesigner

/-- The path of a part of what stands at `parent`. -/
def childPath (parent : String) (part : String) : String :=
  if parent.isEmpty then part else parent ++ "." ++ part

/-- Two values that differ, either of which may be absent. -/
structure Difference where
  path : String
  left : Option Value
  right : Option Value
  deriving Inhabited

namespace Difference

/-- One side of a difference in a message. -/
def sideText : Option Value → String
  | some value => value.inspect
  | none => "undefined"

/-- The message of a difference. -/
def text (difference : Difference) : String :=
  difference.path ++ ": " ++ sideText difference.left ++ " != " ++ sideText difference.right

end Difference

namespace Value

/-- The items that only the right list has, from the given index on. -/
def addedItems (path : String) (index : Nat) : List Value → List Difference
  | [] => []
  | item :: rest =>
      ⟨childPath path (toString index), none, some item⟩ :: addedItems path (index + 1) rest

/-- The fields that only the left record has. -/
def lostFields (path : String) (left right : Entries Value) : List Difference :=
  (left.filter fun field => !Entries.has field.1 right).map
    fun field => ⟨childPath path field.1, some field.2, none⟩

/-- The fields that only the right record has. -/
def addedFields (path : String) (left right : Entries Value) : List Difference :=
  (right.filter fun field => !Entries.has field.1 left).map
    fun field => ⟨childPath path field.1, none, some field.2⟩

/-- The difference between the kinds of two bindings. -/
def kindDifferences (path : String) (kind other : BindingKind) : List Difference :=
  if kind = other then []
  else [⟨childPath path "kind", some (.string kind.name), some (.string other.name)⟩]

mutual

/-- The differences between two values at a path. -/
def differences (path : String) : Value → Value → List Difference
  | .number x, .number y =>
      if x.same y then [] else [⟨path, some (.number x), some (.number y)⟩]
  | .list items, .list others => itemDifferences path 0 items others
  | .record fields, .record others =>
      lostFields path fields others ++ sharedDifferences path fields others
        ++ addedFields path fields others
  | .binding kind inner, .binding other content =>
      kindDifferences path kind other ++ differences (childPath path "value") inner content
  | left, right => if left.equals right then [] else [⟨path, some left, some right⟩]

/-- The differences between two lists from the given index on. -/
def itemDifferences (path : String) (index : Nat) : List Value → List Value → List Difference
  | [], others => addedItems path index others
  | item :: rest, [] =>
      ⟨childPath path (toString index), some item, none⟩
        :: itemDifferences path (index + 1) rest []
  | item :: rest, other :: others =>
      differences (childPath path (toString index)) item other
        ++ itemDifferences path (index + 1) rest others

/-- The differences in the fields that both records have. -/
def sharedDifferences (path : String) : List (String × Value) → Entries Value → List Difference
  | [], _ => []
  | (name, value) :: rest, others =>
      (match Entries.get? name others with
        | some other => differences (childPath path name) value other
        | none => [])
        ++ sharedDifferences path rest others

end

/-- The differences between two values that may be absent. -/
def compare (path : String) : Option Value → Option Value → List Difference
  | none, none => []
  | some left, some right => differences path left right
  | left, right => [⟨path, left, right⟩]

/-- Adds the differences between two values to those found so far, and says
whether there were none to add. -/
def compareInto (path : String) (left right : Option Value) (found : List Difference) :
    Bool × List Difference :=
  let added := compare path left right
  (added.isEmpty, found ++ added)

end Value

end FormDesigner
