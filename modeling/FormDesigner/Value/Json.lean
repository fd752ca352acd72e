import FormDesigner.Json.Basic
import FormDesigner.Value.Datum

/-!
Values in JSON form.

A binding is written as an object of its kind and its inside, so an object
with exactly these two members is read as a binding again.
-/

namespace FormDesigner

namespace Value

/-- Whole numbers of at most this size are written as integers. -/
def wholeLimit : Nat := 9000000000000000

/-- The JSON form of a number; the infinities and NaN have none. -/
def numberToJson (x : Number) : Json :=
  match x.toInt? with
  | some n => if n.natAbs < wholeLimit then .integer n else .decimal x
  | none => if x.isFinite then .decimal x else .null

mutual

/-- The JSON form of a value. -/
def toJson : Value → Json
  | .null => .null
  | .bool b => .bool b
  | .number x => numberToJson x
  | .string s => .string s
  | .list items => .array (itemsToJson items)
  | .record fields => .object (fieldsToJson fields)
  | .binding kind inner =>
      .object [("kind", .string kind.name), ("value", toJson inner)]

def itemsToJson : List Value → List Json
  | [] => []
  | item :: rest => toJson item :: itemsToJson rest

def fieldsToJson : Entries Value → List (String × Json)
  | [] => []
  | (name, value) :: rest => (name, toJson value) :: fieldsToJson rest

end

/-- The value of an object with the given fields. -/
def ofFields (fields : Entries Value) : Value :=
  match fields with
  | [("kind", .string name), ("value", inner)] =>
      match BindingKind.ofName? name with
      | some kind => .binding kind inner
      | none => .record fields
  | _ => .record fields

mutual

/-- The value of a JSON form.  Of two members with one name the later one
counts. -/
def ofJson : Json → Value
  | .bool b => .bool b
  | .integer n => .number (Number.ofInt n)
  | .decimal x => .number x
  | .string s => .string s
  | .array items => .list (itemsOfJson items)
  | .object members => ofFields (Fields.collect (membersOfJson members)).entries
  | .null => .null
  | .unreadable => .null

def itemsOfJson : List Json → List Value
  | [] => []
  | item :: rest => ofJson item :: itemsOfJson rest

def membersOfJson : List (String × Json) → Entries Value
  | [] => []
  | (name, value) :: rest => (name, ofJson value) :: membersOfJson rest

end

/-- The value of a JSON form that can be read. -/
def ofReadable? (json : Json) : Option Value :=
  if json.readable Json.maxDepth then some (ofJson json) else none

theorem ordered_ofFields {fields : Entries Value} (h : (record fields).Ordered) :
    (ofFields fields).Ordered := by
  unfold ofFields
  split
  · next name inner =>
      have hinner : inner.Ordered := h.2.2.1
      split
      · exact hinner
      · exact h
  · exact h

mutual

/-- The names of records ascend in whatever is read. -/
theorem ordered_ofJson : ∀ json : Json, (ofJson json).Ordered
  | .null => trivial
  | .bool _ => trivial
  | .integer _ => trivial
  | .decimal _ => trivial
  | .string _ => trivial
  | .unreadable => trivial
  | .array items => orderedItems_itemsOfJson items
  | .object members => by
      rw [ofJson]
      exact ordered_ofFields (ordered_collect (orderedFields_membersOfJson members))

theorem orderedItems_itemsOfJson : ∀ items : List Json, OrderedItems (itemsOfJson items)
  | [] => trivial
  | item :: rest => ⟨ordered_ofJson item, orderedItems_itemsOfJson rest⟩

theorem orderedFields_membersOfJson : ∀ members : List (String × Json),
    OrderedFields (membersOfJson members)
  | [] => trivial
  | (_, value) :: rest => ⟨ordered_ofJson value, orderedFields_membersOfJson rest⟩

end

end Value

/-- The datum of a JSON form. -/
def Datum.ofJson (json : Json) : Datum := ⟨Value.ofJson json, Value.ordered_ofJson json⟩

end FormDesigner
