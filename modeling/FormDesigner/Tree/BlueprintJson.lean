import FormDesigner.Json.Printer
import FormDesigner.Json.Reader
import FormDesigner.Tree.Blueprint
import FormDesigner.Value.Json

/-!
Blueprints in JSON form.

An element is one object: the component under `id`, every property under its
own name, and the children under `children`.
-/

namespace FormDesigner

namespace Blueprint

mutual

/-- The JSON form of a blueprint.  A property that is named like the component
or the children is written beside them. -/
def toJson : Blueprint → Json
  | ⟨id, fields, none⟩ => .object (("id", .string id) :: Value.fieldsToJson fields.values)
  | ⟨id, fields, some children⟩ =>
      .object (("id", .string id) ::
        (Value.fieldsToJson fields.values ++ [("children", .array (childrenToJson children))]))

def childrenToJson : List Blueprint → List Json
  | [] => []
  | child :: rest => toJson child :: childrenToJson rest

end

/-- The members of an object, sorted by what they stand for. -/
structure Members where
  id : Option String
  children : Option (Option (List Blueprint))
  properties : Entries Datum

namespace Members

def empty : Members := ⟨none, none, []⟩

/-- Adds the component, which may stand once. -/
def addId (members : Members) (id : String) : Option Members :=
  if members.id.isNone then some { members with id := some id } else none

/-- Adds the children, which may stand once. -/
def addChildren (members : Members) (children : Option (List Blueprint)) : Option Members :=
  if members.children.isNone then some { members with children := some children } else none

/-- Adds a property in front of those that stand behind it. -/
def addProperty (members : Members) (name : String) (datum : Datum) : Members :=
  { members with properties := (name, datum) :: members.properties }

/-- The element of some members; the component has to be there. -/
def blueprint? (members : Members) : Option Blueprint :=
  members.id.map fun id =>
    ⟨id, Fields.collect members.properties, members.children.getD none⟩

end Members

mutual

/-- The blueprint of a JSON form. -/
def ofJson? : Json → Option Blueprint
  | .object members => (ofMembers? members).bind Members.blueprint?
  | _ => none

def ofMembers? : List (String × Json) → Option Members
  | [] => some Members.empty
  | (name, value) :: rest => do
      let members ← ofMembers? rest
      if name = "id" then
        match value with
        | .string id => members.addId id
        | _ => none
      else if name = "children" then members.addChildren (← ofChildren? value)
      else return members.addProperty name (Datum.ofJson value)

def ofChildren? : Json → Option (Option (List Blueprint))
  | .null => some none
  | .array items => (ofItems? items).map some
  | _ => none

def ofItems? : List Json → Option (List Blueprint)
  | [] => some []
  | item :: rest => do
      let child ← ofJson? item
      let others ← ofItems? rest
      return child :: others

end

/-- The blueprint of a JSON form of at most `depth` nested arrays and
objects. -/
def ofReadable? (depth : Nat) (json : Json) : Option Blueprint :=
  if json.readable depth then ofJson? json else none

/-- The blueprint that a text describes. -/
def read? (text : String) : Option Blueprint :=
  (Json.read? text).bind (ofReadable? Json.maxDepth)

end Blueprint

end FormDesigner
