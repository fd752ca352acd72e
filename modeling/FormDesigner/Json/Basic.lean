import FormDesigner.Number.Basic

/-!
Trees of the JSON text form.

Objects keep their members as written, repeated names included; what a
repeated name means is for the reader of the object to say.
-/

namespace FormDesigner

/-- A JSON text, taken apart. -/
inductive Json where
  | null
  | bool (b : Bool)
  | integer (n : Int)
  | decimal (x : Number)
  | string (s : String)
  | array (items : List Json)
  | object (members : List (String × Json))
  /-- Text of the right form that stands for no value: a number beyond all
  finite numbers, or an escape of half a character. -/
  | unreadable
  deriving Inhabited

namespace Json

/-- The deepest nesting of arrays and objects that is read. -/
def maxDepth : Nat := 127

mutual

/-- Whether every part stands for a value and no more than `depth` arrays and
objects are nested. -/
def readable (depth : Nat) : Json → Bool
  | .array items => 0 < depth && readableItems (depth - 1) items
  | .object members => 0 < depth && readableMembers (depth - 1) members
  | .unreadable => false
  | _ => true

def readableItems (depth : Nat) : List Json → Bool
  | [] => true
  | item :: rest => readable depth item && readableItems depth rest

def readableMembers (depth : Nat) : List (String × Json) → Bool
  | [] => true
  | (_, value) :: rest => readable depth value && readableMembers depth rest

end

end Json

end FormDesigner
