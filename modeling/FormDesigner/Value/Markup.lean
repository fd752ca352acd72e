import FormDesigner.Value.Json
import FormDesigner.Json.Printer

/-!
Values inside markup.
-/

namespace FormDesigner

/-- Whole numbers below this bound are written with all their digits. -/
def Number.exactLimit : Nat := 10 ^ 21

/-- A number inside markup: a whole number below the bound is exact, every
other number has the digits that identify it. -/
def Number.markup (x : Number) : String :=
  match x.toInt? with
  | some n => if n.natAbs < Number.exactLimit then toString n else x.plainText
  | none => x.plainText

namespace Value

mutual

/-- The text of a value spliced into markup.  Lists are joined by commas;
records and bindings are written in JSON form. -/
def markup : Value → String
  | .null => ""
  | .bool b => if b then "true" else "false"
  | .number x => x.markup
  | .string s => s
  | .list items => ",".intercalate (markupItems items)
  | .record fields => (toJson (.record fields)).compact
  | .binding kind inner => (toJson (.binding kind inner)).compact

def markupItems : List Value → List String
  | [] => []
  | item :: rest => markup item :: markupItems rest

end

end Value

end FormDesigner
