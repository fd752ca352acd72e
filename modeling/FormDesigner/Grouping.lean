/-!
Items sorted under headings.

Headings stand in the order in which they are first met, and the items under
each keep their order.
-/

namespace FormDesigner

universe u

variable {α : Type u}

/-- Puts an item last under its heading. -/
def addToGroup (heading : String) (item : α) : List (String × List α) → List (String × List α)
  | [] => [(heading, [item])]
  | (name, members) :: rest =>
      if name = heading then (name, members ++ [item]) :: rest
      else (name, members) :: addToGroup heading item rest

/-- Items under the headings that `heading` gives them. -/
def groupBy (heading : α → String) (items : List α) : List (String × List α) :=
  items.foldl (fun groups item => addToGroup (heading item) item groups) []

end FormDesigner
