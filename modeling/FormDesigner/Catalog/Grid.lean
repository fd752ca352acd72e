import FormDesigner.Component.Basic

/-!
The grid of the standard catalog.

A row has twelve columns.  The designer shows the columns that the elements of
a row leave free as empty cells.
-/

namespace FormDesigner

namespace Grid

/-- The number of columns of a row. -/
def columnCount : Int := 12

/-- The columns of an element that does not say how many it takes. -/
def defaultColumns : Int := 2

/-- An integer, or the nearest one that 64 bits hold. -/
def clamp (n : Int) : Int := max (-(2 ^ 63)) (min n (2 ^ 63 - 1))

/-- A stored finite number other than zero, with its fraction cut off. -/
def columnValue (node : Node) (name : String) (fallback : Int) : Int :=
  match node.value? name with
  | some (.number x) => if x.isFinite && !x.isZero then clamp x.truncate else fallback
  | _ => fallback

/-- The columns that an element covers. -/
def columns (node : Node) : Int := columnValue node "columns" defaultColumns

/-- The columns that an element leaves free before it. -/
def offset (node : Node) : Int := columnValue node "offset" 0

/-- The sum of two counts in 64 bits. -/
def addCounts (a b : Int) : Int := Int.bmod (a + b) (2 ^ 64)

/-- The columns that elements take up together. -/
def usedColumns (nodes : List Node) : Int :=
  nodes.foldl (fun count node => addCounts count (addCounts (columns node) (offset node))) 0

/-- The classes of the empty cell behind `count` columns. -/
def placeholder (count : Int) : String :=
  "form-edit col-md-1 col-placeholder col-placeholder-"
    ++ (if count % 2 = 0 then "odd" else "even")

/-- The empty cells behind `count` columns. -/
def placeholders (count : Int) : List String :=
  (List.range (columnCount - count).toNat).map fun (step : Nat) => placeholder (count + step)

/-- Decorates a row: the empty cells are added to those already there. -/
def decorateRow (tree : Tree) (id : NodeId) : DecorationTarget → DecorationTarget
  | .foreign content => .foreign content
  | .cells cells =>
      let children := tree.children id
      let background := if children.isEmpty then ["rowBackground"] else []
      .cells {
        classes := ["row", "form-edit"] ++ background
        placeholders :=
          cells.placeholders ++ placeholders (usedColumns (children.filterMap tree.node?)) }

/-- Decorates a column with the classes of its width. -/
def decorateColumn (tree : Tree) (id : NodeId) : DecorationTarget → DecorationTarget
  | .foreign content => .foreign content
  | .cells cells =>
      match tree.node? id with
      | none => .cells cells
      | some node =>
          let background := if (tree.children id).isEmpty then ["columnBackground"] else []
          .cells { cells with
            classes :=
              ["col", "form-edit", "col-md-" ++ toString (columns node),
                "col-md-offset-" ++ toString (offset node)] ++ background }

end Grid

end FormDesigner
