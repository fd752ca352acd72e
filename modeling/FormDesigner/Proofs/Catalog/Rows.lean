import Mathlib.Algebra.GroupWithZero.Nat
import Mathlib.Algebra.Ring.Int.Defs
import FormDesigner.Catalog.Grid

/-!
The empty cells behind the elements of a row.

The columns of a row are counted in 64 bits.  As long as no count leaves them, decorating a row
adds just the cells that are free.  The cells that the target has already stay, so that only a row
without free cells can be decorated twice.
-/

namespace FormDesigner

namespace Grid

/-- The integer part of a stored finite number other than zero, however large it is. -/
def wholePart (node : Node) (name : String) (absent : Int) : Int :=
  match node.value? name with
  | some (.number x) => if x.isFinite && !x.isZero then x.truncate else absent
  | _ => absent

/-- The columns that an element takes up and leaves free before it. -/
def taken (node : Node) : Int :=
  wholePart node "columns" defaultColumns + wholePart node "offset" 0

/-- The elements of a row. -/
def elements (tree : Tree) (id : NodeId) : List Node := (tree.children id).filterMap tree.node?

/-- The columns that elements take up together. -/
def total (nodes : List Node) : Int := (nodes.map taken).sum

/-- What is left of `total` when each number is brought into 64 bits first. -/
def counted (nodes : List Node) : Int :=
  (nodes.map fun node => columns node + offset node).sum

/-- An integer of 64 bits. -/
def Fits (n : Int) : Prop := -(2 ^ 63) ≤ n ∧ n < 2 ^ 63

instance (n : Int) : Decidable (Fits n) := inferInstanceAs (Decidable (_ ∧ _))

/-- From a count on, no sum on the way leaves the 64 bits. -/
def AddsUp : Int → List Node → Prop
  | _, [] => True
  | count, node :: rest =>
      Fits (columns node + offset node) ∧ Fits (count + (columns node + offset node)) ∧
        AddsUp (count + (columns node + offset node)) rest

/-- All numbers have 64 bits, and so have the sums on the way. -/
structure CountsExactly (nodes : List Node) : Prop where
  fits : ∀ node ∈ nodes,
    Fits (wholePart node "columns" defaultColumns) ∧ Fits (wholePart node "offset" 0)
  addsUp : AddsUp 0 nodes

variable {node : Node} {nodes : List Node}

/-! ### Counting -/

theorem clamp_of_fits {n : Int} (h : Fits n) : clamp n = n := by
  obtain ⟨hlow, hhigh⟩ := h
  rw [clamp, Int.min_eq_left (Int.le_sub_one_of_lt hhigh), Int.max_eq_right hlow]

theorem columnValue_eq_clamp {absent : Int} (habsent : Fits absent) (node : Node)
    (name : String) : columnValue node name absent = clamp (wholePart node name absent) := by
  have hkept : absent = clamp absent := (clamp_of_fits habsent).symm
  rw [columnValue, wholePart]
  cases node.value? name with
  | none => exact hkept
  | some value =>
      cases value with
      | number x =>
          dsimp only
          split
          · rfl
          · exact hkept
      | _ => exact hkept

theorem columns_eq (h : Fits (wholePart node "columns" defaultColumns)) :
    columns node = wholePart node "columns" defaultColumns := by
  have hdefault : Fits defaultColumns := by decide
  rw [columns, columnValue_eq_clamp hdefault, clamp_of_fits h]

theorem offset_eq (h : Fits (wholePart node "offset" 0)) :
    offset node = wholePart node "offset" 0 := by
  have hzero : Fits 0 := by decide
  rw [offset, columnValue_eq_clamp hzero, clamp_of_fits h]

theorem bmod_of_fits {n : Int} (h : Fits n) : Int.bmod n (2 ^ 64) = n := by
  obtain ⟨hlow, hhigh⟩ := h
  apply Int.bmod_eq_of_le_mul_two <;> omega

/-- The count of a row is the sum of its numbers, reduced once. -/
theorem usedColumns_eq (nodes : List Node) :
    usedColumns nodes = Int.bmod (counted nodes) (2 ^ 64) := by
  have hfold : ∀ count : Int,
      nodes.foldl (fun count node => addCounts count (addCounts (columns node) (offset node)))
        (Int.bmod count (2 ^ 64)) = Int.bmod (count + counted nodes) (2 ^ 64) := by
    induction nodes with
    | nil => exact fun count => congrArg (Int.bmod · (2 ^ 64)) (Int.add_zero count).symm
    | cons node rest ih =>
        intro count
        rw [List.foldl_cons, addCounts, addCounts, Int.add_bmod_bmod, Int.bmod_add_bmod, ih,
          Int.add_assoc]
        rfl
  have hstart := hfold 0
  rwa [Int.zero_add] at hstart

theorem AddsUp.fits {count : Int} (h : AddsUp count nodes) (hcount : Fits count) :
    Fits (count + counted nodes) := by
  induction nodes generalizing count with
  | nil => exact (Int.add_zero count).symm ▸ hcount
  | cons node rest ih =>
      obtain ⟨-, hnext, hrest⟩ := h
      have hall := ih hrest hnext
      rwa [Int.add_assoc] at hall

/-- Numbers of 64 bits are not changed before they are added. -/
theorem counted_eq_total (h : ∀ node ∈ nodes,
    Fits (wholePart node "columns" defaultColumns) ∧ Fits (wholePart node "offset" 0)) :
    counted nodes = total nodes := by
  rw [counted, total]
  congr 1
  apply List.map_congr_left
  intro node hmem
  rw [taken, columns_eq (h node hmem).1, offset_eq (h node hmem).2]

theorem CountsExactly.bmod_counted (h : CountsExactly nodes) :
    Int.bmod (counted nodes) (2 ^ 64) = total nodes := by
  have hfits := h.addsUp.fits (by decide)
  rw [Int.zero_add] at hfits
  rw [bmod_of_fits hfits, counted_eq_total h.fits]

/-- The size of all numbers of a row. -/
def extent (nodes : List Node) : Nat :=
  (nodes.map fun node => (wholePart node "columns" defaultColumns).natAbs +
    (wholePart node "offset" 0).natAbs).sum

/-- No sum on the way is larger than all numbers together. -/
theorem countsExactly_of_extent (h : extent nodes < 2 ^ 63) : CountsExactly nodes := by
  have hgeneral : ∀ count : Int, count.natAbs + extent nodes < 2 ^ 63 →
      (∀ node ∈ nodes,
        Fits (wholePart node "columns" defaultColumns) ∧ Fits (wholePart node "offset" 0)) ∧
        AddsUp count nodes := by
    clear h
    induction nodes with
    | nil => exact fun _ _ => ⟨nofun, trivial⟩
    | cons node rest ih =>
        intro count hsmall
        have hextent : extent (node :: rest) = (wholePart node "columns" defaultColumns).natAbs +
            (wholePart node "offset" 0).natAbs + extent rest := rfl
        rw [hextent] at hsmall
        have hcolumns : Fits (wholePart node "columns" defaultColumns) := by
          rw [Fits]
          omega
        have hoffset : Fits (wholePart node "offset" 0) := by
          rw [Fits]
          omega
        obtain ⟨hfits, hadds⟩ := ih (count + (columns node + offset node)) (by
          rw [columns_eq hcolumns, offset_eq hoffset]
          omega)
        refine ⟨List.forall_mem_cons.mpr ⟨⟨hcolumns, hoffset⟩, hfits⟩, ?_, ?_, hadds⟩
        · rw [columns_eq hcolumns, offset_eq hoffset, Fits]
          omega
        · rw [columns_eq hcolumns, offset_eq hoffset, Fits]
          omega
  obtain ⟨hfits, hadds⟩ := hgeneral 0 (by simpa using h)
  exact ⟨hfits, hadds⟩

/-! ### Decorating -/

theorem length_placeholders (count : Int) :
    ((placeholders count).length : Int) = max 0 (columnCount - count) := by
  rw [placeholders, List.length_map, List.length_range, Int.toNat_eq_max, Int.max_comm]

/-- What decorating a row leaves, and what it leaves when it is done once more. -/
theorem exists_decorateRow (tree : Tree) (id : NodeId) (cells : GridCells) :
    ∃ classes, decorateRow tree id (.cells cells) =
        .cells ⟨classes, cells.placeholders ++ placeholders (usedColumns (elements tree id))⟩ ∧
      ∀ others, decorateRow tree id (.cells ⟨classes, others⟩) =
        .cells ⟨classes, others ++ placeholders (usedColumns (elements tree id))⟩ :=
  ⟨_, rfl, fun _ => rfl⟩

theorem placeholders_eq_nil_iff (count : Int) : placeholders count = [] ↔ columnCount ≤ count := by
  have hlength := length_placeholders count
  rw [← List.length_eq_zero_iff]
  omega

/-- Decorating a row keeps the cells of the target and adds more until the count of the row is
twelve, so that once more changes nothing if and only if the count has reached twelve before.  The
count is the exact total if all numbers and all sums on the way have 64 bits, which is so when the
numbers together stay below 2^63; and then the cells are as many as are free if and only if the
target had none before. -/
theorem decorateRow_fills (tree : Tree) (id : NodeId) (cells : GridCells) :
    ∃ after pads, decorateRow tree id (.cells cells) = .cells after ∧
      after.placeholders = cells.placeholders ++ pads ∧
      (pads.length : Int) =
        max 0 (columnCount - Int.bmod (counted (elements tree id)) (2 ^ 64)) ∧
      (decorateRow tree id (.cells after) = .cells after ↔
        columnCount ≤ Int.bmod (counted (elements tree id)) (2 ^ 64)) ∧
      (CountsExactly (elements tree id) →
        Int.bmod (counted (elements tree id)) (2 ^ 64) = total (elements tree id) ∧
        ((after.placeholders.length : Int) = max 0 (columnCount - total (elements tree id)) ↔
          cells.placeholders = [])) ∧
      (extent (elements tree id) < 2 ^ 63 → CountsExactly (elements tree id)) := by
  obtain ⟨classes, hafter, hagain⟩ := exists_decorateRow tree id cells
  have hlength := length_placeholders (usedColumns (elements tree id))
  have hempty := placeholders_eq_nil_iff (usedColumns (elements tree id))
  rw [usedColumns_eq] at hlength hempty
  refine ⟨_, _, hafter, rfl, ?_, ?_, ?_, countsExactly_of_extent⟩
  · rw [usedColumns_eq]
    exact hlength
  · rw [hagain, usedColumns_eq, ← hempty]
    simp
  · intro hexact
    rw [hexact.bmod_counted] at hlength
    refine ⟨hexact.bmod_counted, ?_⟩
    rw [usedColumns_eq, hexact.bmod_counted, List.length_append, ← List.length_eq_zero_iff]
    omega

/-- A row with one element. -/
def rowOf (fields : Fields Datum) : Tree :=
  ⟨#[⟨"row", .empty, some [1], none⟩, ⟨"col", fields, none, some 0⟩]⟩

/-- The values of an element of some columns with others before it. -/
def sized (columns offset : Nat) : Fields Datum :=
  .put "columns" (.ofNat columns) (.single "offset" (.ofNat offset))

/-- Behind an element of four columns with one before them seven are free, and a second decoration
adds seven more. -/
theorem decorateRow_fills_of_four :
    ∃ after, decorateRow (rowOf (sized 4 1)) 0 (.cells .empty) = .cells after ∧
      after.placeholders.length = 7 ∧
      decorateRow (rowOf (sized 4 1)) 0 (.cells after) ≠ .cells after := by
  have hextent : extent (elements (rowOf (sized 4 1)) 0) = 5 := by
    decide
  obtain ⟨after, pads, hafter, -, -, hagain, hexact, hextents⟩ :=
    decorateRow_fills (rowOf (sized 4 1)) 0 .empty
  obtain ⟨hcount, hfilled⟩ := hexact (hextents (by omega))
  have htotal : total (elements (rowOf (sized 4 1)) 0) = 5 := by
    decide
  have hlength := hfilled.mpr rfl
  rw [htotal, columnCount] at hlength
  rw [hcount, htotal, columnCount] at hagain
  exact ⟨after, hafter, by omega, fun hsame => absurd (hagain.mp hsame) (by decide)⟩

/-- Cells of the target stay, also those of an earlier decoration.  Two numbers beyond 64 bits are
brought to the largest count and then leave them, so that a row without free cells gets some. -/
theorem not_decorateRow_fills :
    (¬∀ (tree : Tree) (id : NodeId) (cells after : GridCells),
      decorateRow tree id (.cells cells) = .cells after →
        (after.placeholders.length : Int) = max 0 (columnCount - total (elements tree id))) ∧
    (¬∀ (tree : Tree) (id : NodeId) (cells after : GridCells),
      decorateRow tree id (.cells cells) = .cells after →
        decorateRow tree id (.cells after) = .cells after) ∧
    (¬∀ (tree : Tree) (id : NodeId) (after : GridCells),
      decorateRow tree id (.cells .empty) = .cells after →
        (after.placeholders.length : Int) = max 0 (columnCount - total (elements tree id))) ∧
    ¬∀ (tree : Tree) (id : NodeId), AddsUp 0 (elements tree id) := by
  refine ⟨?_, ?_, ?_, ?_⟩
  · intro hfilled
    have hcells := hfilled (rowOf .empty) 0 ⟨[], ["old"]⟩ _ rfl
    revert hcells
    decide
  · intro hsame
    have htwice := hsame (rowOf .empty) 0 .empty _ rfl
    revert htwice
    decide
  · intro hfilled
    have hcells :=
      hfilled (rowOf (sized (2 ^ 63) (2 ^ 63))) 0 _ rfl
    revert hcells
    decide
  · intro hadds
    have hfirst := (hadds (rowOf (sized (2 ^ 63) (2 ^ 63))) 0).1
    revert hfirst
    decide

end Grid

end FormDesigner
