import FormDesigner.Value.Basic

/-!
Values as they are stored: the names of every record in them ascend.

So there is one datum for each assignment of values to names, at any depth.
-/

namespace FormDesigner

namespace Value

mutual

def decideOrdered : (value : Value) → Decidable value.Ordered
  | .null => isTrue trivial
  | .bool _ => isTrue trivial
  | .number _ => isTrue trivial
  | .string _ => isTrue trivial
  | .list items => decideOrderedItems items
  | .record fields =>
      @instDecidableAnd _ _ (inferInstanceAs (Decidable (Entries.Ascending fields)))
        (decideOrderedFields fields)
  | .binding _ inner => decideOrdered inner

def decideOrderedItems : (items : List Value) → Decidable (OrderedItems items)
  | [] => isTrue trivial
  | item :: rest => @instDecidableAnd _ _ (decideOrdered item) (decideOrderedItems rest)

def decideOrderedFields : (fields : Entries Value) → Decidable (OrderedFields fields)
  | [] => isTrue trivial
  | (_, value) :: rest => @instDecidableAnd _ _ (decideOrdered value) (decideOrderedFields rest)

end

instance : DecidablePred Value.Ordered := decideOrdered

theorem orderedFields_put {fields : Entries Value} {value : Value} (h : OrderedFields fields)
    (hvalue : value.Ordered) (name : String) :
    OrderedFields (Entries.put name value fields) := by
  induction fields with
  | nil => exact ⟨hvalue, trivial⟩
  | cons head rest ih =>
      obtain ⟨key, stored⟩ := head
      obtain ⟨hstored, hrest⟩ := h
      rw [Entries.put]
      split
      · exact ⟨hvalue, hrest⟩
      · split
        · exact ⟨hvalue, hstored, hrest⟩
        · exact ⟨hstored, ih hrest⟩

/-- Ordered values under any names are collected as an ordered record. -/
theorem ordered_collect {entries : Entries Value} (h : OrderedFields entries) :
    (record (Fields.collect entries).entries).Ordered := by
  have hfrom : ∀ done : Fields Value, OrderedFields done.entries → OrderedFields
      (entries.foldl (fun reached entry => Fields.put entry.1 entry.2 reached) done).entries := by
    induction entries with
    | nil => exact fun _ hdone => hdone
    | cons entry rest ih =>
        exact fun done hdone => ih h.2 _ (orderedFields_put hdone h.1 entry.1)
  exact ⟨(Fields.collect entries).ascending, hfrom Fields.empty trivial⟩

end Value

/-- A value in which the names of every record ascend. -/
@[ext]
structure Datum where
  value : Value
  ordered : value.Ordered

/-- The values of some fields. -/
def Fields.values (fields : Fields Datum) : Entries Value :=
  fields.entries.map fun entry => (entry.1, entry.2.value)

namespace Datum

def null : Datum := ⟨.null, trivial⟩

instance : Inhabited Datum := ⟨null⟩

def bool (b : Bool) : Datum := ⟨.bool b, trivial⟩

def number (x : Number) : Datum := ⟨.number x, trivial⟩

def string (s : String) : Datum := ⟨.string s, trivial⟩

theorem orderedItems (items : List Datum) : Value.OrderedItems (items.map Datum.value) := by
  induction items with
  | nil => trivial
  | cons item rest ih => exact ⟨item.ordered, ih⟩

def list (items : List Datum) : Datum := ⟨.list (items.map Datum.value), orderedItems items⟩

theorem orderedFields (entries : Entries Datum) :
    Value.OrderedFields (entries.map fun entry => (entry.1, entry.2.value)) := by
  induction entries with
  | nil => trivial
  | cons entry rest ih => exact ⟨entry.2.ordered, ih⟩

def record (fields : Fields Datum) : Datum :=
  ⟨.record fields.values,
    Entries.ascending_map Datum.value fields.ascending, orderedFields fields.entries⟩

def binding (kind : BindingKind) (inner : Datum) : Datum :=
  ⟨.binding kind inner.value, inner.ordered⟩

/-- A slot that holds a literal. -/
def literal (inner : Datum) : Datum := binding .literal inner

/-- A slot that holds an expression. -/
def expression (source : String) : Datum := binding .expression (string source)

/-- The datum of a natural number. -/
def ofNat (n : Nat) : Datum := number (Number.ofInt n)

end Datum

end FormDesigner
