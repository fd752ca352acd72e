/-!
Named entries, kept in ascending order of their names.

Names are compared character by character, by code point.  There is one such
list for each assignment of values to names.
-/

namespace FormDesigner

universe u v

/-- Named entries. -/
abbrev Entries (α : Type u) := List (String × α)

namespace Entries

variable {α : Type u} {β : Type v}

/-- Every name is strictly below the names after it. -/
def Ascending (entries : Entries α) : Prop :=
  entries.Pairwise (fun left right => left.1 < right.1)

instance (entries : Entries α) : Decidable entries.Ascending :=
  inferInstanceAs (Decidable (List.Pairwise _ entries))

/-- The value stored under `name`. -/
def get? (name : String) : Entries α → Option α
  | [] => none
  | (key, value) :: rest => if key = name then some value else get? name rest

/-- Whether a value is stored under `name`. -/
def has (name : String) (entries : Entries α) : Bool :=
  (get? name entries).isSome

/-- The names, in order. -/
def names (entries : Entries α) : List String :=
  entries.map Prod.fst

/-- Stores `value` under `name`, in place of a value already there. -/
def put (name : String) (value : α) : Entries α → Entries α
  | [] => [(name, value)]
  | (key, old) :: rest =>
      if name = key then (name, value) :: rest
      else if name < key then (name, value) :: (key, old) :: rest
      else (key, old) :: put name value rest

/-- Removes the value stored under `name`. -/
def drop (name : String) : Entries α → Entries α
  | [] => []
  | (key, value) :: rest =>
      if key = name then rest else (key, value) :: drop name rest

@[simp] theorem get?_nil (name : String) : get? name ([] : Entries α) = none := rfl

/-- What was stored is found again. -/
@[simp] theorem get?_put_self (name : String) (value : α) (entries : Entries α) :
    get? name (put name value entries) = some value := by
  induction entries with
  | nil => simp [put, get?]
  | cons head rest ih =>
      obtain ⟨key, old⟩ := head
      by_cases hsame : name = key
      · simp [put, get?, hsame]
      · by_cases hbelow : name < key
        · simp [put, get?, hsame, hbelow]
        · have hother : ¬key = name := fun h => hsame h.symm
          simp [put, get?, hsame, hbelow, hother, ih]

/-- Storing under one name leaves the others alone. -/
theorem get?_put_of_ne {name other : String} (hne : other ≠ name) (value : α)
    (entries : Entries α) : get? other (put name value entries) = get? other entries := by
  induction entries with
  | nil => simp [put, get?, Ne.symm hne]
  | cons head rest ih =>
      obtain ⟨key, old⟩ := head
      by_cases hsame : name = key
      · subst hsame
        simp [put, get?, Ne.symm hne]
      · by_cases hbelow : name < key
        · simp [put, get?, hsame, hbelow, Ne.symm hne]
        · simp only [put, hsame, hbelow, if_false, get?, ih]

/-- What holds of a new name and of all stored names holds of all names
afterwards. -/
theorem forall_put {P : String → Prop} {name : String} (value : α) {entries : Entries α}
    (hname : P name) (hentries : ∀ entry ∈ entries, P entry.1) :
    ∀ entry ∈ put name value entries, P entry.1 := by
  induction entries with
  | nil => simpa [put] using hname
  | cons head rest ih =>
      obtain ⟨key, old⟩ := head
      have hrest : ∀ entry ∈ rest, P entry.1 := fun entry h =>
        hentries entry (List.mem_cons_of_mem _ h)
      unfold put
      split
      · intro entry h
        rcases List.mem_cons.1 h with rfl | h
        · exact hname
        · exact hrest entry h
      · split
        · intro entry h
          rcases List.mem_cons.1 h with rfl | h
          · exact hname
          · exact hentries entry h
        · intro entry h
          rcases List.mem_cons.1 h with rfl | h
          · exact hentries _ List.mem_cons_self
          · exact ih hrest entry h

/-- Storing keeps the names in ascending order. -/
theorem ascending_put (name : String) (value : α) {entries : Entries α}
    (h : Ascending entries) : Ascending (put name value entries) := by
  induction entries with
  | nil => simp [put, Ascending]
  | cons head rest ih =>
      obtain ⟨key, old⟩ := head
      obtain ⟨hhead, hrest⟩ := List.pairwise_cons.1 h
      unfold put
      split
      · next hsame =>
          subst hsame
          exact List.pairwise_cons.2 ⟨hhead, hrest⟩
      · next hne =>
          split
          · next hbelow =>
              refine List.pairwise_cons.2 ⟨fun entry hmem => ?_, h⟩
              rcases List.mem_cons.1 hmem with rfl | hmem
              · exact hbelow
              · exact String.lt_trans hbelow (hhead entry hmem)
          · next hnot =>
              have habove : key < name := String.not_le.1 fun hle =>
                hne (String.le_antisymm hle (String.not_lt.1 hnot))
              exact List.pairwise_cons.2
                ⟨forall_put value habove hhead, ih hrest⟩

/-- What is left after a removal was there before. -/
theorem sublist_drop (name : String) (entries : Entries α) :
    (drop name entries).Sublist entries := by
  induction entries with
  | nil => exact List.Sublist.refl []
  | cons head rest ih =>
      obtain ⟨key, value⟩ := head
      unfold drop
      split
      · exact List.sublist_cons_self _ _
      · exact ih.cons_cons _

/-- Removing keeps the names in ascending order. -/
theorem ascending_drop (name : String) {entries : Entries α} (h : Ascending entries) :
    Ascending (drop name entries) :=
  List.Pairwise.sublist (sublist_drop name entries) h

theorem ascending_map (change : α → β) {entries : Entries α} (h : Ascending entries) :
    Ascending (entries.map fun entry => (entry.1, change entry.2)) :=
  List.pairwise_map.2 h

end Entries

/-- Named entries in ascending order of their names. -/
@[ext]
structure Fields (α : Type u) where
  entries : Entries α
  ascending : entries.Ascending

namespace Fields

variable {α : Type u} {β : Type v}

def empty : Fields α := ⟨[], List.Pairwise.nil⟩

instance : Inhabited (Fields α) := ⟨empty⟩

/-- One entry. -/
def single (name : String) (value : α) : Fields α := ⟨[(name, value)], List.pairwise_singleton _ _⟩

/-- The value stored under `name`. -/
def get? (name : String) (fields : Fields α) : Option α := Entries.get? name fields.entries

/-- Whether a value is stored under `name`. -/
def has (name : String) (fields : Fields α) : Bool := (get? name fields).isSome

/-- Stores `value` under `name`, in place of a value already there. -/
def put (name : String) (value : α) (fields : Fields α) : Fields α :=
  ⟨Entries.put name value fields.entries, Entries.ascending_put name value fields.ascending⟩

/-- Removes the value stored under `name`. -/
def drop (name : String) (fields : Fields α) : Fields α :=
  ⟨Entries.drop name fields.entries, Entries.ascending_drop name fields.ascending⟩

/-- Collects entries; of two entries with one name the later one stays. -/
def collect (entries : Entries α) : Fields α :=
  entries.foldl (fun fields entry => put entry.1 entry.2 fields) empty

/-- Changes all values. -/
def map (change : α → β) (fields : Fields α) : Fields β :=
  ⟨fields.entries.map fun entry => (entry.1, change entry.2),
    Entries.ascending_map change fields.ascending⟩

end Fields

end FormDesigner
