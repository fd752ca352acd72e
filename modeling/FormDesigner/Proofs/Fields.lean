import Mathlib.Data.List.Sort
import FormDesigner.Fields

/-!
Entries as assignments.

Entries in ascending order are known by what is found under each name.
-/

namespace FormDesigner

namespace Entries

universe u v

variable {α : Type u} {β : Type v} {entries others : Entries α} {name other : String} {value : α}

theorem get?_eq_none_iff : get? name entries = none ↔ ∀ entry ∈ entries, entry.1 ≠ name := by
  induction entries with
  | nil => simp
  | cons head rest ih =>
      obtain ⟨key, stored⟩ := head
      rw [get?]
      split
      · next heq => simp [heq]
      · next hne =>
          rw [ih]
          simp [hne]

theorem mem_of_get? (h : get? name entries = some value) : (name, value) ∈ entries := by
  induction entries with
  | nil => cases h
  | cons head rest ih =>
      obtain ⟨key, stored⟩ := head
      rw [get?] at h
      split at h
      · next heq =>
          cases h
          rw [heq]
          exact List.mem_cons_self
      · exact List.mem_cons_of_mem _ (ih h)

/-- What is there after storing was there before, or is what was stored. -/
theorem mem_put {entry : String × α} (h : entry ∈ put name value entries) :
    entry = (name, value) ∨ entry ∈ entries := by
  induction entries with
  | nil => exact .inl (List.mem_singleton.mp h)
  | cons head rest ih =>
      obtain ⟨key, old⟩ := head
      rw [put] at h
      split at h
      · rcases List.mem_cons.mp h with hnew | hrest
        · exact .inl hnew
        · exact .inr (List.mem_cons_of_mem _ hrest)
      · split at h
        · exact (List.mem_cons.mp h).imp_right id
        · rcases List.mem_cons.mp h with hhead | hrest
          · exact .inr (hhead ▸ List.mem_cons_self)
          · exact (ih hrest).imp_right (List.mem_cons_of_mem _)

/-- In an ascending list every entry is found. -/
theorem get?_of_mem (hascending : Ascending entries) (h : (name, value) ∈ entries) :
    get? name entries = some value := by
  induction entries with
  | nil => cases h
  | cons head rest ih =>
      obtain ⟨key, stored⟩ := head
      obtain ⟨hhead, hrest⟩ := List.pairwise_cons.1 hascending
      rcases List.mem_cons.1 h with heq | hmem
      · cases heq
        simp [get?]
      · have hne : ¬key = name := fun heq =>
          String.lt_irrefl name (heq ▸ hhead (name, value) hmem)
        rw [get?, if_neg hne]
        exact ih hrest hmem

theorem has_of_mem (hascending : Ascending entries) {entry : String × α} (h : entry ∈ entries) :
    has entry.1 entries = true := by
  rw [has, get?_of_mem hascending h]
  rfl

theorem get?_eq_none_of_not_has (h : (!has name entries) = true) : get? name entries = none := by
  simpa [has] using h

/-- Ascending lists under whose names the same is found are the same. -/
theorem ext_get? (hentries : Ascending entries) (hothers : Ascending others)
    (h : ∀ name, get? name entries = get? name others) : entries = others := by
  have hirrefl : Std.Irrefl fun left right : String × α => left.1 < right.1 :=
    ⟨fun entry => String.lt_irrefl entry.1⟩
  have hantisymm : Std.Antisymm fun left right : String × α => left.1 < right.1 :=
    ⟨fun left right hlt hgt => absurd hgt (String.lt_asymm hlt)⟩
  refine List.Pairwise.eq_of_mem_iff hentries hothers fun entry => ?_
  obtain ⟨name, value⟩ := entry
  constructor
  · intro hmem
    exact mem_of_get? (h name ▸ get?_of_mem hentries hmem)
  · intro hmem
    exact mem_of_get? (h name ▸ get?_of_mem hothers hmem)

/-- What was removed is not found any more. -/
theorem get?_drop_self (name : String) (hascending : Ascending entries) :
    get? name (drop name entries) = none := by
  induction entries with
  | nil => rfl
  | cons head rest ih =>
      obtain ⟨key, stored⟩ := head
      obtain ⟨hhead, hrest⟩ := List.pairwise_cons.1 hascending
      rw [drop]
      split
      · next heq =>
          rw [get?_eq_none_iff]
          intro entry hmem hname
          have hlt := hhead entry hmem
          rw [heq, hname] at hlt
          exact String.lt_irrefl name hlt
      · next hne =>
          rw [get?, if_neg hne]
          exact ih hrest

/-- Removing one name leaves the others alone. -/
theorem get?_drop_of_ne (hne : other ≠ name) (entries : Entries α) :
    get? other (drop name entries) = get? other entries := by
  induction entries with
  | nil => rfl
  | cons head rest ih =>
      obtain ⟨key, stored⟩ := head
      rw [drop]
      split
      · next heq =>
          have hkey : ¬key = other := fun h => hne (h ▸ heq)
          rw [get?, if_neg hkey]
      · rw [get?, get?, ih]

theorem get?_map (change : α → β) (name : String) (entries : Entries α) :
    get? name (entries.map fun entry => (entry.1, change entry.2)) =
      (get? name entries).map change := by
  induction entries with
  | nil => rfl
  | cons head rest ih =>
      obtain ⟨key, stored⟩ := head
      rw [List.map_cons, get?, get?]
      split
      · rfl
      · exact ih

/-- Behind all smaller names a new one comes last. -/
theorem put_of_all_lt (value : α) (h : ∀ entry ∈ entries, entry.1 < name) :
    put name value entries = entries ++ [(name, value)] := by
  induction entries with
  | nil => rfl
  | cons head rest ih =>
      obtain ⟨key, stored⟩ := head
      obtain ⟨hhead, hrest⟩ := List.forall_mem_cons.1 h
      have hne : name ≠ key := fun heq => String.lt_irrefl name (heq ▸ hhead)
      rw [put, if_neg hne, if_neg (String.lt_asymm hhead), ih hrest]
      rfl

end Entries

namespace Fields

universe u v

variable {α : Type u} {β : Type v} {fields others : Fields α} {name other : String} {value : α}

@[simp] theorem get?_empty (name : String) : get? name (empty : Fields α) = none := rfl

theorem get?_single (name : String) (value : α) : get? name (single name value) = some value :=
  if_pos rfl

theorem get?_eq_some_iff : get? name fields = some value ↔ (name, value) ∈ fields.entries :=
  ⟨Entries.mem_of_get?, Entries.get?_of_mem fields.ascending⟩

@[simp] theorem get?_put_self (name : String) (value : α) (fields : Fields α) :
    get? name (put name value fields) = some value :=
  Entries.get?_put_self name value fields.entries

theorem get?_put_of_ne (hne : other ≠ name) (value : α) (fields : Fields α) :
    get? other (put name value fields) = get? other fields :=
  Entries.get?_put_of_ne hne value fields.entries

theorem get?_drop_self (name : String) (fields : Fields α) :
    get? name (drop name fields) = none :=
  Entries.get?_drop_self name fields.ascending

theorem get?_drop_of_ne (hne : other ≠ name) (fields : Fields α) :
    get? other (drop name fields) = get? other fields :=
  Entries.get?_drop_of_ne hne fields.entries

theorem get?_map (change : α → β) (name : String) (fields : Fields α) :
    get? name (fields.map change) = (get? name fields).map change :=
  Entries.get?_map change name fields.entries

/-- Fields under whose names the same is found are the same. -/
theorem ext_get? (h : ∀ name, get? name fields = get? name others) : fields = others :=
  Fields.ext (Entries.ext_get? fields.ascending others.ascending h)

/-- To store what is stored already changes nothing. -/
theorem put_of_get? (h : get? name fields = some value) : put name value fields = fields := by
  apply ext_get?
  intro other
  by_cases hname : other = name
  · rw [hname, get?_put_self, h]
  · exact get?_put_of_ne hname value fields

/-- Entries that ascend are collected as they are. -/
theorem collect_of_ascending {entries : Entries α} (h : entries.Ascending) :
    collect entries = ⟨entries, h⟩ := by
  have hfrom : ∀ done : Fields α, Entries.Ascending (done.entries ++ entries) →
      (entries.foldl (fun reached entry => put entry.1 entry.2 reached) done).entries =
        done.entries ++ entries := by
    intro done
    induction entries generalizing done with
    | nil => exact fun _ => (List.append_nil done.entries).symm
    | cons head rest ih =>
        intro hdone
        have hlast : ∀ entry ∈ done.entries, entry.1 < head.1 := fun entry hmem =>
          (List.pairwise_append.1 hdone).2.2 entry hmem head List.mem_cons_self
        have hput : (put head.1 head.2 done).entries = done.entries ++ [head] :=
          Entries.put_of_all_lt head.2 hlast
        rw [List.append_cons, ← hput] at hdone
        rw [List.foldl_cons, ih (List.pairwise_cons.1 h).2 _ hdone, hput, ← List.append_cons]
  exact Fields.ext (hfrom empty h)

theorem collect_entries (fields : Fields α) : collect fields.entries = fields :=
  collect_of_ascending fields.ascending

end Fields

end FormDesigner
