import Mathlib.Data.List.Forall2
import Mathlib.Logic.Relation
import FormDesigner.Answers

/-!
Computations that can fail, for all items of a list.
-/

namespace FormDesigner

namespace Answer

universe u

variable {ε α β : Type u}

/-- Steps that fail do so at one of the items. -/
theorem of_foldlM_error {step : β → α → Except ε β} {items : List α} {state : β} {failure : ε}
    (h : items.foldlM step state = .error failure) :
    ∃ item ∈ items, ∃ middle, step middle item = .error failure := by
  induction items generalizing state with
  | nil => cases h
  | cons item rest ih =>
      rw [List.foldlM_cons] at h
      rcases of_bind_error h with hfirst | ⟨middle, _, hrest⟩
      · exact ⟨item, List.mem_cons_self, state, hfirst⟩
      · obtain ⟨other, hother, hlater⟩ := ih hrest
        exact ⟨other, List.mem_cons_of_mem item hother, hlater⟩

/-- Steps that each succeed and keep what the next one needs succeed together. -/
theorem exists_foldlM_ok {step : β → α → Except ε β} {holds : β → Prop} {items : List α}
    (hstep : ∀ item ∈ items, ∀ state, holds state →
      ∃ after, step state item = .ok after ∧ holds after) {state : β} (hstate : holds state) :
    ∃ after, items.foldlM step state = .ok after ∧ holds after := by
  induction items generalizing state with
  | nil => exact ⟨state, rfl, hstate⟩
  | cons item rest ih =>
      obtain ⟨middle, hfirst, hmiddle⟩ := hstep item List.mem_cons_self state hstate
      obtain ⟨after, hrest, hafter⟩ :=
        ih (fun other hmem => hstep other (List.mem_cons_of_mem item hmem)) hmiddle
      refine ⟨after, ?_, hafter⟩
      rw [List.foldlM_cons, hfirst]
      exact hrest

/-- The results of a list stand where the items do. -/
theorem forall₂_of_mapM_ok {change : α → Except ε β} {items : List α} {results : List β}
    (h : items.mapM change = .ok results) :
    List.Forall₂ (fun item result => change item = .ok result) items results := by
  induction items generalizing results with
  | nil =>
      cases h
      exact .nil
  | cons item rest ih =>
      rw [List.mapM_cons] at h
      obtain ⟨first, hfirst, hmore⟩ := of_bind_ok h
      obtain ⟨others, hothers, hlast⟩ := of_bind_ok hmore
      cases hlast
      exact .cons hfirst (ih hothers)

/-- Every result is that of an item. -/
theorem exists_of_mem_mapM {change : α → Except ε β} {items : List α} {results : List β}
    (h : items.mapM change = .ok results) {result : β} (hmem : result ∈ results) :
    ∃ item ∈ items, change item = .ok result := by
  have hpairs := forall₂_of_mapM_ok h
  clear h
  induction hpairs with
  | nil => cases hmem
  | @cons item _ _ _ hfirst _ ih =>
      rcases List.mem_cons.1 hmem with rfl | hrest
      · exact ⟨item, List.mem_cons_self, hfirst⟩
      · obtain ⟨other, hother, hresult⟩ := ih hrest
        exact ⟨other, List.mem_cons_of_mem item hother, hresult⟩

/-- Every item has a result. -/
theorem ok_of_mem_mapM {change : α → Except ε β} {items : List α} {results : List β}
    (h : items.mapM change = .ok results) {item : α} (hmem : item ∈ items) :
    ∃ result, change item = .ok result := by
  have hpairs := forall₂_of_mapM_ok h
  clear h
  induction hpairs with
  | nil => cases hmem
  | @cons first result _ _ hfirst _ ih =>
      rcases List.mem_cons.mp hmem with rfl | hrest
      · exact ⟨result, hfirst⟩
      · exact ih hrest

theorem exists_mapM_ok {change : α → Except ε β} {items : List α}
    (h : ∀ item ∈ items, ∃ result, change item = .ok result) :
    ∃ results, items.mapM change = .ok results := by
  induction items with
  | nil => exact ⟨[], rfl⟩
  | cons item rest ih =>
      obtain ⟨first, hfirst⟩ := h item List.mem_cons_self
      obtain ⟨others, hothers⟩ := ih fun other hmem => h other (List.mem_cons_of_mem _ hmem)
      refine ⟨first :: others, ?_⟩
      rw [List.mapM_cons, hfirst, hothers]
      rfl

/-- A list that fails does so at its first item that fails. -/
theorem of_mapM_error {change : α → Except ε β} {items : List α} {failure : ε}
    (h : items.mapM change = .error failure) :
    ∃ before item after, items = before ++ item :: after ∧
      (∀ earlier ∈ before, ∃ result, change earlier = .ok result) ∧
      change item = .error failure := by
  induction items with
  | nil => cases h
  | cons item rest ih =>
      rw [List.mapM_cons] at h
      cases hfirst : change item with
      | error cause =>
          rw [hfirst] at h
          cases h
          exact ⟨[], item, rest, rfl, nofun, hfirst⟩
      | ok result =>
          cases hrest : rest.mapM change with
          | ok results =>
              rw [hfirst, hrest] at h
              cases h
          | error cause =>
              rw [hfirst, hrest] at h
              cases h
              obtain ⟨before, failing, after, rfl, hbefore, hfailing⟩ := ih hrest
              refine ⟨item :: before, failing, after, rfl, ?_, hfailing⟩
              intro earlier hearlier
              rcases List.mem_cons.mp hearlier with rfl | hmem
              · exact ⟨result, hfirst⟩
              · exact hbefore earlier hmem

end Answer

section Places

universe u

variable {α β γ δ : Type u}

/-- Lists that agree place by place agree in every place. -/
theorem rel_getElem? {agree : α → β → Prop} {items : List α} {results : List β}
    (h : List.Forall₂ agree items results) (index : Nat) :
    Option.Rel agree items[index]? results[index]? := by
  induction h generalizing index with
  | nil => exact .none
  | cons hfirst _ ih =>
      cases index with
      | zero => exact .some hfirst
      | succ index => exact ih index

theorem rel_comp {first : α → β → Prop} {second : β → γ → Prop} {a : Option α} {b : Option β}
    {c : Option γ} (hfirst : Option.Rel first a b) (hsecond : Option.Rel second b c) :
    Option.Rel (Relation.Comp first second) a c := by
  cases hfirst with
  | none =>
      cases hsecond
      exact .none
  | some hab =>
      cases hsecond with
      | some hbc => exact .some ⟨_, hab, hbc⟩

theorem rel_imp {first second : α → β → Prop} {a : Option α} {b : Option β}
    (hfirst : Option.Rel first a b)
    (h : ∀ x y, a = some x → b = some y → first x y → second x y) : Option.Rel second a b := by
  cases hfirst with
  | none => exact .none
  | some hab => exact .some (h _ _ rfl rfl hab)

theorem exists_left_of_rel {agree : α → β → Prop} {a : Option α} {b : Option β} {y : β}
    (h : Option.Rel agree a b) (hb : b = some y) : ∃ x, a = some x ∧ agree x y := by
  cases h with
  | none => cases hb
  | some hab =>
      cases hb
      exact ⟨_, rfl, hab⟩

theorem rel_bind {agree : α → β → Prop} {after : γ → δ → Prop} {a : Option α} {b : Option β}
    {left : α → Option γ} {right : β → Option δ} (h : Option.Rel agree a b)
    (hnext : ∀ a b, agree a b → Option.Rel after (left a) (right b)) :
    Option.Rel after (a.bind left) (b.bind right) := by
  cases h with
  | none => exact .none
  | some hab => exact hnext _ _ hab

/-- A relation that is a function on every item relates a list to what the function makes of
it. -/
theorem forall₂_iff_eq_map {known : α → γ → Prop} {relates : α → β → Prop} {change : α → β}
    {items : List α} {others : List γ} {results : List β} (h : List.Forall₂ known items others)
    (hitem : ∀ item other, known item other → ∀ result,
      relates item result ↔ result = change item) :
    List.Forall₂ relates items results ↔ results = items.map change := by
  induction h generalizing results with
  | nil => rw [List.forall₂_nil_left_iff, List.map_nil]
  | @cons item other rest _ hfirst _ ih =>
      rw [List.forall₂_cons_left_iff, List.map_cons]
      constructor
      · rintro ⟨first, others, hrelates, hrest, rfl⟩
        rw [(hitem item other hfirst first).mp hrelates, ih.mp hrest]
      · rintro rfl
        exact ⟨_, _, (hitem item other hfirst _).mpr rfl, ih.mpr rfl, rfl⟩

end Places

end FormDesigner
