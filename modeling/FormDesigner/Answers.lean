/-!
Computations without a state that can fail.
-/

namespace FormDesigner

namespace Answer

universe u

variable {ε α β γ : Type u}

/-- A sequence that succeeds is made of two parts that succeed. -/
theorem of_bind_ok {first : Except ε α} {next : α → Except ε β} {value : β}
    (h : first >>= next = .ok value) : ∃ middle, first = .ok middle ∧ next middle = .ok value := by
  cases first with
  | error failure => cases h
  | ok middle => exact ⟨middle, rfl, h⟩

/-- A sequence that fails does so in one of its parts. -/
theorem of_bind_error {first : Except ε α} {next : α → Except ε β} {failure : ε}
    (h : first >>= next = .error failure) :
    first = .error failure ∨ ∃ middle, first = .ok middle ∧ next middle = .error failure := by
  cases first with
  | error cause =>
      cases h
      exact .inl rfl
  | ok middle => exact .inr ⟨middle, rfl, h⟩

/-- A part that succeeds hands its answer to the next one. -/
theorem bind_of_ok {first : Except ε α} {next : α → Except ε β} {middle : α}
    (h : first = .ok middle) : first >>= next = next middle := by
  rw [h]
  rfl

/-- What every result has in common with its item, all results have with all items. -/
theorem map_eq_of_mapM_ok {change : α → Except ε β} {before : α → γ} {after : β → γ}
    (hchange : ∀ item result, change item = .ok result → after result = before item)
    {items : List α} {results : List β} (h : items.mapM change = .ok results) :
    results.map after = items.map before := by
  induction items generalizing results with
  | nil =>
      cases h
      rfl
  | cons item rest ih =>
      rw [List.mapM_cons] at h
      obtain ⟨first, hfirst, hmore⟩ := of_bind_ok h
      obtain ⟨others, hothers, hlast⟩ := of_bind_ok hmore
      cases hlast
      rw [List.map_cons, List.map_cons, hchange item first hfirst, ih hothers]

end Answer

end FormDesigner
