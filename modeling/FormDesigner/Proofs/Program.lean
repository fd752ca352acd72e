/-!
Programs that change a state and can fail.

A failure keeps what was done before it.  The first lemmas run a program step
by step; `finish` is the state that is left either way.
-/

namespace FormDesigner

namespace Program

universe u

variable {ε ε' σ α β : Type u}

@[simp] theorem pure_apply (value : α) (state : σ) :
    (pure value : EStateM ε σ α) state = .ok value state := rfl

@[simp] theorem throw_apply (failure : ε) (state : σ) :
    (throw failure : EStateM ε σ α) state = .error failure state := rfl

@[simp] theorem get_apply (state : σ) :
    (get : EStateM ε σ σ) state = .ok state state := rfl

@[simp] theorem modify_apply (change : σ → σ) (state : σ) :
    (modify change : EStateM ε σ PUnit) state = .ok ⟨⟩ (change state) := rfl

@[simp] theorem modifyGet_apply (change : σ → α × σ) (state : σ) :
    (modifyGet change : EStateM ε σ α) state = .ok (change state).1 (change state).2 := rfl

/-- A program that succeeds hands its answer to the next one. -/
theorem bind_ok {program : EStateM ε σ α} {next : α → EStateM ε σ β} {state after : σ} {value : α}
    (h : program state = .ok value after) : (program >>= next) state = next value after := by
  change EStateM.bind program next state = _
  simp only [EStateM.bind, h]

/-- A failure ends the work. -/
theorem bind_error {program : EStateM ε σ α} {next : α → EStateM ε σ β} {state after : σ}
    {failure : ε} (h : program state = .error failure after) :
    (program >>= next) state = .error failure after := by
  change EStateM.bind program next state = _
  simp only [EStateM.bind, h]

/-- A sequence that succeeds is made of two parts that succeed. -/
theorem of_bind_ok {program : EStateM ε σ α} {next : α → EStateM ε σ β} {state after : σ}
    {value : β}
    (h : (program >>= next) state = .ok value after) :
    ∃ answer middle, program state = .ok answer middle ∧ next answer middle = .ok value after := by
  cases hrun : program state with
  | ok answer middle =>
      rw [bind_ok hrun] at h
      exact ⟨answer, middle, rfl, h⟩
  | error failure middle =>
      rw [bind_error hrun] at h
      cases h

theorem adaptExcept_ok {program : EStateM ε σ α} {wrap : ε → ε'} {state after : σ} {value : α}
    (h : program state = .ok value after) :
    program.adaptExcept wrap state = .ok value after := by
  simp only [EStateM.adaptExcept, h]

theorem adaptExcept_error {program : EStateM ε σ α} {wrap : ε → ε'} {state after : σ} {failure : ε}
    (h : program state = .error failure after) :
    program.adaptExcept wrap state = .error (wrap failure) after := by
  simp only [EStateM.adaptExcept, h]

theorem of_adaptExcept_ok {program : EStateM ε σ α} {wrap : ε → ε'} {state after : σ} {value : α}
    (h : program.adaptExcept wrap state = .ok value after) : program state = .ok value after := by
  cases hrun : program state with
  | ok answer middle =>
      rw [adaptExcept_ok hrun] at h
      cases h
      rfl
  | error failure middle =>
      rw [adaptExcept_error hrun] at h
      cases h

theorem of_adaptExcept_error {program : EStateM ε σ α} {wrap : ε → ε'} {state after : σ}
    {failure : ε'} (h : program.adaptExcept wrap state = .error failure after) :
    ∃ cause, program state = .error cause after := by
  cases hrun : program state with
  | ok answer middle =>
      rw [adaptExcept_ok hrun] at h
      cases h
  | error cause middle =>
      rw [adaptExcept_error hrun] at h
      cases h
      exact ⟨cause, rfl⟩

/-- The state that a program leaves, also after a failure. -/
def finish (program : EStateM ε σ α) (state : σ) : σ :=
  match program state with
  | .ok _ after => after
  | .error _ after => after

theorem finish_of_ok {program : EStateM ε σ α} {state after : σ} {value : α}
    (h : program state = .ok value after) : finish program state = after := by
  simp only [finish, h]

theorem finish_of_error {program : EStateM ε σ α} {state after : σ} {failure : ε}
    (h : program state = .error failure after) : finish program state = after := by
  simp only [finish, h]

theorem finish_adaptExcept (program : EStateM ε σ α) (wrap : ε → ε') (state : σ) :
    finish (program.adaptExcept wrap) state = finish program state := by
  cases hrun : program state with
  | ok value after => rw [finish_of_ok hrun, finish_of_ok (adaptExcept_ok hrun)]
  | error failure after => rw [finish_of_error hrun, finish_of_error (adaptExcept_error hrun)]

/-- A sequence ends with its second part, unless the first one fails. -/
theorem finish_bind_cases (program : EStateM ε σ α) (next : α → EStateM ε σ β) (state : σ) :
    (∃ value, finish (program >>= next) state = finish (next value) (finish program state)) ∨
      finish (program >>= next) state = finish program state := by
  cases hrun : program state with
  | ok value middle =>
      left
      refine ⟨value, ?_⟩
      rw [finish_of_ok hrun, finish, bind_ok hrun]
      rfl
  | error failure middle =>
      right
      rw [finish_of_error hrun, finish_of_error (bind_error hrun)]

/-- What holds before the program holds afterwards, also after a failure. -/
def Keeps (holds : σ → Prop) (program : EStateM ε σ α) : Prop :=
  ∀ state, holds state → holds (finish program state)

namespace Keeps

variable {holds : σ → Prop} {program : EStateM ε σ α}

theorem pure (value : α) : Keeps holds (pure value : EStateM ε σ α) :=
  fun _ h => h

theorem throw (failure : ε) : Keeps holds (throw failure : EStateM ε σ α) :=
  fun _ h => h

theorem get : Keeps holds (get : EStateM ε σ σ) :=
  fun _ h => h

theorem modify {change : σ → σ} (h : ∀ state, holds state → holds (change state)) :
    Keeps holds (modify change : EStateM ε σ PUnit) :=
  h

/-- After a first part the rest has to keep what holds. -/
theorem bind_at {next : α → EStateM ε σ β} {state : σ} (hfirst : holds (finish program state))
    (hnext : ∀ value, Keeps holds (next value)) : holds (finish (program >>= next) state) := by
  rcases finish_bind_cases program next state with ⟨value, hrest⟩ | hfailed
  · rw [hrest]
    exact hnext value _ hfirst
  · rw [hfailed]
    exact hfirst

theorem bind {next : α → EStateM ε σ β} (hfirst : Keeps holds program)
    (hnext : ∀ value, Keeps holds (next value)) : Keeps holds (program >>= next) :=
  fun state h => bind_at (hfirst state h) hnext

theorem adaptExcept (h : Keeps holds program) (wrap : ε → ε') :
    Keeps holds (program.adaptExcept wrap) := by
  intro state hstate
  rw [finish_adaptExcept]
  exact h state hstate

theorem forM {items : List β} {visit : β → EStateM ε σ PUnit}
    (h : ∀ item, Keeps holds (visit item)) : Keeps holds (items.forM visit) := by
  induction items with
  | nil => exact fun _ hstate => hstate
  | cons item rest ih => exact (h item).bind fun _ => ih

end Keeps

end Program

end FormDesigner
