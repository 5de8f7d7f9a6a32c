/-!
# Records and the steps asked of them

A record is asked for one step after the other. A step gives the next record or refuses, and a
record whose step was refused is the same record afterwards. What every accepted step keeps holds
after any number of steps.

* `Lifecycle.after`, `Lifecycle.accepted` — the record after some steps, and which of them it took
* `Lifecycle.invariant`, `Lifecycle.invariant_of_leads` — one invariant for all lives
* `Lifecycle.answered_of_leads` — one step more
* `Lifecycle.after_of_refused` — a record that takes no step is at its end
-/

namespace Bulletin.Lifecycle

variable {ρ σ ε : Type} (step : σ → ρ → Except ε ρ)

/-- The record after a step was asked of it. -/
def next (record : ρ) (s : σ) : ρ :=
  match step s record with
  | .ok record' => record'
  | .error _ => record

/-- The record after some steps were asked of it, one after the other. -/
def after (record : ρ) (steps : List σ) : ρ := steps.foldl (next step) record

/-- The steps that were accepted, of those that were asked. -/
def accepted (record : ρ) : List σ → List σ
  | [] => []
  | s :: rest =>
    match step s record with
    | .ok record' => s :: accepted record' rest
    | .error _ => accepted record rest

variable {step} {record record' : ρ} {s : σ}

theorem next_of_ok (h : step s record = .ok record') : next step record s = record' := by
  simp only [next, h]

theorem next_of_error {e : ε} (h : step s record = .error e) : next step record s = record := by
  simp only [next, h]

/-- What holds at first and is kept by every accepted step holds after all steps. It may speak of
the steps that were accepted. -/
theorem invariant {P : ρ → List σ → Prop}
    (hstep : ∀ record done s record', P record done → step s record = .ok record' →
      P record' (done ++ [s]))
    (h : P record []) (steps : List σ) :
    P (after step record steps) (accepted step record steps) := by
  have hfrom : ∀ done, P record done →
      P (after step record steps) (done ++ accepted step record steps) := by
    clear h
    induction steps generalizing record with
    | nil =>
      intro done h
      rw [accepted, List.append_nil]
      exact h
    | cons s rest ih =>
      intro done h
      rw [after, List.foldl_cons, accepted]
      cases hs : step s record with
      | error e =>
        rw [next_of_error hs]
        exact ih done h
      | ok record' =>
        have hnext := ih (done ++ [s]) (hstep record done s record' h hs)
        rw [next_of_ok hs]
        rwa [List.append_assoc, List.singleton_append] at hnext
  exact hfrom [] h

section

variable {leads : σ → ρ → Prop} [∀ s record, Decidable (leads s record)] {accept : σ → ρ → ρ}
  {refuse : σ → ρ → ε}

/-- Where a condition decides about every step, it may be used for the invariant. -/
theorem invariant_of_leads {P : ρ → List σ → Prop}
    (hstep : ∀ s record, step s record =
      if leads s record then .ok (accept s record) else .error (refuse s record))
    (hkept : ∀ record done s, P record done → leads s record →
      P (accept s record) (done ++ [s]))
    (h : P record []) (steps : List σ) :
    P (after step record steps) (accepted step record steps) := by
  refine invariant (fun record done s record' hP hok => ?_) h steps
  rw [hstep] at hok
  split at hok
  · next hleads =>
    cases hok
    exact hkept record done s hP hleads
  · cases hok

/-- One more step, where a condition decides about it. -/
theorem answered_of_leads
    (hstep : ∀ s record, step s record =
      if leads s record then .ok (accept s record) else .error (refuse s record))
    (record : ρ) (s : σ) :
    if leads s record
    then step s record = .ok (accept s record) ∧ after step record [s] = accept s record
    else step s record = .error (refuse s record) ∧ after step record [s] = record := by
  have hs := hstep s record
  split at hs
  · next hleads =>
    rw [if_pos hleads]
    exact ⟨hs, next_of_ok hs⟩
  · next hleads =>
    rw [if_neg hleads]
    exact ⟨hs, next_of_error hs⟩

end

/-- A record that takes no step any more stays as it is. -/
theorem after_of_refused (h : ∀ s, ∃ e, step s record = .error e) (steps : List σ) :
    after step record steps = record := by
  induction steps with
  | nil => rfl
  | cons s rest ih =>
    obtain ⟨e, hs⟩ := h s
    rw [after, List.foldl_cons, next_of_error hs]
    exact ih

end Bulletin.Lifecycle
