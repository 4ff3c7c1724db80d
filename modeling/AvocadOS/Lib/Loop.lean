import Mathlib.Data.Nat.Find
import Mathlib.Logic.Function.Iterate

/-!
# `while` loops over a state

`run cond step fuel s` is `while (cond s) s = step(s);` for at most `fuel` iterations: `none` if
the loop has not ended by then. `visited` lists the states in which the body runs, `tested` the
states in which the condition is evaluated, so that a property of every access of a loop can be
stated also for a loop that does not end.

* `visited_spec`, `run_spec`: an invariant of the body holds at every iteration, and at the end;
* `run_iterate`, `iterate_of_run`: a loop that ends after `k` iterations is `step` iterated `k`
  times, and the other way round;
* `exists_run_iff`: a loop ends if and only if its condition fails in some state;
* `mem_tested`, `tested_of_ends`: the states in which such a loop evaluates its condition.
-/

namespace Loop

variable {σ : Type} (cond : σ → Bool) (step : σ → σ)

/-- At most `fuel` iterations of `while (cond s) s = step(s);`. -/
def run : Nat → σ → Option σ
  | 0, s => if cond s then none else some s
  | fuel + 1, s => if cond s then run fuel (step s) else some s

/-- The states in which the body runs, in the first `fuel` iterations. -/
def visited : Nat → σ → List σ
  | 0, _ => []
  | fuel + 1, s => if cond s then s :: visited fuel (step s) else []

/-- The states in which the condition is evaluated, in the first `fuel` iterations. -/
def tested : Nat → σ → List σ
  | 0, s => [s]
  | fuel + 1, s => s :: if cond s then tested fuel (step s) else []

variable {cond step}

theorem visited_spec {inv : σ → Prop} (hstep : ∀ s, inv s → cond s = true → inv (step s)) :
    ∀ {fuel : Nat} {s : σ}, inv s → ∀ t ∈ visited cond step fuel s, inv t ∧ cond t = true := by
  intro fuel
  induction fuel with
  | zero => intro s _ t ht; simp [visited] at ht
  | succ fuel ih =>
    intro s hs t ht
    simp only [visited] at ht
    split at ht
    · rename_i hc
      rcases List.mem_cons.mp ht with rfl | ht
      · exact ⟨hs, hc⟩
      · exact ih (hstep s hs hc) t ht
    · simp at ht

/-- An invariant of the body holds at the end. -/
theorem run_spec {inv : σ → Prop} (hstep : ∀ s, inv s → cond s = true → inv (step s)) :
    ∀ {fuel : Nat} {s t : σ}, inv s → run cond step fuel s = some t → inv t := by
  intro fuel
  induction fuel with
  | zero =>
    intro s t hs h
    simp only [run] at h
    split at h
    · cases h
    · cases h
      exact hs
  | succ fuel ih =>
    intro s t hs h
    simp only [run] at h
    split at h
    · rename_i hc
      exact ih (hstep s hs hc) h
    · cases h
      exact hs

/-- The loop runs `k` iterations: the condition holds in the first `k` states and not after. -/
def Ends (cond : σ → Bool) (step : σ → σ) (k : Nat) (s : σ) : Prop :=
  (∀ j < k, cond (step^[j] s) = true) ∧ cond (step^[k] s) = false

theorem Ends.tail {k : Nat} {s : σ} (h : Ends cond step (k + 1) s) : Ends cond step k (step s) :=
  ⟨fun j hj => h.1 (j + 1) (by omega), h.2⟩

theorem run_iterate : ∀ {k fuel : Nat} {s : σ}, Ends cond step k s → k ≤ fuel →
    run cond step fuel s = some (step^[k] s) := by
  intro k
  induction k with
  | zero =>
    intro fuel s h _
    have hc : cond s = false := h.2
    cases fuel <;> simp [run, hc]
  | succ k ih =>
    intro fuel s h hf
    have hc : cond s = true := h.1 0 (by omega)
    cases fuel with
    | zero => omega
    | succ fuel =>
      simp only [run, hc, if_true, Function.iterate_succ_apply]
      exact ih h.tail (by omega)

theorem iterate_of_run : ∀ {fuel : Nat} {s t : σ}, run cond step fuel s = some t →
    ∃ k ≤ fuel, Ends cond step k s ∧ t = step^[k] s := by
  intro fuel
  induction fuel with
  | zero =>
    intro s t h
    simp only [run] at h
    split at h
    · cases h
    · cases h; exact ⟨0, Nat.le_refl _, ⟨by omega, by simp_all⟩, rfl⟩
  | succ fuel ih =>
    intro s t h
    simp only [run] at h
    split at h
    · rename_i hc
      obtain ⟨k, hk, ⟨h₁, h₂⟩, rfl⟩ := ih h
      refine ⟨k + 1, by omega, ⟨fun j hj => ?_, h₂⟩, rfl⟩
      cases j with
      | zero => exact hc
      | succ j => exact h₁ j (by omega)
    · cases h; exact ⟨0, by omega, ⟨by omega, by simp_all⟩, rfl⟩

/-- More fuel does not change a result. -/
theorem run_mono {fuel fuel' : Nat} {s t : σ} (h : run cond step fuel s = some t)
    (hle : fuel ≤ fuel') : run cond step fuel' s = some t := by
  obtain ⟨k, hk, hends, rfl⟩ := iterate_of_run h
  exact run_iterate hends (by omega)

/-- A loop ends if its condition fails in some state. -/
theorem exists_run_iff {s : σ} :
    (∃ fuel t, run cond step fuel s = some t) ↔ ∃ j, cond (step^[j] s) = false := by
  constructor
  · rintro ⟨fuel, t, h⟩
    obtain ⟨k, -, hends, -⟩ := iterate_of_run h
    exact ⟨k, hends.2⟩
  · rintro h
    have hends : Ends cond step (Nat.find h) s :=
      ⟨fun j hj => Bool.not_eq_false _ ▸ Nat.find_min h hj, Nat.find_spec h⟩
    exact ⟨_, _, run_iterate hends (Nat.le_refl _)⟩

/-- The condition is evaluated in each of the first `k + 1` states of a loop that runs on. -/
theorem mem_tested : ∀ {k fuel : Nat} {s : σ}, (∀ j < k, cond (step^[j] s) = true) → k ≤ fuel →
    step^[k] s ∈ tested cond step fuel s := by
  intro k
  induction k with
  | zero => intro fuel s _ _; cases fuel <;> simp [tested]
  | succ k ih =>
    intro fuel s h hf
    have hc : cond s = true := h 0 (by omega)
    cases fuel with
    | zero => omega
    | succ fuel =>
      simp only [tested, hc, if_true, Function.iterate_succ_apply]
      exact List.mem_cons_of_mem _ (ih (fun j hj => h (j + 1) (by omega)) (by omega))

/-- A loop that ends evaluates its condition in no other states. -/
theorem tested_of_ends : ∀ {k fuel : Nat} {s t : σ}, Ends cond step k s →
    t ∈ tested cond step fuel s → ∃ j ≤ k, t = step^[j] s := by
  intro k fuel
  induction fuel generalizing k with
  | zero =>
    intro s t _ ht
    exact ⟨0, Nat.zero_le k, List.mem_singleton.mp ht⟩
  | succ fuel ih =>
    intro s t h ht
    rcases List.mem_cons.mp ht with rfl | ht
    · exact ⟨0, Nat.zero_le k, rfl⟩
    · cases k with
      | zero => simp [show cond s = false from h.2] at ht
      | succ k =>
        rw [if_pos (show cond s = true from h.1 0 (by omega))] at ht
        obtain ⟨j, hj, rfl⟩ := ih h.tail ht
        exact ⟨j + 1, by omega, rfl⟩

end Loop
