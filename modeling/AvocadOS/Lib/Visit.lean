import Mathlib.Data.List.Basic

/-!
# Visiting positions in order

`Visit.run last visit done` goes through the positions from `k` on. `visit k b` decides the result
there, or goes on with another `b`; behind the `last` position the result is `done b`.

* `run_congr`: two runs that agree on the positions they come to have the same result;
* `run_le`: more fuel changes nothing.
-/

namespace Visit

variable {β γ : Type}

def run (last : Nat → Bool) (visit : Nat → β → γ ⊕ β) (done : β → γ) : Nat → Nat → β → Option γ
  | 0, _, _ => none
  | fuel + 1, k, b =>
    match visit k b with
    | .inl r => some r
    | .inr b => if last k then some (done b) else run last visit done fuel (k + 1) b

variable {last last' : Nat → Bool} {visit visit' : Nat → β → γ ⊕ β} {done : β → γ}

theorem run_inl {fuel k : Nat} {b : β} {r : γ} (h : visit k b = .inl r) :
    run last visit done (fuel + 1) k b = some r := by
  rw [run, h]

theorem run_inr {fuel k : Nat} {b b' : β} (h : visit k b = .inr b') :
    run last visit done (fuel + 1) k b =
      if last k then some (done b') else run last visit done fuel (k + 1) b' := by
  rw [run, h]

/-- `I` holds at the positions that a run comes to. -/
theorem run_congr {I : Nat → Prop} (hvisit : ∀ k, I k → visit k = visit' k)
    (hlast : ∀ k b b', I k → visit k b = .inr b' → last k = last' k)
    (hnext : ∀ k b b', I k → visit k b = .inr b' → last k = false → I (k + 1)) {fuel k : Nat}
    {b : β} (h : I k) : run last visit done fuel k b = run last' visit' done fuel k b := by
  induction fuel generalizing k b with
  | zero => rfl
  | succ fuel ih =>
    have hsame := congrFun (hvisit k h) b
    cases hv : visit k b with
    | inl r => rw [run_inl hv, run_inl (hsame ▸ hv)]
    | inr b' =>
      rw [run_inr hv, run_inr (hsame ▸ hv), ← hlast k b b' h hv]
      cases hl : last k with
      | true => rfl
      | false => exact ih (hnext k b b' h hv hl)

theorem run_le {fuel fuel' k : Nat} {b : β} {r : γ} (h : run last visit done fuel k b = some r)
    (hle : fuel ≤ fuel') : run last visit done fuel' k b = some r := by
  induction fuel generalizing fuel' k b with
  | zero => cases h
  | succ fuel ih =>
    obtain ⟨m, rfl⟩ := Nat.exists_eq_add_one_of_ne_zero (show fuel' ≠ 0 by omega)
    cases hv : visit k b with
    | inl r' => rw [run_inl hv] at h ⊢; exact h
    | inr b' =>
      rw [run_inr hv] at h ⊢
      cases hl : last k with
      | true => rwa [hl] at h
      | false =>
        rw [hl] at h
        exact ih h (by omega)

end Visit
