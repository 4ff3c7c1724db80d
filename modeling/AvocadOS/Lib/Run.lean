import Mathlib.Init

/-!
# Runs of labelled steps

`Runs step s ls t`: from `s`, steps with the labels `ls`, one after the other, end in `t`. Every
prefix of a run is a run, so a property of the last state of every run is a property of every
state reached.

* `Runs.invariant`: a property that every step keeps holds along the run;
* `Runs.snoc`, `Runs.append`: one more step, and one more run;
* `Runs.mono`: a run of stronger steps is a run of weaker ones;
* `Runs.simulates`: if each step is a run of a specification, so is the whole run.
-/

variable {σ α : Type}

inductive Runs (step : σ → α → σ → Prop) : σ → List α → σ → Prop
  | nil (s : σ) : Runs step s [] s
  | cons {s t u : σ} {a : α} {ls : List α} :
      step s a t → Runs step t ls u → Runs step s (a :: ls) u

namespace Runs

variable {step : σ → α → σ → Prop}

theorem invariant {inv : σ → Prop} (hstep : ∀ s a t, inv s → step s a t → inv t) {s t : σ}
    {ls : List α} (h : Runs step s ls t) (hs : inv s) : inv t := by
  induction h with
  | nil s => exact hs
  | cons ha _ ih => exact ih (hstep _ _ _ hs ha)

theorem snoc {s t u : σ} {ls : List α} {a : α} (h : Runs step s ls t) (ha : step t a u) :
    Runs step s (ls ++ [a]) u := by
  induction h with
  | nil s => exact .cons ha (.nil _)
  | cons hb _ ih => exact .cons hb (ih ha)

theorem append {s t u : σ} {ls ls' : List α} (h : Runs step s ls t) (h' : Runs step t ls' u) :
    Runs step s (ls ++ ls') u := by
  induction h with
  | nil s => exact h'
  | cons ha _ ih => exact .cons ha (ih h')

theorem mono {step' : σ → α → σ → Prop} (hle : ∀ s a t, step s a t → step' s a t) {s t : σ}
    {ls : List α} (h : Runs step s ls t) : Runs step' s ls t := by
  induction h with
  | nil s => exact .nil s
  | cons ha _ ih => exact .cons (hle _ _ _ ha) ih

/-- `seen a` are the steps of the specification for a step `a`: there may be none. -/
theorem simulates {τ β : Type} {spec : τ → β → τ → Prop} (rel : σ → τ → Prop) (seen : α → List β)
    (hstep : ∀ s a t x, rel s x → step s a t → ∃ y, Runs spec x (seen a) y ∧ rel t y) {s t : σ} {x : τ}
    {ls : List α} (h : Runs step s ls t) (hx : rel s x) :
    ∃ y, Runs spec x (ls.flatMap seen) y ∧ rel t y := by
  induction h generalizing x with
  | nil s => exact ⟨x, .nil x, hx⟩
  | cons ha _ ih =>
    obtain ⟨y, hfirst, hy⟩ := hstep _ _ _ _ hx ha
    obtain ⟨z, hrest, hz⟩ := ih hy
    exact ⟨z, hfirst.append hrest, hz⟩

end Runs
