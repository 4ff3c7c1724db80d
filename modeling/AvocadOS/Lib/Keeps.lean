import Mathlib.Init

/-!
# Frame conditions for code with a state and faults

`Keeps R m`: whenever the code `m` returns, `R` relates the state before to the state after. For a
relation that is reflexive and transitive this follows from the parts of the code.
-/

variable {σ ε α β : Type}

def Keeps (R : σ → σ → Prop) (m : StateT σ (Except ε) α) : Prop :=
  ∀ ⦃s a t⦄, m s = .ok (a, t) → R s t

namespace Keeps

variable {R S : σ → σ → Prop} {m m' : StateT σ (Except ε) α}

theorem mono (h : Keeps R m) (hle : ∀ s t, R s t → S s t) : Keeps S m :=
  fun s _ t hm => hle s t (h hm)

theorem ite {c : Prop} [Decidable c] (h : Keeps R m) (h' : Keeps R m') :
    Keeps R (if c then m else m') := by
  split
  · exact h
  · exact h'

theorem bind {f : α → StateT σ (Except ε) β} [Trans R R R] (hm : Keeps R m)
    (hf : ∀ a, Keeps R (f a)) : Keeps R (m >>= f) := by
  intro s b u h
  simp only [Bind.bind, StateT.bind, Except.bind] at h
  cases hrun : m s with
  | error e => simp [hrun] at h
  | ok r =>
    rw [hrun] at h
    exact Trans.trans (hm hrun) (hf r.1 h)

variable [Std.Refl R]

theorem pure (a : α) : Keeps R (Pure.pure a : StateT σ (Except ε) α) := by
  intro s b t h
  cases h
  exact Std.Refl.refl s

theorem get : Keeps R (MonadState.get : StateT σ (Except ε) σ) := by
  intro s b t h
  cases h
  exact Std.Refl.refl s

end Keeps
