import Mathlib.Init

/-!
# Code that never ends in a given error

`Avoids P e m`: from a state with `P`, the code `m` does not end in the error `e`, and where it
returns, `P` still holds. Other errors are not excluded.
-/

variable {σ ε α β : Type}

def Avoids (P : σ → Prop) (e : ε) (m : StateT σ (Except ε) α) : Prop :=
  ∀ s, P s → m s ≠ .error e ∧ ∀ a t, m s = .ok (a, t) → P t

namespace Avoids

variable {P : σ → Prop} {e e' : ε} {m m' : StateT σ (Except ε) α}

/-- Code that ends in another error, or returns with `P`. -/
theorem of_cases (h : ∀ s, P s → (∃ e', m s = .error e' ∧ e' ≠ e) ∨ ∃ a t, m s = .ok (a, t) ∧ P t) :
    Avoids P e m := by
  intro s hs
  rcases h s hs with ⟨e', hm, hne⟩ | ⟨a, t, hm, ht⟩
  · rw [hm]
    exact ⟨fun heq => hne (Except.error.inj heq), fun _ _ heq => by cases heq⟩
  · rw [hm]
    refine ⟨fun heq => (by cases heq), fun b u heq => ?_⟩
    cases heq
    exact ht

theorem error (h : ∀ s, m s = .error e') (hne : e' ≠ e) : Avoids P e m :=
  of_cases fun s _ => .inl ⟨e', h s, hne⟩

theorem ok (h : ∀ s, P s → ∃ a t, m s = .ok (a, t) ∧ P t) : Avoids P e m :=
  of_cases fun s hs => .inr (h s hs)

theorem pure (a : α) : Avoids P e (Pure.pure a : StateT σ (Except ε) α) :=
  ok fun s hs => ⟨a, s, rfl, hs⟩

theorem get : Avoids P e (MonadState.get : StateT σ (Except ε) σ) :=
  ok fun s hs => ⟨s, s, rfl, hs⟩

theorem ite {c : Prop} [Decidable c] (h : Avoids P e m) (h' : Avoids P e m') :
    Avoids P e (if c then m else m') := by
  split
  · exact h
  · exact h'

theorem bind {f : α → StateT σ (Except ε) β} (hm : Avoids P e m) (hf : ∀ a, Avoids P e (f a)) :
    Avoids P e (m >>= f) := by
  intro s hs
  obtain ⟨hne, hok⟩ := hm s hs
  simp only [Bind.bind, StateT.bind, Except.bind]
  cases hrun : m s with
  | error e' =>
    rw [hrun] at hne
    exact ⟨fun h => hne (by cases h; rfl), fun _ _ h => by cases h⟩
  | ok r => exact hf r.1 r.2 (hok r.1 r.2 hrun)

end Avoids
