import Mathlib.Init

/-!
# Code with fuel

`Below hang m m'`: `m'` does what `m` does, wherever `m` does not run out of fuel. A function with
fuel is `Below` itself with more fuel; `Below.bind` and `Below.ite` give this for code from its
parts.
-/

variable {σ ε α β : Type}

def Below (hang : ε) (m m' : StateT σ (Except ε) α) : Prop :=
  ∀ s, m s ≠ .error hang → m' s = m s

namespace Below

variable {hang : ε} {m m' m'' : StateT σ (Except ε) α}

theorem refl (m : StateT σ (Except ε) α) : Below hang m m := fun _ _ => rfl

theorem trans (h : Below hang m m') (h' : Below hang m' m'') : Below hang m m'' := by
  intro s hs
  have hm := h s hs
  rw [h' s (hm ▸ hs), hm]

theorem throw : Below hang (MonadExcept.throw hang) m := fun _ hs => absurd rfl hs

theorem ite {c : Prop} [Decidable c] {n n' : StateT σ (Except ε) α} (h : Below hang m m')
    (h' : Below hang n n') : Below hang (if c then m else n) (if c then m' else n') := by
  split
  · exact h
  · exact h'

theorem bind {f f' : α → StateT σ (Except ε) β} (h : Below hang m m')
    (hf : ∀ a s t, m s = .ok (a, t) → Below hang (f a) (f' a)) :
    Below hang (m >>= f) (m' >>= f') := by
  intro s hs
  simp only [Bind.bind, StateT.bind, Except.bind] at hs ⊢
  cases hm : m s with
  | error e =>
    rw [hm] at hs
    have hne : m s ≠ .error hang := by
      rw [hm]
      exact fun heq => hs (by cases heq; rfl)
    rw [h s hne, hm]
  | ok r =>
    rw [hm] at hs
    have hne : m s ≠ .error hang := by
      rw [hm]
      exact fun heq => by cases heq
    rw [h s hne, hm]
    exact hf r.1 s r.2 hm r.2 hs

/-- More fuel changes nothing. -/
theorem le {m : Nat → StateT σ (Except ε) α} (h : ∀ n, Below hang (m n) (m (n + 1))) {n k : Nat}
    (hle : n ≤ k) : Below hang (m n) (m k) := by
  induction hle with
  | refl => exact .refl _
  | step _ ih => exact ih.trans (h _)

/-- What returned returns the same with more fuel. -/
theorem ok (h : Below hang m m') {s t : σ} {a : α} (hm : m s = .ok (a, t)) : m' s = .ok (a, t) := by
  rw [h s (by rw [hm]; exact fun heq => by cases heq), hm]

end Below
