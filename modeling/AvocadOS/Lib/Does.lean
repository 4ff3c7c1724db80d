import Mathlib.Init

/-!
# Weakest preconditions for code with a state and faults

`Does E m s Q`: from the state `s`, the code `m` returns a value and a state that satisfy `Q`, or it
ends in one of the errors `E`, about which nothing is said.

* `Does.bind`, `Does.seq`, `Does.step`: sequencing;
* `Does.mono`: the consequence rule;
* `Does.of_eq`: code of which one knows what it does.
-/

variable {σ ε α β : Type}

def Does (E : ε → Prop) (m : StateT σ (Except ε) α) (s : σ) (Q : α → σ → Prop) : Prop :=
  (∃ e, m s = .error e ∧ E e) ∨ ∃ a t, m s = .ok (a, t) ∧ Q a t

namespace Does

variable {E : ε → Prop} {m : StateT σ (Except ε) α} {s t : σ} {Q R : α → σ → Prop}

theorem of_eq {a : α} (h : m s = .ok (a, t)) (hq : Q a t) : Does E m s Q := .inr ⟨a, t, h, hq⟩

theorem pure {a : α} (h : Q a s) : Does E (Pure.pure a : StateT σ (Except ε) α) s Q := of_eq rfl h

theorem bind {f : α → StateT σ (Except ε) β} {S : β → σ → Prop}
    (h : Does E m s fun a t => Does E (f a) t S) : Does E (m >>= f) s S := by
  rcases h with ⟨e, hm, he⟩ | ⟨a, t, hm, hf⟩
  · exact .inl ⟨e, by simp only [Bind.bind, StateT.bind, Except.bind, hm], he⟩
  · rcases hf with ⟨e, hf, he⟩ | ⟨b, u, hf, hs⟩
    · exact .inl ⟨e, by simp only [Bind.bind, StateT.bind, Except.bind, hm, hf], he⟩
    · exact .inr ⟨b, u, by simp only [Bind.bind, StateT.bind, Except.bind, hm, hf], hs⟩

theorem mono (h : Does E m s Q) (hq : ∀ a t, Q a t → R a t) : Does E m s R := by
  rcases h with h | ⟨a, t, hm, hs⟩
  · exact .inl h
  · exact .inr ⟨a, t, hm, hq a t hs⟩

/-- Code that does not end in the one error that is allowed. -/
theorem returns {e : ε} (h : Does (· = e) m s Q) (hm : m s ≠ .error e) :
    ∃ a t, m s = .ok (a, t) ∧ Q a t := by
  rcases h with ⟨_, hrun, rfl⟩ | h
  · exact absurd hrun hm
  · exact h

/-- A run that returned. -/
theorem post {a : α} (h : Does E m s Q) (hm : m s = .ok (a, t)) : Q a t := by
  rcases h with ⟨e, hrun, -⟩ | ⟨b, u, hrun, hq⟩
  · rw [hm] at hrun
    cases hrun
  · rw [hm] at hrun
    cases hrun
    exact hq

/-- The first part, and then the rest from wherever it ended. -/
theorem seq {f : α → StateT σ (Except ε) β} {S : β → σ → Prop} (h : Does E m s Q)
    (hf : ∀ a t, Q a t → Does E (f a) t S) : Does E (m >>= f) s S :=
  bind (h.mono hf)

/-- A first part of which one knows what it does. -/
theorem step {f : α → StateT σ (Except ε) β} {S : β → σ → Prop} {a : α} (h : m s = .ok (a, t))
    (hf : Does E (f a) t S) : Does E (m >>= f) s S :=
  bind (of_eq h hf)

end Does
