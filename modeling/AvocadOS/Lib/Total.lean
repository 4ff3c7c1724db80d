import Mathlib.Init

/-!
# Total triples for code with a state and faults

`Returns P m Q`: from every state with `P`, the code `m` returns (it does not fault), with a value
and a state that satisfy `Q`.

* `Returns.bind`: sequencing, with the middle assertion;
* `Returns.mono`: the consequence rule.
-/

variable {σ ε α β : Type}

def Returns (P : σ → Prop) (m : StateT σ (Except ε) α) (Q : α → σ → Prop) : Prop :=
  ∀ s, P s → ∃ a t, m s = .ok (a, t) ∧ Q a t

namespace Returns

variable {P : σ → Prop} {m : StateT σ (Except ε) α} {Q R : α → σ → Prop}

theorem pure {a : α} (h : ∀ s, P s → Q a s) :
    Returns P (Pure.pure a : StateT σ (Except ε) α) Q :=
  fun s hs => ⟨a, s, rfl, h s hs⟩

theorem bind {f : α → StateT σ (Except ε) β} {S : β → σ → Prop} (hm : Returns P m Q)
    (hf : ∀ a, Returns (Q a) (f a) S) : Returns P (m >>= f) S := by
  intro s hs
  obtain ⟨a, t, hrun, hq⟩ := hm s hs
  obtain ⟨b, u, hrun', hr⟩ := hf a t hq
  refine ⟨b, u, ?_, hr⟩
  simp only [Bind.bind, StateT.bind, Except.bind, hrun, hrun']

theorem mono (hm : Returns P m Q) (h : ∀ a s, Q a s → R a s) : Returns P m R := by
  intro s hs
  obtain ⟨a, t, hrun, hq⟩ := hm s hs
  exact ⟨a, t, hrun, h a t hq⟩

end Returns
