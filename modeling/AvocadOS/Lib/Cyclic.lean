import Mathlib.Data.List.Induction
import Mathlib.Data.Nat.ModEq
import Mathlib.Tactic.ByContra

/-!
# Writing a sequence cyclically

The elements of a sequence go, one after the other, to the places `0`, …, `n - 1`, `0`, …. `lastAt n i`
is what place `i` holds then: the last element whose index is `i` modulo `n`.

* `lastAt_concat`: one more element replaces what its place holds;
* `lastAt_mod`: the last `n` elements are all there.
-/

namespace Cyclic

variable {α : Type}

/-- The last element of `xs` whose index is `i` modulo `n`. -/
def lastAt (n i : Nat) (xs : List α) : Option α :=
  ((xs.zipIdx.filter fun x => x.2 % n = i).getLast?).map (·.1)

variable {n i : Nat} {xs : List α} {x : α}

@[simp] theorem lastAt_nil : lastAt n i ([] : List α) = none := rfl

theorem lastAt_concat :
    lastAt n i (xs ++ [x]) = if xs.length % n = i then some x else lastAt n i xs := by
  unfold lastAt
  rw [List.zipIdx_append, List.filter_append, Nat.zero_add, List.zipIdx_singleton]
  by_cases h : xs.length % n = i
  · simp [h]
  · simp [h]

/-- An element is at its place until `n` more have been written. -/
theorem lastAt_mod {j : Nat} (hx : xs[j]? = some x) (hrecent : xs.length ≤ j + n) :
    lastAt n (j % n) xs = some x := by
  induction xs using List.reverseRecOn with
  | nil => simp at hx
  | append_singleton xs y ih =>
    have hj : j < (xs ++ [y]).length := (List.getElem?_eq_some_iff.mp hx).1
    rw [List.length_append, List.length_singleton] at hj hrecent
    rw [lastAt_concat]
    by_cases hlast : j = xs.length
    · subst hlast
      rw [if_pos rfl]
      simpa using hx
    · rw [List.getElem?_append_left (by omega)] at hx
      have hne : xs.length % n ≠ j % n := by
        intro h
        obtain ⟨k, hk⟩ := (Nat.modEq_iff_dvd' (by omega)).mp (show j ≡ xs.length [MOD n] from h.symm)
        have hlt : xs.length - j < n := by omega
        rw [hk] at hlt
        have hzero : k = 0 := by
          by_contra hpos
          have := Nat.le_mul_of_pos_right n (Nat.pos_of_ne_zero hpos)
          omega
        subst hzero
        omega
      rw [if_neg hne]
      exact ih hx (by omega)

end Cyclic
