import Mathlib.Tactic.ByContra

/-!
# The first window of a sequence

`f : Nat → Bool` marks the positions of a sequence that are free. `Window f n k`: the `n`
positions from `k` on are free; `FirstWindow f n k`: no window of that length starts earlier.

A search for it that reads the positions one by one needs one counter, the length `streak f j` of
the free run that ends just before position `j`. `firstWindow_iff_streak` says that this counter
reaches `n` for the first time exactly at the end of the first window.
-/

namespace Scan

variable {f : Nat → Bool} {n : Nat}

/-! ## Cyclic positions -/

/-- Only the last position of a cycle is followed by position 0. -/
theorem mod_eq_pred_of_succ_mod {a len : Nat} (hlen : 0 < len) (h : (a + 1) % len = 0) :
    a % len = len - 1 := by
  have hlt := Nat.mod_lt a hlen
  rw [← Nat.mod_add_mod] at h
  by_contra hne
  rw [Nat.mod_eq_of_lt (by omega)] at h
  omega

/-- The successor of a position is another position, in a cycle of at least two. -/
theorem succ_mod_ne {a len : Nat} (hlen : 2 ≤ len) : (a + 1) % len ≠ a % len := by
  have hlt := Nat.mod_lt a (show 0 < len by omega)
  rw [← Nat.mod_add_mod]
  by_cases h : a % len + 1 = len
  · rw [h, Nat.mod_self]; omega
  · rw [Nat.mod_eq_of_lt (by omega)]; omega

/-! ## Windows -/

/-- The length of the run of free positions that ends just before position `j`. -/
def streak (f : Nat → Bool) : Nat → Nat
  | 0 => 0
  | j + 1 => if f j then streak f j + 1 else 0

/-- The positions `k`, …, `k + n - 1` are free. -/
def Window (f : Nat → Bool) (n k : Nat) : Prop := ∀ i < n, f (k + i) = true

instance (f : Nat → Bool) (n k : Nat) : Decidable (Window f n k) :=
  inferInstanceAs (Decidable (∀ i < n, _))

/-- The window of length `n` at `k` is the first one. -/
def FirstWindow (f : Nat → Bool) (n k : Nat) : Prop :=
  Window f n k ∧ ∀ k' < k, ¬ Window f n k'

@[simp] theorem streak_zero : streak f 0 = 0 := rfl

theorem streak_succ_free {j : Nat} (h : f j = true) : streak f (j + 1) = streak f j + 1 := by
  simp [streak, h]

theorem streak_succ_taken {j : Nat} (h : f j = false) : streak f (j + 1) = 0 := by
  simp [streak, h]

theorem streak_le (j : Nat) : streak f j ≤ j := by
  induction j with
  | zero => simp
  | succ j ih =>
    simp only [streak]
    split <;> omega

theorem streak_free {j i : Nat} (h₁ : j - streak f j ≤ i) (h₂ : i < j) : f i = true := by
  induction j with
  | zero => omega
  | succ j ih =>
    have hle := streak_le (f := f) j
    cases hj : f j with
    | false => rw [streak_succ_taken hj] at h₁; omega
    | true =>
      rw [streak_succ_free hj] at h₁
      by_cases hij : i = j
      · exact hij ▸ hj
      · exact ih (by omega) (by omega)

/-- A free run of length `m` that ends at `j` is no longer than the streak there. -/
theorem le_streak {j m : Nat} (hm : m ≤ j) (h : ∀ i, j - m ≤ i → i < j → f i = true) :
    m ≤ streak f j := by
  induction j generalizing m with
  | zero => omega
  | succ j ih =>
    cases m with
    | zero => omega
    | succ m =>
      rw [streak_succ_free (h j (by omega) (by omega))]
      have := ih (m := m) (by omega) fun i hi hij => h i (by omega) (by omega)
      omega

/-- A counter that has reached `n` was filled by a window. -/
theorem window_of_streak {j : Nat} (h : n ≤ streak f j) : Window f n (j - n) := by
  have hle := streak_le (f := f) j
  intro i hi
  exact streak_free (j := j) (by omega) (by omega)

theorem streak_of_window {k : Nat} (h : Window f n k) : n ≤ streak f (k + n) := by
  refine le_streak (by omega) fun i h₁ h₂ => ?_
  have := h (i - k) (by omega)
  rwa [show k + (i - k) = i by omega] at this

/-- The counter of a search reaches `n` for the first time at the end of the first window. -/
theorem firstWindow_iff_streak {k : Nat} (hn : 0 < n) :
    FirstWindow f n k ↔ streak f (k + n) = n ∧ ∀ i < k + n, streak f i < n := by
  constructor
  · rintro ⟨hw, hfirst⟩
    have hlt : ∀ i < k + n, streak f i < n := by
      intro i
      induction i with
      | zero => intro _; simpa using hn
      | succ i ih =>
        intro hi
        have hi' := ih (by omega)
        cases hfi : f i with
        | false => rw [streak_succ_taken hfi]; omega
        | true =>
          rw [streak_succ_free hfi]
          -- a counter that reached `n` here would close an earlier window
          refine Nat.lt_of_le_of_ne hi' fun he => ?_
          have hs : streak f (i + 1) = n := by rw [streak_succ_free hfi]; exact he
          have hle := streak_le (f := f) (i + 1)
          exact hfirst (i + 1 - n) (by omega) (window_of_streak (Nat.le_of_eq hs.symm))
    refine ⟨?_, hlt⟩
    have h₁ := streak_of_window hw
    obtain ⟨m, rfl⟩ : ∃ m, n = m + 1 := ⟨n - 1, by omega⟩
    have h₂ := hlt (k + m) (by omega)
    have hfree : f (k + m) = true := hw m (by omega)
    rw [show k + (m + 1) = k + m + 1 by omega, streak_succ_free hfree] at h₁ ⊢
    omega
  · rintro ⟨hs, hlt⟩
    refine ⟨by simpa using window_of_streak (Nat.le_of_eq hs.symm), fun k' hk' hw => ?_⟩
    have := streak_of_window hw
    have := hlt (k' + n) (by omega)
    omega

theorem FirstWindow.unique {k k' : Nat} (h : FirstWindow f n k) (h' : FirstWindow f n k') :
    k = k' := by
  rcases Nat.lt_trichotomy k k' with hlt | heq | hlt
  · exact absurd h.1 (h'.2 k hlt)
  · exact heq
  · exact absurd h'.1 (h.2 k' hlt)

end Scan
