import AvocadOS.Fat16.Model

/-!
# Two scans of a directory

`dirScan` is what a lookup is for: the slots in order up to the first one that has a zero name byte
or matches. `rootScan` is what the driver makes of it in the root directory: it stops where a
position in bytes passes `data_sector`, a number of sectors, and a zero name byte ends it only in
a slot that is not skipped.

* `dirScan_end`, `rootScan_end`: why a scan ended after a slot;
* `rootScan_eq`, `endsRight_of_rootScan`: the two end after the same slot exactly if `EndsRight`.
-/

namespace AvocadOS

section Scan

variable (slot : Nat → FatEntry) (hit : FatEntry → Bool)

/-- A zero first name byte. -/
def FatEntry.isEnd (e : FatEntry) : Bool := charAt e.filename 0 == 0

/-- How many slots a lookup has to examine from slot `j` on, with `n` left, and the matching
slot. -/
def dirScan : Nat → Nat → Nat × Option Nat
  | 0, j => (j, none)
  | n + 1, j =>
    if (slot j).isEnd then (j + 1, none)
    else if hit (slot j) then (j + 1, some j)
    else dirScan n (j + 1)

/-- How many slots the driver reads, and the matching slot; it sets `eof` behind `n` slots. -/
def rootScan (dataSector : Nat) : Nat → Nat → Nat × Option Nat
  | 0, j => (j, none)
  | n + 1, j =>
    if dataSector < FAT_ENTRY_SIZE * (j + 1) then (j + 1, none)
    else if (slot j).isLfnOrLabel then rootScan dataSector n (j + 1)
    else if (slot j).isEnd then (j + 1, none)
    else if hit (slot j) then (j + 1, some j)
    else rootScan dataSector n (j + 1)

variable {slot hit}

/-- A scan of `n` slots from `j` on that ended after slot `q - 1`. -/
structure ScanEnd (slot : Nat → FatEntry) (hit : FatEntry → Bool) (n j : Nat)
    (r : Nat × Option Nat) : Prop where
  lt : j < r.1
  le : r.1 ≤ j + n
  before : ∀ i, j ≤ i → i + 1 < r.1 → (slot i).isEnd = false ∧ hit (slot i) = false
  found : ∀ i, r.2 = some i → i + 1 = r.1 ∧ hit (slot i) = true ∧ (slot i).isEnd = false
  missing : r.2 = none → (slot (r.1 - 1)).isEnd = true ∨
    (r.1 = j + n ∧ (slot (r.1 - 1)).isEnd = false ∧ hit (slot (r.1 - 1)) = false)

theorem dirScan_end : ∀ {n j : Nat}, 0 < n → ScanEnd slot hit n j (dirScan slot hit n j) := by
  intro n
  induction n with
  | zero => intro j h; omega
  | succ n ih =>
    intro j _
    rw [dirScan]
    by_cases hend : (slot j).isEnd = true
    · rw [if_pos hend]
      exact ⟨by simp, by simp, fun i h₁ h₂ => by simp only at h₂; omega, by simp,
        fun _ => .inl hend⟩
    rw [if_neg hend]
    have hend : (slot j).isEnd = false := by simpa using hend
    by_cases hhit : hit (slot j) = true
    · rw [if_pos hhit]
      refine ⟨by simp, by simp, fun i h₁ h₂ => by simp only at h₂; omega, ?_, by simp⟩
      rintro i h
      obtain rfl := Option.some.inj h
      exact ⟨rfl, hhit, hend⟩
    rw [if_neg hhit]
    have hhit : hit (slot j) = false := by simpa using hhit
    rcases Nat.eq_zero_or_pos n with rfl | hn
    · exact ⟨by simp [dirScan], by simp [dirScan], fun i h₁ h₂ => by simp only [dirScan] at h₂; omega,
        by simp [dirScan], fun _ => .inr ⟨rfl, hend, hhit⟩⟩
    · obtain ⟨hlt, hle, hbefore, hfound, hmissing⟩ := ih (j := j + 1) hn
      refine ⟨by omega, by omega, fun i h₁ h₂ => ?_, hfound, fun h => ?_⟩
      · rcases Nat.eq_or_lt_of_le h₁ with rfl | h₁
        · exact ⟨hend, hhit⟩
        · exact hbefore i h₁ h₂
      · exact (hmissing h).imp id fun ⟨h, h'⟩ => ⟨by omega, h'⟩

variable {D : Nat}

/-- Why the driver stopped after slot `q - 1`. -/
structure RootEnd (slot : Nat → FatEntry) (hit : FatEntry → Bool) (D n j : Nat)
    (r : Nat × Option Nat) : Prop where
  lt : j < r.1
  le : r.1 ≤ j + n
  found : ∀ i, r.2 = some i → i + 1 = r.1 ∧ hit (slot i) = true ∧ (slot i).isEnd = false ∧
    FAT_ENTRY_SIZE * r.1 ≤ D
  missing : r.2 = none → r.1 = j + n ∨ D < FAT_ENTRY_SIZE * r.1 ∨
    ((slot (r.1 - 1)).isEnd = true ∧ (slot (r.1 - 1)).isLfnOrLabel = false)

theorem rootScan_end : ∀ {n j : Nat}, 0 < n → RootEnd slot hit D n j (rootScan slot hit D n j) := by
  intro n
  induction n with
  | zero => intro j h; omega
  | succ n ih =>
    intro j _
    -- the scan goes on
    have hnext : RootEnd slot hit D (n + 1) j (rootScan slot hit D n (j + 1)) := by
      rcases Nat.eq_zero_or_pos n with rfl | hn
      · exact ⟨by simp [rootScan], by simp [rootScan], by simp [rootScan], fun _ => .inl rfl⟩
      · obtain ⟨hlt, hle, hfound, hmissing⟩ := ih (j := j + 1) hn
        exact ⟨by omega, by omega, hfound, fun h => (hmissing h).imp (fun h => by omega) id⟩
    rw [rootScan]
    split
    · rename_i h
      exact ⟨by simp, by simp, by simp, fun _ => .inr (.inl h)⟩
    split
    · exact hnext
    split
    · rename_i h₁ h₂ h₃
      exact ⟨by simp, by simp, by simp, fun _ => .inr (.inr ⟨h₃, by simpa using h₂⟩)⟩
    split
    · rename_i h₁ h₂ h₃ h₄
      refine ⟨by simp, by simp, ?_, by simp⟩
      rintro i h
      obtain rfl := Option.some.inj h
      exact ⟨rfl, h₄, by simpa using h₃, by simpa using h₁⟩
    · exact hnext

/-- The slots behind which the driver sets `eof`; it always reads one. -/
def eofSlots (D : Nat) : Nat := max 1 ((D + FAT_ENTRY_SIZE - 1) / FAT_ENTRY_SIZE)

/-- The driver stops after slot `q - 1`, where the scan has to stop: a match is not behind
`data_sector`, and without a match the slot is not skipped and has a zero name byte, or
`data_sector` lies behind it. -/
def EndsRight (slot : Nat → FatEntry) (D : Nat) (r : Nat × Option Nat) : Prop :=
  FAT_ENTRY_SIZE * (r.1 - 1) < D ∧
    match r.2 with
    | some _ => FAT_ENTRY_SIZE * r.1 ≤ D
    | none => ((slot (r.1 - 1)).isEnd = true ∧ (slot (r.1 - 1)).isLfnOrLabel = false) ∨
      D ≤ FAT_ENTRY_SIZE * r.1

/-- Then the driver's scan is the right one. -/
theorem rootScan_eq (hhit : ∀ e, hit e = true → e.isLfnOrLabel = false) {N : Nat}
    {r : Nat × Option Nat} (h : ScanEnd slot hit N 0 r) (hr : EndsRight slot D r) :
    ∀ {n j : Nat}, n + j = eofSlots D → j < r.1 → rootScan slot hit D n j = r := by
  obtain ⟨q, found⟩ := r
  obtain ⟨hlast, hr⟩ := hr
  simp only at hlast hr
  have hq : q ≤ eofSlots D := by unfold eofSlots FAT_ENTRY_SIZE at *; omega
  intro n
  induction n with
  | zero => intro j hn hj; simp only at hj; omega
  | succ n ih =>
    intro j hn hj
    simp only at hj
    rw [rootScan]
    rcases Nat.lt_or_ge (j + 1) q with hlt | hge
    · -- not yet at the last slot
      obtain ⟨hend, hno⟩ := h.before j (Nat.zero_le j) hlt
      have hnext := ih (j := j + 1) (by omega) hlt
      rw [if_neg (by unfold FAT_ENTRY_SIZE at *; omega)]
      simp only [hend, hno, hnext, Bool.false_eq_true, if_false, ite_self]
    · obtain rfl : q = j + 1 := by omega
      cases found with
      | some i =>
        obtain ⟨hi, hmatch, hend⟩ := h.found i rfl
        obtain rfl : i = j := by simpa using hi
        rw [if_neg (by omega)]
        simp [hhit _ hmatch, hend, hmatch]
      | none =>
        simp only [Nat.add_sub_cancel] at hr hlast
        have hmiss := h.missing rfl
        simp only [Nat.add_sub_cancel] at hmiss
        by_cases hio : D < FAT_ENTRY_SIZE * (j + 1)
        · rw [if_pos hio]
        rw [if_neg hio]
        rcases hr with ⟨hend, hlfn⟩ | hle
        · simp [hend, hlfn]
        · -- `eof` was set by this slot
          obtain rfl : n = 0 := by unfold eofSlots FAT_ENTRY_SIZE at *; omega
          rcases hmiss with hend | ⟨-, hend, hno⟩
          · simp [hend, rootScan]
          · simp [hend, hno, rootScan]

/-- And the other way round, if the scans end after the same slot and the driver finds a match
that is there. -/
theorem endsRight_of_rootScan {N : Nat} {r r' : Nat × Option Nat} (hD : 0 < D)
    (h : ScanEnd slot hit N 0 r) (h' : RootEnd slot hit D (eofSlots D) 0 r') (hq : r'.1 = r.1)
    (hfound : r.2 ≠ none → r'.2 ≠ none) : EndsRight slot D r := by
  obtain ⟨q, found⟩ := r
  obtain ⟨q', found'⟩ := r'
  simp only at hq
  subst hq
  have hle := h'.le
  have hlt := h'.lt
  simp only at hle hlt
  have hlast : FAT_ENTRY_SIZE * (q' - 1) < D := by
    unfold eofSlots FAT_ENTRY_SIZE at *; omega
  have hcase := h.missing
  simp only at hcase
  refine ⟨hlast, ?_⟩
  cases found' with
  | some i =>
    obtain ⟨hi, hmatch, hend, hfits⟩ := h'.found i rfl
    simp only at hi hfits
    obtain rfl : i = q' - 1 := by omega
    cases found with
    | some i' => exact hfits
    | none =>
      rcases hcase rfl with h | ⟨-, -, h⟩
      · rw [hend] at h; cases h
      · rw [hmatch] at h; cases h
  | none =>
    cases found with
    | some i' => exact absurd rfl (hfound (by simp))
    | none =>
      rcases h'.missing rfl with h | h | h
      · right
        simp only at h ⊢
        unfold eofSlots FAT_ENTRY_SIZE at *; omega
      · exact .inr (Nat.le_of_lt h)
      · exact .inl h

end Scan

end AvocadOS
