import AvocadOS.Heap.Model
import AvocadOS.Lib.Scan

/-!
# What `find_first_block` finds

The search reads the table cyclically, from the block after `last_allocated_block` on, and counts
consecutive free blocks across the wrap from the last block to block 0. `freeAt t last j` marks
the free blocks in that order, so the block that the search returns is the first window of
`nBlocks` marks (`Scan.FirstWindow`).

The loop also ends, without success, when a taken block is the last one of the table: it sets
`last_allocated_block` to 0 and the index wraps to 0. A free block moves the stop marker along
with the index, so nothing else ends it.

* `search_iterate_from`, `search_iterate`: the loop's variables after `j` iterations, from the counter
  `Scan.streak`, for any start and for one inside the table;
* `findFirstBlock_cases`: what a search that returns has found;
* `findFirstBlock_window`: a search whose first window wraps around the end of the table finds it.
-/

namespace AvocadOS

open Scan

/-- The `j`-th block from `last_allocated_block + 1` on, cyclically, is not taken. -/
def freeAt (t : HeapTable) (last j : Nat) : Bool :=
  !blockTestTaken (t.entries ((last + 1 + j) % t.len))

/-- The variables of the search after `j` iterations. -/
def Search.after (t : HeapTable) (last nBlocks j : Nat) : Search :=
  { i := (last + 1 + j) % t.len
    remainingBlocks := nBlocks - streak (freeAt t last) j
    foundBlock := if streak (freeAt t last) j = 0 then -1
      else ((last + 1 + j - streak (freeAt t last) j) % t.len : Nat)
    last := if j = 0 then last else if freeAt t last (j - 1) then (last + j) % t.len else 0 }

variable {t : HeapTable} {last nBlocks : Nat}

/-! ## Any start

A search that starts behind the table (`last_allocated_block` is the last block) reads what lies
there, and goes on with block 1. -/

/-- The index that the `j`-th iteration reads. -/
def readAt (t : HeapTable) (last : Nat) : Nat → Nat
  | 0 => last + 1
  | j + 1 => (last + 1 + (j + 1)) % t.len

/-- The entry that the `j`-th iteration reads is not taken. -/
def freeFrom (t : HeapTable) (last j : Nat) : Bool := !blockTestTaken (t.entries (readAt t last j))

/-- The variables of any search after `j` iterations. -/
def Search.from (t : HeapTable) (last nBlocks j : Nat) : Search :=
  { i := readAt t last j
    remainingBlocks := nBlocks - streak (freeFrom t last) j
    foundBlock := if streak (freeFrom t last) j = 0 then -1
      else (readAt t last (j - streak (freeFrom t last) j) : Nat)
    last := if j = 0 then last
      else if freeFrom t last (j - 1) then readAt t last (j - 1) else 0 }

theorem readAt_succ (j : Nat) : readAt t last (j + 1) = (readAt t last j + 1) % t.len := by
  cases j with
  | zero => rfl
  | succ j => simp only [readAt, Nat.mod_add_mod, Nat.add_assoc]

theorem search_next_from (j : Nat) :
    (Search.from t last nBlocks j).next t nBlocks = Search.from t last nBlocks (j + 1) := by
  have hle := streak_le (f := freeFrom t last) j
  cases hf : freeFrom t last j with
  | false =>
    have ht : blockTestTaken (t.entries (readAt t last j)) = true := by
      simpa [freeFrom] using hf
    simp only [Search.next, Search.from, ht, if_true, readAt_succ, streak_succ_taken hf,
      Nat.sub_zero, Nat.add_eq_zero_iff, Nat.one_ne_zero, and_false, if_false, Nat.add_sub_cancel,
      hf, Bool.false_eq_true]
  | true =>
    have ht : blockTestTaken (t.entries (readAt t last j)) = false := by
      simpa [freeFrom] using hf
    simp only [Search.next, Search.from, ht, Bool.false_eq_true, if_false, readAt_succ,
      streak_succ_free hf, Nat.add_eq_zero_iff, Nat.one_ne_zero, and_false, Nat.add_sub_cancel,
      hf, if_true, Search.mk.injEq, true_and, and_true]
    refine ⟨by omega, ?_⟩
    by_cases hs : streak (freeFrom t last) j = 0
    · simp [hs]
    · have hne : ¬ ((readAt t last (j - streak (freeFrom t last) j) : Nat) : Int) = -1 := by omega
      simp only [if_neg hs, beq_iff_eq, hne, if_false]
      rw [show j + 1 - (streak (freeFrom t last) j + 1) = j - streak (freeFrom t last) j by omega]

theorem search_iterate_from (j : Nat) :
    (Search.next t nBlocks)^[j] (Search.start last nBlocks) = Search.from t last nBlocks j := by
  induction j with
  | zero => rfl
  | succ j ih => rw [Function.iterate_succ_apply', ih, search_next_from]

/-- The loop goes on until the counter is full or the last block of the table was taken. -/
theorem from_goesOn_iff (hlen : 2 ≤ t.len) (j : Nat) :
    (Search.from t last nBlocks j).goesOn = true ↔
      streak (freeFrom t last) j < nBlocks ∧
        ¬ (0 < j ∧ freeFrom t last (j - 1) = false ∧ readAt t last j = 0) := by
  simp only [Search.goesOn, Search.from, Bool.and_eq_true, bne_iff_ne, ne_eq]
  rw [and_comm]
  refine and_congr (by omega) (not_congr ?_)
  cases j with
  | zero => simp [readAt]
  | succ j =>
    cases hf : freeFrom t last j with
    | false => simp [hf]
    | true =>
      -- the stop marker is the block just read, and the table has more than one block
      have hne : readAt t last (j + 1) ≠ readAt t last j := by
        rw [readAt_succ]
        by_cases hj : readAt t last j < t.len
        · have := succ_mod_ne (a := readAt t last j) hlen
          rwa [Nat.mod_eq_of_lt hj] at this
        · have := Nat.mod_lt (readAt t last j + 1) (show 0 < t.len by omega)
          omega
      simp [hf, hne]

/-! ## A start inside the table -/

theorem readAt_eq (hstart : last + 1 < t.len) (j : Nat) :
    readAt t last j = (last + 1 + j) % t.len := by
  cases j with
  | zero => exact (Nat.mod_eq_of_lt hstart).symm
  | succ j => rfl

theorem freeFrom_eq (hstart : last + 1 < t.len) : freeFrom t last = freeAt t last := by
  funext j
  rw [freeFrom, freeAt, readAt_eq hstart]

theorem from_eq_after (hstart : last + 1 < t.len) (j : Nat) :
    Search.from t last nBlocks j = Search.after t last nBlocks j := by
  have hle := streak_le (f := freeAt t last) j
  simp only [Search.from, Search.after, freeFrom_eq hstart, readAt_eq hstart, Search.mk.injEq,
    true_and]
  refine ⟨by rw [Nat.add_sub_assoc hle], ?_⟩
  rcases Nat.eq_zero_or_pos j with rfl | hj
  · rfl
  · rw [show last + 1 + (j - 1) = last + j by omega]

/-- The variables after `j` iterations, for a search that starts inside the table. -/
theorem search_iterate (hstart : last + 1 < t.len) (j : Nat) :
    (Search.next t nBlocks)^[j] (Search.start last nBlocks) = Search.after t last nBlocks j := by
  rw [search_iterate_from, from_eq_after hstart]

/-- The loop goes on until the counter is full or the last block of the table was taken. -/
theorem after_goesOn_iff (hstart : last + 1 < t.len) (j : Nat) :
    (Search.after t last nBlocks j).goesOn = true ↔
      streak (freeAt t last) j < nBlocks ∧
        ¬ (0 < j ∧ freeAt t last (j - 1) = false ∧ (last + 1 + j) % t.len = 0) := by
  rw [← from_eq_after hstart, from_goesOn_iff (by omega), freeFrom_eq hstart,
    readAt_eq hstart]

/-- A window that the loop reaches does not start at block 0: the loop only gets there past a free
last block, and then the window starts earlier. -/
theorem firstWindow_ne_zero {k : Nat} (hstart : last + 1 < t.len)
    (hw : FirstWindow (freeAt t last) nBlocks k)
    (hgoes : ∀ i ≤ k, (Search.after t last nBlocks i).goesOn = true) :
    (last + 1 + k) % t.len ≠ 0 := by
  intro hzero
  have hk : 0 < k := by
    rcases Nat.eq_zero_or_pos k with rfl | h
    · rw [Nat.add_zero, Nat.mod_eq_of_lt hstart] at hzero; omega
    · exact h
  have hfree : freeAt t last (k - 1) = true := by
    have := ((after_goesOn_iff hstart k).mp (hgoes k (Nat.le_refl k))).2
    by_contra hf
    exact this ⟨hk, by simpa using hf, hzero⟩
  refine hw.2 (k - 1) (by omega) fun i hi => ?_
  rcases i with _ | i
  · exact hfree
  · rw [show k - 1 + (i + 1) = k + i by omega]
    exact hw.1 i (by omega)

/-- What a search that returns has found: nothing, with a taken last block, or the first window. -/
theorem findFirstBlock_cases {fuel : Nat} {heap heap' : Heap} {r : Int}
    (hstart : heap.lastAllocatedBlock + 1 < heap.table.len) (hn : 0 < nBlocks)
    (h : findFirstBlock fuel heap nBlocks = some (r, heap')) :
    (r = -ENOMEM ∧ heap' = { heap with lastAllocatedBlock := 0 } ∧
        blockTestTaken (heap.table.entries (heap.table.len - 1)) = true) ∨
      ∃ k, FirstWindow (freeAt heap.table heap.lastAllocatedBlock) nBlocks k ∧
        r = ((heap.lastAllocatedBlock + 1 + k) % heap.table.len : Nat) ∧ r ≠ 0 ∧
        heap' = { heap with
          lastAllocatedBlock := (heap.lastAllocatedBlock + k + nBlocks) % heap.table.len } := by
  obtain ⟨s, hrun, hs⟩ := Option.map_eq_some_iff.mp h
  obtain ⟨j, -, hends, rfl⟩ := Loop.iterate_of_run hrun
  have hgoes : ∀ i < j, (Search.after heap.table heap.lastAllocatedBlock nBlocks i).goesOn =
      true := fun i hi => by rw [← search_iterate hstart]; exact hends.1 i hi
  have hbefore : ∀ i < j, streak (freeAt heap.table heap.lastAllocatedBlock) i < nBlocks :=
    fun i hi => ((after_goesOn_iff hstart i).mp (hgoes i hi)).1
  have hstop := hends.2
  rw [search_iterate hstart] at hs hstop
  rw [Bool.eq_false_iff, ne_eq, after_goesOn_iff hstart, not_and_or, not_not] at hstop
  obtain ⟨rfl, rfl⟩ := Prod.mk.inj hs
  by_cases hfull : streak (freeAt heap.table heap.lastAllocatedBlock) j < nBlocks
  · obtain ⟨hj, hf, hwrap⟩ := hstop.resolve_left (not_not.mpr hfull)
    refine .inl ⟨?_, ?_, ?_⟩
    · simp only [Search.after]
      exact if_pos (by omega)
    · simp only [Search.after]
      rw [if_neg (by omega), hf]
      rfl
    · have hpos : (heap.lastAllocatedBlock + 1 + (j - 1)) % heap.table.len =
          heap.table.len - 1 :=
        mod_eq_pred_of_succ_mod (by omega) (by rw [← hwrap]; congr 1; omega)
      rw [← hpos]
      simpa [freeAt] using hf
  · -- the counter grows by one at most, so it is exactly full
    obtain ⟨j, rfl⟩ : ∃ i, j = i + 1 := by
      refine ⟨j - 1, ?_⟩
      rcases Nat.eq_zero_or_pos j with rfl | h
      · simp at hfull; omega
      · omega
    have hj := hbefore j (by omega)
    have hf : freeAt heap.table heap.lastAllocatedBlock j = true := by
      by_contra hf
      rw [streak_succ_taken (by simpa using hf)] at hfull
      omega
    have hs : streak (freeAt heap.table heap.lastAllocatedBlock) (j + 1) = nBlocks := by
      rw [streak_succ_free hf] at hfull ⊢; omega
    have hle := streak_le (f := freeAt heap.table heap.lastAllocatedBlock) (j + 1)
    have hk : j + 1 - nBlocks + nBlocks = j + 1 := by omega
    have hfirst : FirstWindow (freeAt heap.table heap.lastAllocatedBlock) nBlocks
        (j + 1 - nBlocks) := (firstWindow_iff_streak hn).mpr ⟨by rwa [hk], by rwa [hk]⟩
    refine .inr ⟨j + 1 - nBlocks, hfirst, ?_, ?_, ?_⟩
    · simp only [Search.after, hs, Nat.sub_self, ne_eq, not_true_eq_false, if_false]
      rw [if_neg (by omega)]
      congr 2
      omega
    · simp only [Search.after, hs, Nat.sub_self, ne_eq, not_true_eq_false, if_false]
      rw [if_neg (by omega), Int.natCast_eq_zero,
        Nat.add_sub_assoc (show nBlocks ≤ j + 1 by omega)]
      exact firstWindow_ne_zero hstart hfirst (fun i hi => hgoes i (by omega))
    · simp only [Search.after, Nat.add_eq_zero_iff, Nat.one_ne_zero, and_false, if_false,
        Nat.add_sub_cancel, hf, if_true]
      congr 2
      omega

/-- A search whose first window reaches over the end of the table returns that window. -/
theorem findFirstBlock_window {heap : Heap} {k : Nat}
    (hstart : heap.lastAllocatedBlock + 1 < heap.table.len) (hn : 0 < nBlocks)
    (hw : FirstWindow (freeAt heap.table heap.lastAllocatedBlock) nBlocks k)
    (hover : heap.table.len < (heap.lastAllocatedBlock + 1 + k) % heap.table.len + nBlocks) :
    ∃ heap' : Heap, findFirstBlock (k + nBlocks) heap nBlocks =
      some ((((heap.lastAllocatedBlock + 1 + k) % heap.table.len : Nat) : Int), heap') := by
  -- the window contains the last block, so that block is free and never ends the loop
  have hlast : blockTestTaken (heap.table.entries (heap.table.len - 1)) = false := by
    have hlt := Nat.mod_lt (heap.lastAllocatedBlock + 1 + k) (show 0 < heap.table.len by omega)
    have := hw.1 (heap.table.len - 1 - (heap.lastAllocatedBlock + 1 + k) % heap.table.len)
      (by omega)
    rw [freeAt, ← Nat.add_assoc, ← Nat.mod_add_mod, Nat.add_sub_of_le (by omega),
      Nat.mod_eq_of_lt (by omega)] at this
    simpa using this
  obtain ⟨hfull, hbefore⟩ := (firstWindow_iff_streak hn).mp hw
  have hnostop : ∀ j, ¬ (0 < j ∧ freeAt heap.table heap.lastAllocatedBlock (j - 1) = false ∧
      (heap.lastAllocatedBlock + 1 + j) % heap.table.len = 0) := by
    rintro j ⟨hj, hf, hwrap⟩
    have hpos : (heap.lastAllocatedBlock + 1 + (j - 1)) % heap.table.len =
        heap.table.len - 1 :=
      mod_eq_pred_of_succ_mod (by omega) (by rw [← hwrap]; congr 1; omega)
    rw [freeAt, hpos, hlast] at hf
    simp at hf
  have hends : Loop.Ends Search.goesOn (Search.next heap.table nBlocks) (k + nBlocks)
      (Search.start heap.lastAllocatedBlock nBlocks) := by
    refine ⟨fun j hj => ?_, ?_⟩
    · rw [search_iterate hstart, after_goesOn_iff hstart]
      exact ⟨hbefore j hj, hnostop j⟩
    · rw [search_iterate hstart, Bool.eq_false_iff, ne_eq, after_goesOn_iff hstart, hfull]
      omega
  refine ⟨{ heap with lastAllocatedBlock :=
    (Search.after heap.table heap.lastAllocatedBlock nBlocks (k + nBlocks)).last }, ?_⟩
  rw [findFirstBlock, Loop.run_iterate hends (Nat.le_refl _), search_iterate hstart]
  simp only [Option.map_some, Search.after, hfull, Nat.sub_self, ne_eq, not_true_eq_false,
    if_false]
  rw [if_neg (by omega), show heap.lastAllocatedBlock + 1 + (k + nBlocks) - nBlocks =
    heap.lastAllocatedBlock + 1 + k by omega]

end AvocadOS
