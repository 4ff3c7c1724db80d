import AvocadOS.Heap.Runs

/-!
# When an allocation ends and what it misses

The search of `find_first_block` has no bound of its own: its stop marker moves along with the
index. What ends it is a taken last block, or a run of free blocks that is long enough in the order
in which it reads (`freeFrom`), which goes on from the last block to block 0.

* `search_stops_iff`: the iteration at which a taken last block ends the search;
* `findFirstBlock_ends_iff`: when the search ends;
* `findFirstBlock_succeeds_iff`: when it finds something;
* `HeapSession.runs_complete_iff`: when `heap_malloc` succeeds exactly if the table has room.
-/

namespace AvocadOS

open Scan

variable {t : HeapTable} {last nBlocks : Nat} {heap : Heap}

/-! ## The end of the search -/

/-- The last block of the table is taken. -/
def HeapTable.LastTaken (t : HeapTable) : Prop := blockTestTaken (t.entries (t.len - 1)) = true

instance (t : HeapTable) : Decidable t.LastTaken := inferInstanceAs (Decidable (_ = _))

/-- How many entries a search reads before it gets to the last one of the table. -/
def untilLast (t : HeapTable) (last : Nat) : Nat :=
  if last + 1 < t.len then t.len - 1 - (last + 1) else t.len - 1

theorem readAt_untilLast (hlen : 2 ≤ t.len) (hlast : last < t.len) :
    readAt t last (untilLast t last) = t.len - 1 := by
  unfold untilLast
  split
  · next h =>
    rw [readAt_eq h, show last + 1 + (t.len - 1 - (last + 1)) = t.len - 1 by omega,
      Nat.mod_eq_of_lt (by omega)]
  · next h =>
    obtain ⟨m, hm⟩ : ∃ m, t.len - 1 = m + 1 := ⟨t.len - 2, by omega⟩
    rw [hm, readAt, show last + 1 + (m + 1) = t.len + (t.len - 1) by omega, Nat.add_mod_left,
      Nat.mod_eq_of_lt (by omega)]
    exact hm

/-- Before that it reads other entries. -/
theorem readAt_ne_last (hlen : 2 ≤ t.len) (hlast : last < t.len) {j : Nat}
    (hj : j < untilLast t last) : readAt t last j ≠ t.len - 1 := by
  unfold untilLast at hj
  split at hj
  · next h =>
    rw [readAt_eq h, Nat.mod_eq_of_lt (by omega)]
    omega
  · next h =>
    cases j with
    | zero =>
      simp only [readAt]
      omega
    | succ j =>
      rw [readAt, show last + 1 + (j + 1) = t.len + (j + 1) by omega, Nat.add_mod_left,
        Nat.mod_eq_of_lt (by omega)]
      omega

/-- The index is 0 after the last block of the table, and never else. -/
theorem readAt_succ_eq_zero (hlen : 2 ≤ t.len) (hlast : last < t.len) (j : Nat) :
    readAt t last (j + 1) = 0 ↔ readAt t last j = t.len - 1 := by
  rw [readAt_succ]
  refine ⟨fun h => ?_, fun h => ?_⟩
  · have hmod := mod_eq_pred_of_succ_mod (by omega) h
    by_cases hlt : readAt t last j < t.len
    · rwa [Nat.mod_eq_of_lt hlt] at hmod
    · cases j with
      | zero =>
        have hstart : readAt t last 0 = t.len := by
          simp only [readAt] at hlt ⊢
          omega
        rw [hstart, Nat.mod_self] at hmod
        omega
      | succ j => exact absurd (Nat.mod_lt _ (by omega)) hlt
  · rw [h, Nat.sub_add_cancel (by omega), Nat.mod_self]

/-- The search goes on until the counter is full, or until it has read a taken last block. -/
theorem search_goesOn_iff (hlen : 2 ≤ t.len) (hlast : last < t.len) (j : Nat) :
    ((Search.next t nBlocks)^[j] (Search.start last nBlocks)).goesOn = true ↔
      streak (freeFrom t last) j < nBlocks ∧
        ¬ (t.LastTaken ∧ ∃ i, j = i + 1 ∧ readAt t last i = t.len - 1) := by
  rw [search_iterate_from, from_goesOn_iff hlen]
  refine and_congr_right fun _ => not_congr ?_
  cases j with
  | zero => simp
  | succ j =>
    rw [readAt_succ_eq_zero hlen hlast]
    simp only [Nat.zero_lt_succ, true_and, Nat.add_sub_cancel, Nat.succ.injEq, exists_eq_left']
    refine and_congr_left fun hj => ?_
    simp [freeFrom, hj, HeapTable.LastTaken]

theorem search_stops_iff (hlen : 2 ≤ t.len) (hlast : last < t.len) (j : Nat) :
    ((Search.next t nBlocks)^[j] (Search.start last nBlocks)).goesOn = false ↔
      nBlocks ≤ streak (freeFrom t last) j ∨
        t.LastTaken ∧ ∃ i, j = i + 1 ∧ readAt t last i = t.len - 1 := by
  rw [Bool.eq_false_iff, ne_eq, search_goesOn_iff hlen hlast, not_and_or, not_not, not_lt]

/-- The search ends if and only if the last block of the table is taken, or there are enough free
entries in a row, in the order in which they are read. -/
theorem search_ends_iff (hlen : 2 ≤ t.len) (hlast : last < t.len) :
    (∃ j, ((Search.next t nBlocks)^[j] (Search.start last nBlocks)).goesOn = false) ↔
      t.LastTaken ∨ ∃ k, Window (freeFrom t last) nBlocks k := by
  simp only [search_stops_iff hlen hlast]
  constructor
  · rintro ⟨j, hfull | ⟨htaken, -⟩⟩
    · exact .inr ⟨_, window_of_streak hfull⟩
    · exact .inl htaken
  · rintro (htaken | ⟨k, hw⟩)
    · exact ⟨_, .inr ⟨htaken, _, rfl, readAt_untilLast hlen hlast⟩⟩
    · exact ⟨k + nBlocks, .inl (streak_of_window hw)⟩

theorem findFirstBlock_returns_iff (heap : Heap) (nBlocks : Nat) :
    (∃ fuel r, findFirstBlock fuel heap nBlocks = some r) ↔
      ∃ j, ((Search.next heap.table nBlocks)^[j]
        (Search.start heap.lastAllocatedBlock nBlocks)).goesOn = false := by
  rw [← Loop.exists_run_iff]
  refine exists_congr fun fuel => ⟨?_, ?_⟩
  · rintro ⟨r, h⟩
    obtain ⟨s, hs, -⟩ := Option.map_eq_some_iff.mp h
    exact ⟨s, hs⟩
  · rintro ⟨s, hs⟩
    exact ⟨_, Option.map_eq_some_iff.mpr ⟨s, hs, rfl⟩⟩

/-- The loop of `find_first_block` ends, whatever the table and the marker, if and only if the last
block of the table is taken or there are `nBlocks` free entries in a row from the marker on. -/
theorem findFirstBlock_ends_iff (hlen : 2 ≤ heap.table.len)
    (hlast : heap.lastAllocatedBlock < heap.table.len) :
    (∃ fuel r, findFirstBlock fuel heap nBlocks = some r) ↔
      heap.table.LastTaken ∨
        ∃ k, Window (freeFrom heap.table heap.lastAllocatedBlock) nBlocks k := by
  rw [findFirstBlock_returns_iff, search_ends_iff hlen hlast]

/-- Two blocks, the first one taken. -/
def halfTaken : Heap := ⟨⟨fun i => if i = 0 then 0x41 else 0, 2, 1⟩, 0x1000, 0, fun _ => 0⟩

theorem findFirstBlock_ends_iff_halfTaken :
    ∃ fuel r, findFirstBlock fuel halfTaken 1 = some r :=
  (findFirstBlock_ends_iff (by decide) (by decide)).mpr (.inr ⟨0, by decide⟩)

/-- A search for two blocks there goes round for ever: every second entry is taken, and the last one
is not. -/
theorem findFirstBlock_hangs : ¬ ∃ fuel r, findFirstBlock fuel halfTaken 2 = some r := by
  rw [findFirstBlock_returns_iff, search_ends_iff (by decide) (by decide)]
  rintro (h | ⟨k, hw⟩)
  · exact absurd h (by decide)
  · have hfree : ∀ j, freeFrom halfTaken.table 0 j = decide (j % 2 = 0) := by
      intro j
      rw [freeFrom, readAt_eq (by decide)]
      rcases Nat.mod_two_eq_zero_or_one j with hj | hj
      · have : (0 + 1 + j) % halfTaken.table.len = 1 := by simp only [halfTaken]; omega
        rw [this, hj]
        decide
      · have : (0 + 1 + j) % halfTaken.table.len = 0 := by simp only [halfTaken]; omega
        rw [this, hj]
        decide
    have h₀ := hw 0 (by decide)
    have h₁ := hw 1 (by decide)
    rw [show halfTaken.lastAllocatedBlock = 0 from rfl, hfree, decide_eq_true_eq] at h₀ h₁
    omega

/-! ## What the search finds -/

/-- There are `nBlocks` free blocks in a row inside the table. -/
def HeapTable.HasRoom (t : HeapTable) (nBlocks : Nat) : Prop :=
  ∃ first, first + nBlocks ≤ t.len ∧ ∀ i < nBlocks, blockTestTaken (t.entries (first + i)) = false

/-- A search starting behind `last` gets to the window at `k` of its reading order. -/
def HeapTable.Reaches (t : HeapTable) (last nBlocks k : Nat) : Prop :=
  Window (freeFrom t last) nBlocks k ∧ (t.LastTaken → k + nBlocks ≤ untilLast t last)

theorem exists_firstWindow {f : Nat → Bool} {n k : Nat} (h : Window f n k) :
    ∃ m ≤ k, FirstWindow f n m := by
  have hex : ∃ m, Window f n m := ⟨k, h⟩
  exact ⟨Nat.find hex, Nat.find_min' hex h, Nat.find_spec hex, fun m hm => Nat.find_min hex hm⟩

/-- No block before a window that is reached ends the search. -/
theorem HeapTable.Reaches.goesOn {k m : Nat} (hlen : 2 ≤ t.len) (hlast : last < t.len)
    (hn : 0 < nBlocks) (h : t.Reaches last nBlocks k) (hle : m ≤ k)
    (hm : FirstWindow (freeFrom t last) nBlocks m) :
    Loop.Ends Search.goesOn (Search.next t nBlocks) (m + nBlocks) (Search.start last nBlocks) := by
  obtain ⟨hfull, hbefore⟩ := (firstWindow_iff_streak hn).mp hm
  refine ⟨fun j hj => (search_goesOn_iff hlen hlast j).mpr ⟨hbefore j hj, ?_⟩,
    (search_stops_iff hlen hlast _).mpr (.inl (Nat.le_of_eq hfull.symm))⟩
  rintro ⟨htaken, i, rfl, hi⟩
  have := h.2 htaken
  exact readAt_ne_last hlen hlast (by omega) hi

/-- A search that succeeds has found the first window, and reaches it. -/
theorem findFirstBlock_found {fuel : Nat} {heap' : Heap} {r : Int} (hlen : 2 ≤ heap.table.len)
    (hlast : heap.lastAllocatedBlock < heap.table.len) (hn : 0 < nBlocks)
    (h : findFirstBlock fuel heap nBlocks = some (r, heap')) (hr : 0 ≤ r) :
    ∃ k, FirstWindow (freeFrom heap.table heap.lastAllocatedBlock) nBlocks k ∧
      heap.table.Reaches heap.lastAllocatedBlock nBlocks k ∧
      r = (readAt heap.table heap.lastAllocatedBlock k : Nat) := by
  obtain ⟨s, hrun, hs⟩ := Option.map_eq_some_iff.mp h
  obtain ⟨j, -, hends, rfl⟩ := Loop.iterate_of_run hrun
  have hgoes : ∀ i < j, _ := fun i hi => (search_goesOn_iff hlen hlast i).mp (hends.1 i hi)
  rw [search_iterate_from] at hs
  obtain ⟨rfl, -⟩ := Prod.mk.inj hs
  have hfull : nBlocks ≤ streak (freeFrom heap.table heap.lastAllocatedBlock) j := by
    by_contra hlt
    have hleft : nBlocks - streak (freeFrom heap.table heap.lastAllocatedBlock) j ≠ 0 := by omega
    change 0 ≤ if nBlocks - streak (freeFrom heap.table heap.lastAllocatedBlock) j ≠ 0
      then -ENOMEM else _ at hr
    rw [if_pos hleft] at hr
    exact absurd hr (by decide)
  have hle := streak_le (f := freeFrom heap.table heap.lastAllocatedBlock) j
  -- the counter grows by one at most, so it is exactly full
  have hexact : streak (freeFrom heap.table heap.lastAllocatedBlock) j = nBlocks := by
    cases j with
    | zero => omega
    | succ j =>
      have := (hgoes j (by omega)).1
      simp only [streak] at hfull ⊢
      split at hfull
      · next hf =>
        rw [if_pos hf]
        omega
      · omega
  have hk : j - nBlocks + nBlocks = j := by omega
  refine ⟨j - nBlocks, (firstWindow_iff_streak hn).mpr ⟨by rwa [hk], by
    rw [hk]; exact fun i hi => (hgoes i hi).1⟩, ⟨window_of_streak hfull, fun htaken => ?_⟩, ?_⟩
  · rw [hk]
    by_contra hlt
    have hread := readAt_untilLast hlen hlast
    rcases Nat.lt_or_ge (untilLast heap.table heap.lastAllocatedBlock + 1) j with hj | hj
    · exact (hgoes _ hj).2 ⟨htaken, _, rfl, hread⟩
    · -- the counter is 0 right after a taken last block
      obtain rfl : j = untilLast heap.table heap.lastAllocatedBlock + 1 := by omega
      have hf : freeFrom heap.table heap.lastAllocatedBlock
          (untilLast heap.table heap.lastAllocatedBlock) = false := by
        rw [freeFrom, hread, htaken]
        rfl
      rw [streak_succ_taken hf] at hexact
      omega
  · simp only [Search.from, hexact, Nat.sub_self, ne_eq, not_true_eq_false, if_false]
    rw [if_neg (by omega)]

/-- The search succeeds if and only if it reaches a window. -/
theorem findFirstBlock_succeeds_iff (hlen : 2 ≤ heap.table.len)
    (hlast : heap.lastAllocatedBlock < heap.table.len) (hn : 0 < nBlocks) :
    (∃ fuel r heap', findFirstBlock fuel heap nBlocks = some (r, heap') ∧ 0 ≤ r) ↔
      ∃ k, heap.table.Reaches heap.lastAllocatedBlock nBlocks k := by
  constructor
  · rintro ⟨fuel, r, heap', h, hr⟩
    obtain ⟨k, -, hk, -⟩ := findFirstBlock_found hlen hlast hn h hr
    exact ⟨k, hk⟩
  · rintro ⟨k, hk⟩
    obtain ⟨m, hle, hm⟩ := exists_firstWindow hk.1
    have hends := hk.goesOn hlen hlast hn hle hm
    have hfull := ((firstWindow_iff_streak hn).mp hm).1
    refine ⟨_, _, _, Option.map_eq_some_iff.mpr
      ⟨_, Loop.run_iterate hends (Nat.le_refl _), rfl⟩, ?_⟩
    rw [search_iterate_from]
    simp only [Search.from, hfull, Nat.sub_self, ne_eq, not_true_eq_false, if_false]
    rw [if_neg (by omega)]
    omega

/-- What it finds is never block 0: it only gets there past a free last block. -/
theorem found_pos {k : Nat} (hlen : 2 ≤ t.len) (hlast : last < t.len)
    (hw : FirstWindow (freeFrom t last) nBlocks k) (hk : t.Reaches last nBlocks k) :
    0 < readAt t last k := by
  refine Nat.pos_of_ne_zero fun hzero => ?_
  cases k with
  | zero => simp [readAt] at hzero
  | succ k =>
    have hread := (readAt_succ_eq_zero hlen hlast k).mp hzero
    by_cases htaken : t.LastTaken
    · -- the last block was read before, so it is not behind the window
      have hbound := hk.2 htaken
      exact readAt_ne_last hlen hlast (by omega) hread
    · refine hw.2 k (by omega) fun i hi => ?_
      rcases i with _ | i
      · rw [HeapTable.LastTaken] at htaken
        rw [freeFrom, Nat.add_zero, hread]
        simpa using htaken
      · rw [show k + (i + 1) = k + 1 + i by omega]
        exact hw.1 i (by omega)

theorem readAt_le (hlen : 2 ≤ t.len) (hlast : last < t.len) (k : Nat) : readAt t last k ≤ t.len := by
  cases k with
  | zero => exact hlast
  | succ k => exact (Nat.mod_lt _ (by omega)).le

/-- `heap_malloc` returns a pointer if and only if the search succeeds. -/
theorem heapMalloc_succeeds_iff {size : Word} (hlen : 2 ≤ heap.table.len)
    (hlast : heap.lastAllocatedBlock < heap.table.len) (hn : 0 < sizeToNblocks size.toNat)
    (hregion : heap.baseAddr.toNat + heap.table.len * KERNEL_HEAP_BLOCK_SIZE < 2 ^ 32) :
    (∃ fuel p heap', heapMalloc fuel heap size = some (p, heap') ∧ p ≠ 0) ↔
      ∃ k, heap.table.Reaches heap.lastAllocatedBlock (sizeToNblocks size.toNat) k := by
  rw [← findFirstBlock_succeeds_iff hlen hlast hn]
  have hn' : sizeToNblocks size.toNat ≠ 0 := by omega
  constructor
  · rintro ⟨fuel, p, heap', h, hp⟩
    simp only [heapMalloc, hn', if_false, heapMallocBlocks, Option.map_eq_some_iff,
      Prod.exists] at h
    obtain ⟨r, heap₁, hfind, hr⟩ := h
    refine ⟨fuel, r, heap₁, hfind, ?_⟩
    by_contra hneg
    rw [if_pos (by omega)] at hr
    exact hp (Prod.mk.inj hr).1.symm
  · rintro ⟨fuel, r, heap₁, hfind, hr⟩
    obtain ⟨k, hw, hk, rfl⟩ := findFirstBlock_found hlen hlast hn hfind hr
    have hpos := found_pos hlen hlast hw hk
    have hle := readAt_le hlen hlast k
    obtain ⟨st, -, hst⟩ := Option.map_eq_some_iff.mp hfind
    obtain ⟨-, rfl⟩ := Prod.mk.inj hst
    have hmalloc : ∃ heap', heapMalloc fuel heap size =
        some (heapBlockToAddr heap (readAt heap.table heap.lastAllocatedBlock k), heap') := by
      simp only [heapMalloc, hn', if_false, heapMallocBlocks, hfind, Option.map_some]
      rw [if_neg (by omega)]
      exact ⟨_, rfl⟩
    obtain ⟨heap', hmalloc⟩ := hmalloc
    refine ⟨fuel, _, heap', hmalloc, fun hnull => ?_⟩
    have := congrArg BitVec.toNat hnull
    unfold KERNEL_HEAP_BLOCK_SIZE at hregion
    simp only [heapBlockToAddr, KERNEL_HEAP_BLOCK_SIZE, BitVec.toNat_add, BitVec.toNat_ofNat] at this
    have hzero : (0 : Word).toNat = 0 := rfl
    omega

/-! ## Room in the table -/

/-- With a free last block the search gets to every block. -/
theorem reaches_of_hasRoom (hlen : 2 ≤ t.len) (hlast : last < t.len) (hfree : ¬ t.LastTaken)
    (h : t.HasRoom nBlocks) : ∃ k, t.Reaches last nBlocks k := by
  obtain ⟨first, hfit, hroom⟩ := h
  refine ⟨2 * t.len + first - (last + 1), fun i hi => ?_, fun htaken => absurd htaken hfree⟩
  obtain ⟨m, hm⟩ : ∃ m, 2 * t.len + first - (last + 1) + i = m + 1 :=
    ⟨2 * t.len + first - (last + 1) + i - 1, by omega⟩
  rw [freeFrom, hm, readAt, show last + 1 + (m + 1) = first + i + t.len * 2 by omega,
    Nat.add_mul_mod_self_left, Nat.mod_eq_of_lt (by omega), hroom i hi]
  rfl

/-- What the search would find across the end of the table, and what it does not get to because the
last block is taken, is no obstacle: there is room in the table in the first case, and a window
before the last block in the second. -/
structure HeapTable.Fair (t : HeapTable) (last nBlocks : Nat) : Prop where
  inside : (∃ k, t.Reaches last nBlocks k) → t.HasRoom nBlocks
  ahead : t.LastTaken → t.HasRoom nBlocks →
    ∃ k, Window (freeFrom t last) nBlocks k ∧ k + nBlocks ≤ untilLast t last

theorem HeapTable.fair_iff (hlen : 2 ≤ t.len) (hlast : last < t.len) :
    t.Fair last nBlocks ↔ ((∃ k, t.Reaches last nBlocks k) ↔ t.HasRoom nBlocks) := by
  constructor
  · rintro ⟨hinside, hahead⟩
    refine ⟨hinside, fun hroom => ?_⟩
    by_cases htaken : t.LastTaken
    · obtain ⟨k, hw, hk⟩ := hahead htaken hroom
      exact ⟨k, hw, fun _ => hk⟩
    · exact reaches_of_hasRoom hlen hlast htaken hroom
  · intro h
    refine ⟨h.mp, fun htaken hroom => ?_⟩
    obtain ⟨k, hw, hk⟩ := h.mpr hroom
    exact ⟨k, hw, hk htaken⟩

/-! ## Whole runs -/

/-- `heap_free` never moves the heap or its table. -/
theorem heapFree_base {fuel : Nat} {ptr : Word} {heap' : Heap}
    (h : heapFree fuel heap ptr = some heap') :
    heap'.baseAddr = heap.baseAddr ∧ heap'.table.len = heap.table.len := by
  simp only [heapFree] at h
  split at h
  · cases h
    exact ⟨rfl, rfl⟩
  · obtain ⟨r, hrun, rfl⟩ := Option.map_eq_some_iff.mp h
    obtain ⟨k, -, -, rfl⟩ := Loop.iterate_of_run hrun
    rw [← Function.iterate_succ_apply, release_iterate]
    exact ⟨rfl, rfl⟩

namespace HeapSession

variable {s s' : HeapSession}

theorem step_base {call : HeapCall} (h : Step s call s') :
    s'.heap.baseAddr = s.heap.baseAddr ∧ s'.heap.table.len = s.heap.table.len := by
  cases h with
  | malloc hm => exact heapMalloc_base hm
  | free _ hf => exact heapFree_base hf

theorem runs_base {calls : List HeapCall} (h : Runs Step s calls s') :
    s'.heap.baseAddr = s.heap.baseAddr ∧ s'.heap.table.len = s.heap.table.len := by
  induction h with
  | nil s => exact ⟨rfl, rfl⟩
  | cons hstep _ ih =>
    obtain ⟨hbase, hlen⟩ := step_base hstep
    exact ⟨ih.1.trans hbase, ih.2.trans hlen⟩

/-- In every state that a run reaches with the marker inside the table, `heap_malloc` returns a
pointer exactly if the table has room, if and only if the search meets no window across the end of
the table and no taken last block instead of that room. -/
theorem runs_complete_iff {mem : Memory} {ptr endAddr : Word} {table : HeapTable} {heap : Heap}
    (hc : heapCreate mem ptr endAddr table = .ok heap) (hr : ptr.toNat ≤ endAddr.toNat)
    (hlen : 2 ≤ heap.table.len) {calls : List HeapCall} (hrun : Runs Step ⟨heap, []⟩ calls s)
    (hlast : s.heap.lastAllocatedBlock < s.heap.table.len) {size : Word} (hsize : 0 < size.toNat) :
    ((∃ fuel p heap', heapMalloc fuel s.heap size = some (p, heap') ∧ p ≠ 0) ↔
        s.heap.table.HasRoom (sizeToNblocks size.toNat)) ↔
      s.heap.table.Fair s.heap.lastAllocatedBlock (sizeToNblocks size.toNat) := by
  obtain ⟨hbase, htable⟩ := runs_base hrun
  have hregion : s.heap.baseAddr.toNat + s.heap.table.len * KERNEL_HEAP_BLOCK_SIZE < 2 ^ 32 := by
    rw [hbase, htable]
    obtain ⟨hblocks, rfl⟩ := heapCreate_eq hc
    have := endAddr.isLt
    rw [BitVec.toNat_sub_of_le (BitVec.le_def.mpr hr)] at hblocks
    simp only [hblocks]
    unfold KERNEL_HEAP_BLOCK_SIZE
    omega
  have hn : 0 < sizeToNblocks size.toNat := by
    have := blocks_le size.toNat
    refine Nat.pos_of_ne_zero fun h0 => ?_
    rw [h0] at this
    omega
  rw [show heap.table.len = s.heap.table.len from htable.symm] at hlen
  rw [heapMalloc_succeeds_iff hlen hlast hn hregion, HeapTable.fair_iff hlen hlast]

/-- A new heap of four blocks. -/
def fourBlocks : HeapSession :=
  ⟨⟨⟨fun i => if i < 4 then 0 else 0, 4, 0⟩, 0x1000, 0, fun _ => 0⟩, []⟩

/-- With one of the blocks taken, a second one is found. -/
theorem runs_complete_iff_fourBlocks :
    ∃ s, heapCreate (fun _ => 0) 0x1000 0x5000 ⟨fun _ => 0, 4, 0⟩ = .ok fourBlocks.heap ∧
      Runs Step fourBlocks [.malloc 1] s ∧
      (((∃ fuel p heap', heapMalloc fuel s.heap 1 = some (p, heap') ∧ p ≠ 0) ↔
        s.heap.table.HasRoom 1) ↔ s.heap.table.Fair s.heap.lastAllocatedBlock 1) := by
  have hrun : Runs Step fourBlocks [.malloc 1] _ := .cons (@Step.malloc _ 1 _ _ _ rfl) (.nil _)
  refine ⟨_, rfl, hrun, ?_⟩
  exact @runs_complete_iff _ (fun _ => 0) 0x1000 0x5000 ⟨fun _ => 0, 4, 0⟩ _ rfl (by decide)
    (by decide) _ hrun (by decide) 1 (by decide)

/-- With blocks 1 and 2 taken, `heap_malloc` of two blocks returns block 3: it counts block 3 and
block 0. -/
theorem malloc_without_room :
    ∃ s fuel p heap',
      heapCreate (fun _ => 0) 0x1000 0x5000 ⟨fun _ => 0, 4, 0⟩ = .ok fourBlocks.heap ∧
      Runs Step fourBlocks [.malloc 1, .malloc 1] s ∧
      heapMalloc fuel s.heap 8192 = some (p, heap') ∧ p ≠ 0 ∧
      ¬ s.heap.table.HasRoom (sizeToNblocks 8192) := by
  have hrun : Runs Step fourBlocks [.malloc 1, .malloc 1] _ :=
    .cons (@Step.malloc _ 1 _ _ _ rfl) (.cons (@Step.malloc _ 1 _ _ _ rfl) (.nil _))
  refine ⟨_, 2, 0x4000, _, rfl, hrun, rfl, by decide, ?_⟩
  rintro ⟨first, hfit, hroom⟩
  have hle : first ≤ 2 := Nat.le_of_add_le_add_right hfit
  obtain rfl | rfl | rfl : first = 0 ∨ first = 1 ∨ first = 2 := by omega
  · exact absurd (hroom 1 (by decide)) (by decide)
  · exact absurd (hroom 0 (by decide)) (by decide)
  · exact absurd (hroom 0 (by decide)) (by decide)

end HeapSession

end AvocadOS
