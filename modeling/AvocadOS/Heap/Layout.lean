import AvocadOS.Heap.Model
import Mathlib.Data.List.Pairwise
import Mathlib.Tactic.SplitIfs

/-!
# Layouts: what a heap table stands for

A `Layout len` is a set of disjoint, nonempty block ranges inside `[0, len)`: the live allocations
of a heap, without the bits that encode them. It carries its own well-formedness, so that the two
operations (`Layout.add`, `Layout.remove`) cannot leave it.

`Encodes entries L` ties a table to a layout: every entry of a range has the bits of its place in
the range (`Range.entry`), every other entry of the table is `HEAP_MEMORY_BLOCK_FREE`.

* `Encodes.reserve`: `heap_reserve_blocks` on a free range adds it to the layout;
* `Encodes.release`: clearing the entries of a range removes it;
* `Encodes.stop`: the entry behind a range is free or the first of another range, which is how
  `heap_free` finds the end of an allocation.
-/

namespace AvocadOS

/-- The blocks `first`, …, `first + n - 1`. -/
structure Range where
  first : Nat
  n : Nat
  deriving DecidableEq

namespace Range

def Has (r : Range) (i : Nat) : Prop := r.first ≤ i ∧ i < r.first + r.n

instance (r : Range) (i : Nat) : Decidable (r.Has i) := inferInstanceAs (Decidable (_ ∧ _))

def Apart (r s : Range) : Prop := r.first + r.n ≤ s.first ∨ s.first + s.n ≤ r.first

instance : Std.Symm Apart := ⟨fun _ _ h => Or.symm h⟩

/-- The table entry of block `i` of the allocation `r`. -/
def entry (r : Range) (i : Nat) : HeapTableEntry :=
  HEAP_MEMORY_BLOCK_TAKEN ||| (if i = r.first then HEAP_MEMORY_BLOCK_IS_FIRST else 0) |||
    (if i + 1 = r.first + r.n then 0 else HEAP_MEMORY_BLOCK_HAS_NEXT)

@[simp] theorem entry_taken (r : Range) (i : Nat) : blockTestTaken (r.entry i) = true := by
  unfold entry; split <;> split <;> decide

@[simp] theorem entry_free (r : Range) (i : Nat) : blockTestFree (r.entry i) = false := by
  unfold entry; split <;> split <;> decide

@[simp] theorem entry_first (r : Range) (i : Nat) :
    blockTestFirst (r.entry i) = decide (i = r.first) := by
  unfold entry
  by_cases h : i = r.first
  · simp only [h, if_true, decide_true]; split <;> decide
  · simp only [h, if_false, decide_false]; split <;> decide

@[simp] theorem entry_hasNext (r : Range) (i : Nat) :
    blockTestHasNext (r.entry i) = decide (i + 1 ≠ r.first + r.n) := by
  unfold entry
  by_cases h : i + 1 = r.first + r.n
  · simp only [h, if_true, ne_eq, not_true_eq_false, decide_false]; split <;> decide
  · simp only [h, if_false, ne_eq, not_false_eq_true, decide_true]; split <;> decide

end Range

/-- Disjoint, nonempty ranges inside a table of `len` blocks. -/
structure Layout (len : Nat) where
  ranges : List Range
  nonempty : ∀ r ∈ ranges, 0 < r.n
  inside : ∀ r ∈ ranges, r.first + r.n ≤ len
  apart : ranges.Pairwise Range.Apart

namespace Layout

variable {len : Nat}

def empty (len : Nat) : Layout len where
  ranges := []
  nonempty := by simp
  inside := by simp
  apart := .nil

/-- One more range, apart from the others. -/
def add (L : Layout len) (r : Range) (hn : 0 < r.n) (hin : r.first + r.n ≤ len)
    (hap : ∀ s ∈ L.ranges, r.Apart s) : Layout len where
  ranges := r :: L.ranges
  nonempty s hs := by
    rcases List.mem_cons.mp hs with rfl | hs
    · exact hn
    · exact L.nonempty s hs
  inside s hs := by
    rcases List.mem_cons.mp hs with rfl | hs
    · exact hin
    · exact L.inside s hs
  apart := List.pairwise_cons.mpr ⟨hap, L.apart⟩

/-- The range that starts at block `first` goes. -/
def remove (L : Layout len) (first : Nat) : Layout len where
  ranges := L.ranges.filter (·.first ≠ first)
  nonempty r hr := L.nonempty r (List.mem_filter.mp hr |>.1)
  inside r hr := L.inside r (List.mem_filter.mp hr |>.1)
  apart := L.apart.filter _

theorem mem_remove {L : Layout len} {first : Nat} {r : Range} :
    r ∈ (L.remove first).ranges ↔ r ∈ L.ranges ∧ r.first ≠ first := by
  simp [remove]

/-- Two ranges of a layout that share a block are one. -/
theorem eq_of_has {L : Layout len} {r s : Range} (hr : r ∈ L.ranges) (hs : s ∈ L.ranges) {i : Nat}
    (hri : r.Has i) (hsi : s.Has i) : r = s := by
  by_contra hne
  have hap : r.Apart s := L.apart.forall hr hs hne
  unfold Range.Apart at hap
  unfold Range.Has at hri hsi
  omega

theorem eq_of_first {L : Layout len} {r s : Range} (hr : r ∈ L.ranges) (hs : s ∈ L.ranges)
    (h : r.first = s.first) : r = s := by
  have h₁ := L.nonempty r hr
  have h₂ := L.nonempty s hs
  exact eq_of_has hr hs (i := r.first) ⟨by omega, by omega⟩ ⟨by omega, by omega⟩

end Layout

/-- The table entries `entries` encode the live allocations `L`. -/
structure Encodes {len : Nat} (entries : Nat → HeapTableEntry) (L : Layout len) : Prop where
  run : ∀ r ∈ L.ranges, ∀ i, r.Has i → entries i = r.entry i
  free : ∀ i < len, (∀ r ∈ L.ranges, ¬ r.Has i) → entries i = HEAP_MEMORY_BLOCK_FREE

namespace Encodes

variable {len : Nat} {entries entries' : Nat → HeapTableEntry} {L : Layout len}

theorem empty (h : ∀ i < len, entries i = HEAP_MEMORY_BLOCK_FREE) :
    Encodes entries (Layout.empty len) where
  run r hr := by simp [Layout.empty] at hr
  free i hi _ := h i hi

theorem taken_iff (h : Encodes entries L) {i : Nat} (hi : i < len) :
    blockTestTaken (entries i) = true ↔ ∃ r ∈ L.ranges, r.Has i := by
  constructor
  · intro ht
    by_contra hno
    rw [h.free i hi fun r hr hri => hno ⟨r, hr, hri⟩] at ht
    exact absurd ht (by decide)
  · rintro ⟨r, hr, hri⟩
    rw [h.run r hr i hri]
    exact r.entry_taken i

/-- A range of blocks that are not taken is apart from the live allocations. -/
theorem apart (h : Encodes entries L) {r : Range} (hn : 0 < r.n) (hin : r.first + r.n ≤ len)
    (hfree : ∀ i, r.Has i → blockTestTaken (entries i) = false) : ∀ s ∈ L.ranges, r.Apart s := by
  intro s hs
  have hsn := L.nonempty s hs
  have hsin := L.inside s hs
  by_contra hno
  unfold Range.Apart at hno
  -- the larger of the two first blocks lies in both ranges
  have hboth : r.Has (max r.first s.first) ∧ s.Has (max r.first s.first) := by
    unfold Range.Has; omega
  have ht := (h.taken_iff (i := max r.first s.first) (by omega)).mpr ⟨s, hs, hboth.2⟩
  rw [hfree _ hboth.1] at ht
  cases ht

/-- A reservation of free blocks adds their range to the layout. -/
theorem reserve (h : Encodes entries L) {r : Range} {hn : 0 < r.n} {hin : r.first + r.n ≤ len}
    {hap : ∀ s ∈ L.ranges, r.Apart s}
    (he : ∀ i, entries' i = if r.Has i then r.entry i else entries i) :
    Encodes entries' (L.add r hn hin hap) where
  run s hs i hi := by
    rw [he]
    rcases List.mem_cons.mp hs with rfl | hs
    · exact if_pos hi
    · rw [if_neg, h.run s hs i hi]
      intro hri
      have := hap s hs
      unfold Range.Apart at this
      unfold Range.Has at hri hi
      omega
  free i hi hno := by
    rw [he, if_neg (hno r List.mem_cons_self)]
    exact h.free i hi fun s hs => hno s (List.mem_cons_of_mem r hs)

/-- Clearing the entries of an allocation removes it from the layout. -/
theorem release (h : Encodes entries L) {r : Range} (hr : r ∈ L.ranges)
    (he : ∀ i, entries' i = if r.Has i then HEAP_MEMORY_BLOCK_FREE else entries i) :
    Encodes entries' (L.remove r.first) where
  run s hs i hi := by
    obtain ⟨hs, hne⟩ := Layout.mem_remove.mp hs
    rw [he, if_neg, h.run s hs i hi]
    exact fun hri => hne (congrArg Range.first (Layout.eq_of_has hs hr hi hri))
  free i hi hno := by
    rw [he]
    split
    · rfl
    · rename_i hri
      refine h.free i hi fun s hs hsi => ?_
      by_cases hfirst : s.first = r.first
      · exact hri (Layout.eq_of_first hs hr hfirst ▸ hsi)
      · exact hno s (Layout.mem_remove.mpr ⟨hs, hfirst⟩) hsi

/-- The entry behind an allocation is free or the first one of another allocation. -/
theorem stop (h : Encodes entries L) {r : Range} (hr : r ∈ L.ranges) (hend : r.first + r.n < len) :
    blockTestFree (entries (r.first + r.n)) = true ∨
      blockTestFirst (entries (r.first + r.n)) = true := by
  by_cases hany : ∃ s ∈ L.ranges, s.Has (r.first + r.n)
  · obtain ⟨s, hs, hsi⟩ := hany
    have hne : r ≠ s := by
      rintro rfl
      unfold Range.Has at hsi
      omega
    have hap : r.Apart s := L.apart.forall hr hs hne
    have hfirst : r.first + r.n = s.first := by
      have := L.nonempty r hr
      unfold Range.Apart at hap
      unfold Range.Has at hsi
      omega
    right
    rw [h.run s hs _ hsi, Range.entry_first]
    exact decide_eq_true hfirst
  · left
    rw [h.free _ hend fun s hs hsi => hany ⟨s, hs, hsi⟩]
    decide

end Encodes

/-! ## `heap_reserve_blocks` -/

@[simp] theorem modify_len (t : HeapTable) (i : Nat) (g : HeapTableEntry → HeapTableEntry) :
    (t.modify i g).len = t.len := rfl

@[simp] theorem modify_inUse (t : HeapTable) (i : Nat) (g : HeapTableEntry → HeapTableEntry) :
    (t.modify i g).inUse = t.inUse := rfl

theorem modify_entries (t : HeapTable) (i j : Nat) (g : HeapTableEntry → HeapTableEntry) :
    (t.modify i g).entries j = if j = i then g (t.entries j) else t.entries j := by
  simp only [HeapTable.modify, Function.update_apply]
  split
  · rename_i h; rw [h]
  · rfl

/-- The loop of `heap_reserve_blocks`. -/
theorem foldl_modify (g : HeapTableEntry → HeapTableEntry) (n : Nat) (first : Nat) (t : HeapTable)
    (body : HeapTable → Nat → HeapTable) (hb : ∀ t j, body t j = t.modify j g) :
    ((List.range' first n).foldl body t).len = t.len ∧
      ((List.range' first n).foldl body t).inUse = t.inUse ∧
      ∀ i, ((List.range' first n).foldl body t).entries i =
        if first ≤ i ∧ i < first + n then g (t.entries i) else t.entries i := by
  induction n generalizing first t with
  | zero => exact ⟨rfl, rfl, fun i => by rw [if_neg (by omega)]; rfl⟩
  | succ n ih =>
    rw [List.range'_succ, List.foldl_cons]
    obtain ⟨hl, hu, he⟩ := ih (first + 1) (body t first)
    refine ⟨by rw [hl, hb]; rfl, by rw [hu, hb]; rfl, fun i => ?_⟩
    rw [he, hb, modify_entries]
    rcases Nat.lt_trichotomy i first with h | rfl | h
    · simp only [show ¬ first + 1 ≤ i by omega, show ¬ first ≤ i by omega,
        show ¬ i = first by omega, false_and, if_false]
    · simp only [show ¬ i + 1 ≤ i by omega, false_and, if_false, if_true, Nat.le_refl, true_and,
        show i < i + (n + 1) by omega]
    · simp only [show ¬ i = first by omega, if_false, show first ≤ i by omega,
        show first + 1 ≤ i by omega, true_and, show first + 1 + n = first + (n + 1) by omega]

/-- `heap_reserve_blocks` of free blocks writes the entries of an allocation there. -/
theorem heapReserveBlocks_entries {heap : Heap} {first n : Nat} (hn : 0 < n)
    (hfree : ∀ i, (Range.mk first n).Has i → heap.table.entries i = HEAP_MEMORY_BLOCK_FREE)
    (i : Nat) :
    (heapReserveBlocks heap first n).table.entries i =
      if (Range.mk first n).Has i then (Range.mk first n).entry i else heap.table.entries i := by
  obtain ⟨-, -, he⟩ := foldl_modify
    (fun b => blockSetNext (blockSetNotFirst (blockSetTaken b))) n first heap.table
    (fun t j => ((t.modify j blockSetTaken).modify j blockSetNotFirst).modify j blockSetNext)
    (fun t j => by simp [HeapTable.modify])
  simp only [heapReserveBlocks, modify_entries, he]
  by_cases hi : (Range.mk first n).Has i
  · rw [if_pos hi, hfree i hi, if_pos (show first ≤ i ∧ i < first + n from hi)]
    simp only [Range.entry, show (i = first + n - 1) = (i + 1 = first + n) from
      propext ⟨fun h => by omega, fun h => by omega⟩]
    split_ifs <;> decide
  · have hi' : ¬ (first ≤ i ∧ i < first + n) := hi
    rw [if_neg hi, if_neg hi', if_neg (by omega), if_neg (by omega)]

@[simp] theorem heapReserveBlocks_len (heap : Heap) (first n : Nat) :
    (heapReserveBlocks heap first n).table.len = heap.table.len :=
  (foldl_modify (fun b => blockSetNext (blockSetNotFirst (blockSetTaken b))) n first heap.table
    (fun t j => ((t.modify j blockSetTaken).modify j blockSetNotFirst).modify j blockSetNext)
    (fun t j => by simp [HeapTable.modify])).1

@[simp] theorem heapReserveBlocks_inUse (heap : Heap) (first n : Nat) :
    (heapReserveBlocks heap first n).table.inUse = heap.table.inUse :=
  (foldl_modify (fun b => blockSetNext (blockSetNotFirst (blockSetTaken b))) n first heap.table
    (fun t j => ((t.modify j blockSetTaken).modify j blockSetNotFirst).modify j blockSetNext)
    (fun t j => by simp [HeapTable.modify])).2.1

/-! ## The loop of `heap_free` -/

/-- `k` blocks released from `first` on. -/
theorem release_iterate (first : Nat) (t : HeapTable) (k : Nat) :
    Release.next^[k] ⟨first, t⟩ =
      { block := first + k
        table :=
          { entries := fun i => if first ≤ i ∧ i < first + k then HEAP_MEMORY_BLOCK_FREE
              else t.entries i
            len := t.len
            inUse := t.inUse - BitVec.ofNat 32 k } } := by
  induction k with
  | zero => simp [show ∀ i, ¬ (first ≤ i ∧ i < first) from fun i => by omega]
  | succ k ih =>
    rw [Function.iterate_succ_apply', ih]
    simp only [Release.next, HeapTable.modify, Release.mk.injEq, HeapTable.mk.injEq, true_and]
    refine ⟨by omega, ?_, by rw [BitVec.ofNat_add, BitVec.sub_sub]; rfl⟩
    funext i
    rw [Function.update_apply]
    by_cases h : i = first + k
    · rw [if_pos h, if_pos (by omega)]
    · rw [if_neg h]
      congr 1
      exact propext ⟨fun h => by omega, fun h => by omega⟩

/-- The loop runs over the blocks of the allocation behind its first one. -/
theorem release_goesOn {len : Nat} {t : HeapTable} {L : Layout len} (h : Encodes t.entries L)
    {r : Range} (hr : r ∈ L.ranges) {k : Nat} (h₁ : 0 < k) (h₂ : k < r.n) :
    (Release.next^[k] ⟨r.first, t⟩).goesOn = true := by
  rw [release_iterate]
  simp only [Release.goesOn]
  rw [if_neg (by omega), h.run r hr (r.first + k) ⟨by omega, by omega⟩]
  simp
  omega

end AvocadOS
