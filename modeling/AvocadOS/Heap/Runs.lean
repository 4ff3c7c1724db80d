import AvocadOS.Heap.Layout
import AvocadOS.Heap.Search
import AvocadOS.Lib.Run
import Mathlib.Algebra.BigOperators.Group.List.Basic

/-!
# Runs of `heap_malloc` and `heap_free`

A `HeapSession` is a heap with the allocations that its clients hold. A step is one call that
returns: any `heap_malloc`, or `heap_free` of a pointer that a client holds.

`SessionInv`: the table encodes the layout of the held allocations (`Encodes`), which are inside
the heap's region. Every call keeps it as long as the search neither starts behind the table nor
returns a range that reaches over its end:

* a search starts at `last_allocated_block + 1`, which is `len` when the last block of the table
  was the last one handed out: `find_first_block` then reads `entries[len]`;
* the search counts free blocks across the wrap, so the range it returns can reach over the end:
  `heap_reserve_blocks` then writes `entries[len]` and the pointer is too close to the end;
* `heap_free` of an allocation that includes the last block reads `entries[len]` to find its end.

`Meets` says that a call is none of these.
-/

namespace AvocadOS

open Scan

/-- A pointer that `heap_malloc(size)` returned. -/
structure Allocation where
  ptr : Word
  size : Word
  deriving DecidableEq

structure HeapSession where
  heap : Heap
  live : List Allocation

/-- The blocks of an allocation. -/
def HeapSession.range (s : HeapSession) (a : Allocation) : Range :=
  ⟨heapAddrToBlock s.heap a.ptr, sizeToNblocks a.size.toNat⟩

inductive HeapCall where
  | malloc (size : Word)
  | free (ptr : Word)
  deriving DecidableEq

namespace HeapSession

/-- The clients free only what they hold. -/
def Legal (s : HeapSession) : HeapCall → Prop
  | .malloc _ => True
  | .free ptr => ∃ a ∈ s.live, a.ptr = ptr

/-- One call that returns. -/
inductive Step : HeapSession → HeapCall → HeapSession → Prop
  | malloc {s : HeapSession} {fuel : Nat} {size ptr : Word} {heap : Heap} :
      heapMalloc fuel s.heap size = some (ptr, heap) →
      Step s (.malloc size) ⟨heap, if ptr = 0 then s.live else ⟨ptr, size⟩ :: s.live⟩
  | free {s : HeapSession} {fuel : Nat} {ptr : Word} {heap : Heap} :
      (∃ a ∈ s.live, a.ptr = ptr) → heapFree fuel s.heap ptr = some heap →
      Step s (.free ptr) ⟨heap, s.live.filter (·.ptr ≠ ptr)⟩

/-- Every table access of the call is inside the table, and a returned range inside the heap. -/
def Safe (s : HeapSession) : HeapCall → Prop
  | .malloc size =>
    (∀ fuel, ∀ i ∈ findFirstBlockReads fuel s.heap (sizeToNblocks size.toNat),
      i < s.heap.table.len) ∧
    (∀ fuel first heap, sizeToNblocks size.toNat ≠ 0 →
      findFirstBlock fuel s.heap (sizeToNblocks size.toNat) = some (first, heap) → 0 ≤ first →
      ∀ i ∈ heapReserveBlocksWrites first.toNat (sizeToNblocks size.toNat),
        i < s.heap.table.len) ∧
    (∀ fuel ptr heap, heapMalloc fuel s.heap size = some (ptr, heap) → ptr ≠ 0 →
      s.heap.baseAddr.toNat ≤ ptr.toNat ∧ ptr.toNat + size.toNat ≤
        s.heap.baseAddr.toNat + s.heap.table.len * KERNEL_HEAP_BLOCK_SIZE)
  | .free ptr => ∀ fuel, ∀ i ∈ heapFreeAccesses fuel s.heap ptr, i < s.heap.table.len

/-- The search starts inside the table and the first free run of the requested length, scanning
cyclically from there, ends inside it; the released allocation does not include the last block. -/
def Meets (s : HeapSession) : HeapCall → Prop
  | .malloc size => sizeToNblocks size.toNat = 0 ∨
    s.heap.lastAllocatedBlock + 1 < s.heap.table.len ∧
      ∀ k, FirstWindow (freeAt s.heap.table s.heap.lastAllocatedBlock)
          (sizeToNblocks size.toNat) k →
        (s.heap.lastAllocatedBlock + 1 + k) % s.heap.table.len + sizeToNblocks size.toNat ≤
          s.heap.table.len
  | .free ptr => ∀ a ∈ s.live, a.ptr = ptr →
    (s.range a).first + (s.range a).n < s.heap.table.len

/-- A call that returns and meets the condition. -/
def GoodStep (s : HeapSession) (call : HeapCall) (t : HeapSession) : Prop :=
  s.Meets call ∧ Step s call t

end HeapSession

/-! ## The invariant -/

/-- The table encodes the layout of the held allocations, and the region does not wrap around the
address space. -/
structure SessionInv (len : Nat) (s : HeapSession) : Prop where
  tableLen : s.heap.table.len = len
  region : s.heap.baseAddr.toNat + len * KERNEL_HEAP_BLOCK_SIZE ≤ 2 ^ 32
  layout : ∃ L : Layout len, L.ranges = s.live.map s.range ∧ Encodes s.heap.table.entries L
  ptrs : ∀ a ∈ s.live, a.ptr = heapBlockToAddr s.heap (s.range a).first

variable {len : Nat} {s t : HeapSession} {heap heap' : Heap}

theorem blocks_le (size : Nat) : size ≤ sizeToNblocks size * KERNEL_HEAP_BLOCK_SIZE := by
  unfold sizeToNblocks KERNEL_HEAP_BLOCK_SIZE
  split <;> omega

theorem blockToAddr_toNat {i : Nat}
    (hregion : heap.baseAddr.toNat + len * KERNEL_HEAP_BLOCK_SIZE ≤ 2 ^ 32) (hi : i < len) :
    (heapBlockToAddr heap i).toNat = heap.baseAddr.toNat + i * KERNEL_HEAP_BLOCK_SIZE := by
  unfold KERNEL_HEAP_BLOCK_SIZE at *
  simp only [heapBlockToAddr, BitVec.toNat_add, BitVec.toNat_ofNat, KERNEL_HEAP_BLOCK_SIZE]
  omega

theorem addrToBlock_blockToAddr {i : Nat} (hi : i * KERNEL_HEAP_BLOCK_SIZE < 2 ^ 32) :
    heapAddrToBlock heap (heapBlockToAddr heap i) = i := by
  unfold heapAddrToBlock heapBlockToAddr
  rw [offset_toNat _ hi]
  unfold KERNEL_HEAP_BLOCK_SIZE
  omega

theorem heapCreate_eq {mem : Memory} {ptr endAddr : Word} {table : HeapTable}
    (hc : heapCreate mem ptr endAddr table = .ok heap) :
    table.len = (endAddr - ptr).toNat / KERNEL_HEAP_BLOCK_SIZE ∧
      heap = ⟨⟨fun i => if i < table.len then HEAP_MEMORY_BLOCK_FREE else table.entries i,
        table.len, table.inUse⟩, ptr, 0, mem⟩ := by
  unfold heapCreate at hc
  split at hc
  · cases hc
  split at hc
  · cases hc
  rename_i _ hlen
  cases hc
  refine ⟨?_, rfl⟩
  by_contra hne
  unfold heapValidateTable at hlen
  exact hlen (by rw [if_pos hne]; decide)

/-- A fresh heap holds nothing. -/
theorem heapCreate_inv {mem : Memory} {ptr endAddr : Word} {table : HeapTable}
    (hc : heapCreate mem ptr endAddr table = .ok heap) (hr : ptr.toNat ≤ endAddr.toNat) :
    SessionInv heap.table.len ⟨heap, []⟩ := by
  obtain ⟨hlen, rfl⟩ := heapCreate_eq hc
  refine ⟨rfl, ?_, ⟨Layout.empty _, rfl, .empty fun i hi => if_pos hi⟩, by simp⟩
  have := endAddr.isLt
  rw [BitVec.toNat_sub_of_le (BitVec.le_def.mpr hr)] at hlen
  simp only [hlen]
  unfold KERNEL_HEAP_BLOCK_SIZE
  omega

theorem range_congr (hb : t.heap.baseAddr = s.heap.baseAddr) (a : Allocation) :
    t.range a = s.range a := by
  simp [HeapSession.range, heapAddrToBlock, hb]

/-! ## `heap_malloc` -/

/-- What a call that returns has done: nothing to the table, or the reservation of the first
window. -/
theorem heapMalloc_cases {fuel : Nat} {size ptr : Word}
    (hstart : heap.lastAllocatedBlock + 1 < heap.table.len)
    (hn : sizeToNblocks size.toNat ≠ 0) (h : heapMalloc fuel heap size = some (ptr, heap')) :
    (ptr = 0 ∧ heap' = { heap with lastAllocatedBlock := 0 }) ∨
      ∃ k first, FirstWindow (freeAt heap.table heap.lastAllocatedBlock)
          (sizeToNblocks size.toNat) k ∧
        first = (heap.lastAllocatedBlock + 1 + k) % heap.table.len ∧ first ≠ 0 ∧
        ptr = heapBlockToAddr heap first ∧
        heap' = { heap with
          table := { entries := (heapReserveBlocks heap first
                       (sizeToNblocks size.toNat)).table.entries
                     len := heap.table.len
                     inUse := heap.table.inUse + BitVec.ofNat 32 (sizeToNblocks size.toNat) }
          lastAllocatedBlock :=
            (heap.lastAllocatedBlock + k + sizeToNblocks size.toNat) % heap.table.len } := by
  simp only [heapMalloc, hn, if_false, heapMallocBlocks, Option.map_eq_some_iff, Prod.exists] at h
  obtain ⟨r, heap₁, hfind, hr⟩ := h
  rcases findFirstBlock_cases hstart (Nat.pos_of_ne_zero hn) hfind with
    ⟨rfl, rfl, -⟩ | ⟨k, hw, rfl, hne, rfl⟩
  · rw [if_pos (by decide)] at hr
    obtain ⟨rfl, rfl⟩ := Prod.mk.inj hr
    exact .inl ⟨rfl, rfl⟩
  · rw [if_neg (by omega)] at hr
    obtain ⟨rfl, rfl⟩ := Prod.mk.inj hr
    refine .inr ⟨k, _, hw, rfl, fun h => hne (by exact_mod_cast h), rfl, ?_⟩
    simp only [Int.toNat_natCast, Heap.mk.injEq, HeapTable.mk.injEq]
    exact ⟨⟨rfl, heapReserveBlocks_len heap _ _, by
      rw [← heapReserveBlocks_inUse heap]; rfl⟩, rfl, rfl, rfl⟩

/-- `heap_malloc` never moves the heap or its table, and writes to the table only. -/
theorem heapMalloc_keeps {fuel : Nat} {size ptr : Word}
    (h : heapMalloc fuel heap size = some (ptr, heap')) :
    heap'.baseAddr = heap.baseAddr ∧ heap'.table.len = heap.table.len ∧ heap'.mem = heap.mem := by
  by_cases hn : sizeToNblocks size.toNat = 0
  · simp only [heapMalloc, hn, if_true, Option.some.injEq, Prod.mk.injEq] at h
    obtain ⟨-, rfl⟩ := h
    exact ⟨rfl, rfl, rfl⟩
  simp only [heapMalloc, hn, if_false, heapMallocBlocks, Option.map_eq_some_iff, Prod.exists] at h
  obtain ⟨first, heap₁, hfind, h⟩ := h
  simp only [findFirstBlock, Option.map_eq_some_iff, Prod.mk.injEq] at hfind
  obtain ⟨st, -, -, rfl⟩ := hfind
  by_cases hf : first < 0
  · rw [if_pos hf] at h
    obtain ⟨-, rfl⟩ := Prod.mk.inj h
    exact ⟨rfl, rfl, rfl⟩
  · rw [if_neg hf] at h
    obtain ⟨-, rfl⟩ := Prod.mk.inj h
    exact ⟨rfl, heapReserveBlocks_len _ _ _, rfl⟩

theorem heapMalloc_base {fuel : Nat} {size ptr : Word}
    (h : heapMalloc fuel heap size = some (ptr, heap')) :
    heap'.baseAddr = heap.baseAddr ∧ heap'.table.len = heap.table.len :=
  ⟨(heapMalloc_keeps h).1, (heapMalloc_keeps h).2.1⟩

/-- The blocks of a window that ends inside the table are not taken. -/
theorem window_free {n k first : Nat} {last : Nat} {tb : HeapTable}
    (hw : Window (freeAt tb last) n k) (hf : first = (last + 1 + k) % tb.len)
    (hfit : first + n ≤ tb.len) :
    ∀ i, (Range.mk first n).Has i → blockTestTaken (tb.entries i) = false := by
  rintro i ⟨h₁, h₂⟩
  simp only at h₁ h₂
  have := hw (i - first) (by omega)
  rw [freeAt, ← Nat.add_assoc, ← Nat.mod_add_mod, ← hf, Nat.add_sub_of_le h₁,
    Nat.mod_eq_of_lt (by omega)] at this
  simpa using this

/-- What a successful `heap_malloc(size)` did: it reserved the free range `r`. -/
structure Reserved (s : HeapSession) (size ptr : Word) (heap : Heap) (r : Range) : Prop where
  n : r.n = sizeToNblocks size.toNat
  pos : 0 < r.n
  first : 0 < r.first
  fits : r.first + r.n ≤ s.heap.table.len
  free : ∀ i, r.Has i → blockTestTaken (s.heap.table.entries i) = false
  ptr : ptr = heapBlockToAddr s.heap r.first
  base : heap.baseAddr = s.heap.baseAddr
  len : heap.table.len = s.heap.table.len
  entries : ∀ i, heap.table.entries i = if r.Has i then r.entry i else s.heap.table.entries i
  inUse : heap.table.inUse = s.heap.table.inUse + BitVec.ofNat 32 r.n
  last : heap.lastAllocatedBlock + 1 = r.first + r.n

/-- A block that is not taken has entry 0. -/
theorem SessionInv.entry_free (hinv : SessionInv len s) {i : Nat} (hi : i < len)
    (hfree : blockTestTaken (s.heap.table.entries i) = false) :
    s.heap.table.entries i = HEAP_MEMORY_BLOCK_FREE := by
  obtain ⟨L, -, henc⟩ := hinv.layout
  refine henc.free i hi fun r hr hri => ?_
  rw [(henc.taken_iff hi).mpr ⟨r, hr, hri⟩] at hfree
  cases hfree

/-- A call that returns a range which ends inside the table has reserved it. -/
theorem heapMalloc_reserved {fuel : Nat} {size ptr : Word} (hinv : SessionInv len s)
    (hstart : s.heap.lastAllocatedBlock + 1 < len) (hn : sizeToNblocks size.toNat ≠ 0)
    (h : heapMalloc fuel s.heap size = some (ptr, heap'))
    (hfit : ∀ k, FirstWindow (freeAt s.heap.table s.heap.lastAllocatedBlock)
        (sizeToNblocks size.toNat) k →
      ptr = heapBlockToAddr s.heap ((s.heap.lastAllocatedBlock + 1 + k) % len) →
      (s.heap.lastAllocatedBlock + 1 + k) % len ≠ 0 →
      (s.heap.lastAllocatedBlock + 1 + k) % len + sizeToNblocks size.toNat ≤ len) :
    (ptr = 0 ∧ heap' = { s.heap with lastAllocatedBlock := 0 }) ∨
      ∃ r, Reserved s size ptr heap' r := by
  obtain rfl := hinv.tableLen
  rcases heapMalloc_cases hstart hn h with hnull | ⟨k, first, hw, hf, hne, hptr, rfl⟩
  · exact .inl hnull
  · have hfits := hfit k hw (by rw [← hf]; exact hptr) (by rw [← hf]; exact hne)
    rw [← hf] at hfits
    have hfree := window_free hw.1 hf hfits
    refine .inr ⟨⟨first, sizeToNblocks size.toNat⟩, rfl, Nat.pos_of_ne_zero hn,
      Nat.pos_of_ne_zero hne, hfits, hfree, hptr, rfl, rfl, fun i => ?_, rfl, ?_⟩
    · refine heapReserveBlocks_entries (Nat.pos_of_ne_zero hn) (fun i hi => ?_) i
      have := hi.2
      simp only at this
      exact hinv.entry_free (by omega) (hfree i hi)
    · simp only
      generalize sizeToNblocks size.toNat = n at *
      rw [show s.heap.lastAllocatedBlock + k + n =
        s.heap.lastAllocatedBlock + 1 + k + (n - 1) by omega,
        ← Nat.mod_add_mod, ← hf, Nat.mod_eq_of_lt (by omega)]
      omega

namespace Reserved

variable {size ptr : Word} {r : Range}

theorem addr (h : Reserved s size ptr heap r) (hinv : SessionInv len s) :
    ptr.toNat = s.heap.baseAddr.toNat + r.first * KERNEL_HEAP_BLOCK_SIZE := by
  obtain rfl := hinv.tableLen
  have h₁ := h.pos
  have h₂ := h.fits
  rw [h.ptr]
  exact blockToAddr_toNat hinv.region (by omega)

theorem ne_null (h : Reserved s size ptr heap r) (hinv : SessionInv len s) : ptr ≠ 0 := by
  rintro rfl
  have h₁ := h.addr hinv
  have h₂ := h.first
  unfold KERNEL_HEAP_BLOCK_SIZE at h₁
  simp at h₁
  omega

theorem in_region (h : Reserved s size ptr heap r) (hinv : SessionInv len s) :
    s.heap.baseAddr.toNat ≤ ptr.toNat ∧
      ptr.toNat + size.toNat ≤ s.heap.baseAddr.toNat + len * KERNEL_HEAP_BLOCK_SIZE := by
  obtain rfl := hinv.tableLen
  have h₁ := h.addr hinv
  have h₂ := h.fits
  have h₃ := blocks_le size.toNat
  rw [← h.n] at h₃
  unfold KERNEL_HEAP_BLOCK_SIZE at *
  omega

theorem block (h : Reserved s size ptr heap r) (hinv : SessionInv len s) :
    heapAddrToBlock s.heap ptr = r.first := by
  obtain rfl := hinv.tableLen
  have h₁ := hinv.region
  have h₂ := h.fits
  have h₃ := h.pos
  rw [h.ptr]
  refine addrToBlock_blockToAddr ?_
  unfold KERNEL_HEAP_BLOCK_SIZE at *
  omega

theorem range (h : Reserved s size ptr heap r) (hinv : SessionInv len s) :
    s.range ⟨ptr, size⟩ = r := by
  simp only [HeapSession.range, h.block hinv, ← h.n]

/-- A reservation keeps the invariant. -/
theorem inv (h : Reserved s size ptr heap r) (hinv : SessionInv len s) :
    SessionInv len ⟨heap, ⟨ptr, size⟩ :: s.live⟩ := by
  have hrange : ∀ a, HeapSession.range ⟨heap, ⟨ptr, size⟩ :: s.live⟩ a = s.range a :=
    range_congr h.base
  have hr := h.range hinv
  obtain ⟨rfl, hregion, ⟨L, hL, henc⟩, hptrs⟩ := id hinv
  refine ⟨h.len, by rw [h.base]; exact hregion,
    ⟨L.add r h.pos h.fits (henc.apart h.pos h.fits h.free), ?_, henc.reserve h.entries⟩, ?_⟩
  · simp only [Layout.add, List.map_cons, hrange, hr, hL, List.cons.injEq, true_and]
    exact List.map_congr_left fun a _ => (hrange a).symm
  · intro a ha
    rw [hrange, heapBlockToAddr, h.base]
    rcases List.mem_cons.mp ha with rfl | ha
    · rw [hr]; exact h.ptr
    · exact hptrs a ha

end Reserved

/-! ## `heap_free` -/

/-- What `heap_free` of a held pointer did: it cleared the range `r`. -/
structure Released (s : HeapSession) (heap : Heap) (r : Range) : Prop where
  base : heap.baseAddr = s.heap.baseAddr
  len : heap.table.len = s.heap.table.len
  last : heap.lastAllocatedBlock = s.heap.lastAllocatedBlock
  entries : ∀ i, heap.table.entries i =
    if r.Has i then HEAP_MEMORY_BLOCK_FREE else s.heap.table.entries i
  inUse : heap.table.inUse = s.heap.table.inUse - BitVec.ofNat 32 r.n

variable {a : Allocation}

/-- The range of a held allocation is in the layout. -/
theorem SessionInv.mem_layout {L : Layout len} (hL : L.ranges = s.live.map s.range)
    (ha : a ∈ s.live) : s.range a ∈ L.ranges := by
  rw [hL]; exact List.mem_map.mpr ⟨a, ha, rfl⟩

theorem SessionInv.first_entry (hinv : SessionInv len s) (ha : a ∈ s.live) :
    blockTestFirst (s.heap.table.entries (heapAddrToBlock s.heap a.ptr)) = true := by
  obtain ⟨L, hL, henc⟩ := hinv.layout
  have hr := SessionInv.mem_layout hL ha
  have hpos := L.nonempty _ hr
  rw [show heapAddrToBlock s.heap a.ptr = (s.range a).first from rfl,
    henc.run _ hr _ ⟨Nat.le_refl _, by omega⟩]
  simp

/-- The loop of `heap_free` ends behind the allocation, if that is inside the table. -/
theorem SessionInv.release_ends (hinv : SessionInv len s) (ha : a ∈ s.live)
    (hend : (s.range a).first + (s.range a).n < len) :
    Loop.Ends Release.goesOn Release.next ((s.range a).n - 1)
      (Release.next ⟨(s.range a).first, s.heap.table⟩) := by
  obtain ⟨L, hL, henc⟩ := hinv.layout
  have hr := SessionInv.mem_layout hL ha
  have hpos := L.nonempty _ hr
  refine ⟨fun j hj => ?_, ?_⟩
  · rw [← Function.iterate_succ_apply]
    exact release_goesOn henc hr (by omega) (by omega)
  · rw [← Function.iterate_succ_apply, release_iterate,
      show ((s.range a).n - 1).succ = (s.range a).n by omega]
    simp only [Release.goesOn]
    rw [if_neg (by omega)]
    rcases henc.stop hr hend with h | h <;> simp [h]

/-- A call that returns has cleared the allocation, if that ends before the last block. -/
theorem heapFree_released {fuel : Nat} (hinv : SessionInv len s) (ha : a ∈ s.live)
    (hend : (s.range a).first + (s.range a).n < len)
    (h : heapFree fuel s.heap a.ptr = some heap) : Released s heap (s.range a) := by
  obtain ⟨L, hL, -⟩ := hinv.layout
  have hpos := L.nonempty _ (SessionInv.mem_layout hL ha)
  have hends := hinv.release_ends ha hend
  simp only [heapFree, hinv.first_entry ha, Bool.not_true, Bool.false_eq_true, if_false,
    Option.map_eq_some_iff] at h
  obtain ⟨r, hrun, rfl⟩ := h
  obtain ⟨k, -, hends', rfl⟩ := Loop.iterate_of_run hrun
  obtain rfl : k = (s.range a).n - 1 := by
    rcases Nat.lt_trichotomy k ((s.range a).n - 1) with hlt | heq | hgt
    · have := hends.1 k hlt
      rw [show (s.range a).first = heapAddrToBlock s.heap a.ptr from rfl, hends'.2] at this
      cases this
    · exact heq
    · have := hends'.1 _ hgt
      rw [show heapAddrToBlock s.heap a.ptr = (s.range a).first from rfl, hends.2] at this
      cases this
  rw [← Function.iterate_succ_apply, release_iterate,
    show ((s.range a).n - 1).succ = (s.range a).n by omega]
  exact ⟨rfl, rfl, rfl, fun i => rfl, rfl⟩

/-- The call returns. -/
theorem heapFree_isSome {fuel : Nat} (hinv : SessionInv len s) (ha : a ∈ s.live)
    (hend : (s.range a).first + (s.range a).n < len) (hfuel : (s.range a).n ≤ fuel) :
    (heapFree fuel s.heap a.ptr).isSome := by
  have hrun := Loop.run_iterate (hinv.release_ends ha hend) (show _ ≤ fuel by omega)
  rw [show (s.range a).first = heapAddrToBlock s.heap a.ptr from rfl] at hrun
  simp only [heapFree, hinv.first_entry ha, Bool.not_true, Bool.false_eq_true, if_false, hrun,
    Option.map_some, Option.isSome_some]

/-- Among held pointers, equal first blocks mean equal pointers. -/
theorem SessionInv.first_iff (hinv : SessionInv len s) (ha : a ∈ s.live) :
    ∀ b ∈ s.live, ((s.range b).first = (s.range a).first ↔ b.ptr = a.ptr) := by
  intro b hb
  refine ⟨fun he => ?_, fun he => by simp [HeapSession.range, he]⟩
  rw [hinv.ptrs b hb, hinv.ptrs a ha, he]

/-- A release keeps the invariant. -/
theorem Released.inv (h : Released s heap (s.range a)) (hinv : SessionInv len s)
    (ha : a ∈ s.live) : SessionInv len ⟨heap, s.live.filter (·.ptr ≠ a.ptr)⟩ := by
  have hrange : ∀ b, HeapSession.range ⟨heap, s.live.filter (·.ptr ≠ a.ptr)⟩ b = s.range b :=
    range_congr h.base
  have hiff := hinv.first_iff ha
  obtain ⟨rfl, hregion, ⟨L, hL, henc⟩, hptrs⟩ := hinv
  refine ⟨h.len, by rw [h.base]; exact hregion,
    ⟨L.remove (s.range a).first, ?_, henc.release (SessionInv.mem_layout hL ha) h.entries⟩, ?_⟩
  · simp only [Layout.remove, hL, List.filter_map]
    rw [show (HeapSession.range ⟨heap, s.live.filter (·.ptr ≠ a.ptr)⟩) = s.range from
      funext hrange]
    congr 1
    refine List.filter_congr fun b hb => ?_
    simpa using hiff b hb
  · intro b hb
    rw [hrange, heapBlockToAddr, h.base]
    exact hptrs b (List.mem_filter.mp hb).1

/-! ## Whole runs -/

namespace HeapSession

/-- A call that meets the condition keeps the invariant. -/
theorem goodStep_inv {call : HeapCall} (hinv : SessionInv len s) (h : GoodStep s call t) :
    SessionInv len t := by
  obtain ⟨hmeets, hstep⟩ := h
  cases hstep with
  | @malloc fuel size ptr heap hm =>
    rcases hmeets with hn | ⟨hstart, hfit⟩
    · simp only [heapMalloc, hn, if_true, Option.some.injEq, Prod.mk.injEq] at hm
      obtain ⟨rfl, rfl⟩ := hm
      exact hinv
    · by_cases hn : sizeToNblocks size.toNat = 0
      · simp only [heapMalloc, hn, if_true, Option.some.injEq, Prod.mk.injEq] at hm
        obtain ⟨rfl, rfl⟩ := hm
        exact hinv
      · obtain rfl := hinv.tableLen
        rcases heapMalloc_reserved hinv hstart hn hm (fun k hw _ _ => hfit k hw) with
          ⟨rfl, rfl⟩ | ⟨r, hr⟩
        · exact ⟨rfl, hinv.region, hinv.layout, hinv.ptrs⟩
        · rw [if_neg (hr.ne_null hinv)]
          exact hr.inv hinv
  | @free fuel ptr heap hlive hf =>
    obtain ⟨a, ha, rfl⟩ := hlive
    have hend := hmeets a ha rfl
    rw [hinv.tableLen] at hend
    exact (heapFree_released hinv ha hend hf).inv hinv ha

/-- A search that starts inside the table reads only inside the table. -/
theorem reads_lt {heap : Heap} {n : Nat} (hstart : heap.lastAllocatedBlock + 1 < heap.table.len)
    (fuel : Nat) : ∀ i ∈ findFirstBlockReads fuel heap n, i < heap.table.len := by
  intro i hi
  obtain ⟨st, hst, rfl⟩ := List.mem_map.mp hi
  have hnext : ∀ st : Search, st.i < heap.table.len → st.goesOn = true →
      (Search.next heap.table n st).i < heap.table.len := by
    intro st _ _
    have hmod := Nat.mod_lt (st.i + 1) (show 0 < heap.table.len by omega)
    unfold Search.next
    split <;> exact hmod
  exact (Loop.visited_spec hnext hstart st hst).1

theorem malloc_safe_of_meets {size : Word} (hinv : SessionInv len s)
    (h : s.Meets (.malloc size)) : s.Safe (.malloc size) := by
  obtain rfl := hinv.tableLen
  by_cases hn : sizeToNblocks size.toNat = 0
  · refine ⟨fun fuel i hi => ?_, fun _ _ _ h => absurd hn h, fun fuel ptr heap hm hne => ?_⟩
    · have hno : (Search.start s.heap.lastAllocatedBlock 0).goesOn = false := by
        simp [Search.start, Search.goesOn]
      rw [hn, findFirstBlockReads] at hi
      cases fuel <;> simp [Loop.visited, hno] at hi
    · simp only [heapMalloc, hn, if_true, Option.some.injEq, Prod.mk.injEq] at hm
      exact absurd hm.1.symm hne
  · obtain ⟨hstart, hfit⟩ := h.resolve_left hn
    refine ⟨reads_lt hstart, fun fuel first heap _ hf h0 i hi => ?_, fun fuel ptr heap hm hne => ?_⟩
    · rcases findFirstBlock_cases hstart (Nat.pos_of_ne_zero hn) hf with
        ⟨rfl, -, -⟩ | ⟨k, hw, rfl, -, -⟩
      · exact absurd h0 (by decide)
      · have := hfit k hw
        simp only [heapReserveBlocksWrites, Int.toNat_natCast, List.mem_append, List.mem_range'_1,
          List.mem_cons, List.not_mem_nil, or_false] at hi
        omega
    · rcases heapMalloc_reserved hinv hstart hn hm (fun k hw _ _ => hfit k hw) with
        ⟨rfl, -⟩ | ⟨r, hr⟩
      · exact absurd rfl hne
      · exact hr.in_region hinv

theorem malloc_meets_of_safe {size : Word} (h : s.Safe (.malloc size)) :
    s.Meets (.malloc size) := by
  obtain ⟨hreads, hwrites, -⟩ := h
  by_cases hn : sizeToNblocks size.toNat = 0
  · exact .inl hn
  · have hgo : (Search.start s.heap.lastAllocatedBlock (sizeToNblocks size.toNat)).goesOn =
        true := by
      simp [Search.start, Search.goesOn, hn]
    have hstart : s.heap.lastAllocatedBlock + 1 < s.heap.table.len := by
      refine hreads 1 _ ?_
      rw [findFirstBlockReads, Loop.visited, if_pos hgo]
      exact List.mem_cons_self
    refine .inr ⟨hstart, fun k hw => ?_⟩
    by_contra hover
    obtain ⟨heap, hf⟩ := findFirstBlock_window hstart (Nat.pos_of_ne_zero hn) hw (by omega)
    have := hwrites _ _ _ hn hf (by omega) ((s.heap.lastAllocatedBlock + 1 + k) %
      s.heap.table.len + sizeToNblocks size.toNat - 1) (by
        rw [Int.toNat_natCast]; simp [heapReserveBlocksWrites])
    omega

theorem free_safe_iff_meets {ptr : Word} (hinv : SessionInv len s)
    (hlive : s.Legal (.free ptr)) : s.Safe (.free ptr) ↔ s.Meets (.free ptr) := by
  obtain rfl := hinv.tableLen
  obtain ⟨L, hL, henc⟩ := hinv.layout
  constructor
  · rintro h a ha rfl
    have hr := SessionInv.mem_layout hL ha
    have hpos := L.nonempty _ hr
    -- the loop runs over the whole allocation, and then looks at the entry behind it
    have hgoes : ∀ j < (s.range a).n - 1,
        Release.goesOn (Release.next^[j] (Release.next ⟨(s.range a).first, s.heap.table⟩)) =
          true := by
      intro j hj
      rw [← Function.iterate_succ_apply]
      exact release_goesOn henc hr (by omega) (by omega)
    have hmem := Loop.mem_tested hgoes (Nat.le_refl _)
    rw [← Function.iterate_succ_apply, release_iterate] at hmem
    have := h ((s.range a).n - 1) ((s.range a).first + ((s.range a).n - 1).succ) (by
      simp only [heapFreeAccesses, hinv.first_entry ha, Bool.not_true, Bool.false_eq_true,
        if_false]
      exact List.mem_cons_of_mem _ (List.mem_map.mpr ⟨_, hmem, rfl⟩))
    omega
  · intro h fuel i hi
    obtain ⟨a, ha, rfl⟩ := hlive
    have hend := h a ha rfl
    have hpos := L.nonempty _ (SessionInv.mem_layout hL ha)
    have hblock : heapAddrToBlock s.heap a.ptr = (s.range a).first := rfl
    simp only [heapFreeAccesses, hinv.first_entry ha, Bool.not_true, Bool.false_eq_true,
      if_false, List.mem_cons, List.mem_map] at hi
    rcases hi with rfl | ⟨st, hst, rfl⟩
    · omega
    · obtain ⟨j, hj, rfl⟩ := Loop.tested_of_ends (hinv.release_ends ha hend) hst
      rw [← Function.iterate_succ_apply, release_iterate]
      simp only
      omega

/-- In every state that calls which meet the condition reach, the next call accesses the table
only inside its bounds, and returns a range inside the heap, exactly if it meets the condition
too. -/
theorem runs_safe_iff {mem : Memory} {ptr endAddr : Word} {table : HeapTable} {heap : Heap}
    (hc : heapCreate mem ptr endAddr table = .ok heap) (hr : ptr.toNat ≤ endAddr.toNat)
    {calls : List HeapCall} {s : HeapSession} (hrun : Runs GoodStep ⟨heap, []⟩ calls s)
    {call : HeapCall} (hlegal : s.Legal call) : s.Safe call ↔ s.Meets call := by
  have hinv : SessionInv heap.table.len s :=
    hrun.invariant (fun _ _ _ hs hstep => goodStep_inv hs hstep) (heapCreate_inv hc hr)
  cases call with
  | malloc size => exact ⟨malloc_meets_of_safe, malloc_safe_of_meets hinv⟩
  | free ptr => exact free_safe_iff_meets hinv hlegal

/-- A table of four blocks, with one allocation made. -/
theorem runs_safe_iff_one_malloc :
    ∃ heap s, heapCreate (fun _ => 0) 0x1000 0x5000 ⟨fun _ => 0, 4, 0⟩ = .ok heap ∧
      Runs GoodStep ⟨heap, []⟩ [.malloc 1] s ∧
      (s.Safe (.malloc 5000) ↔ s.Meets (.malloc 5000)) := by
  have hmeets : HeapSession.Meets ⟨⟨⟨fun i => if i < 4 then 0 else 0, 4, 0⟩, 0x1000, 0,
      fun _ => 0⟩, []⟩ (.malloc 1) := by
    refine .inr ⟨by decide, fun k hw => ?_⟩
    have h0 : FirstWindow (freeAt ⟨fun i => if i < 4 then 0 else 0, 4, 0⟩ 0) 1 0 :=
      ⟨fun i hi => by obtain rfl : i = 0 := (by omega); decide, by omega⟩
    obtain rfl := hw.unique h0
    decide
  have hrun : Runs GoodStep _ [.malloc 1] _ := .cons ⟨hmeets, @Step.malloc _ 1 _ _ _ rfl⟩ (.nil _)
  refine ⟨_, _, rfl, hrun, ?_⟩
  exact @runs_safe_iff (fun _ => 0) 0x1000 0x5000 ⟨fun _ => 0, 4, 0⟩ _ rfl (by decide) _ _ hrun
    (.malloc 5000) trivial

/-- On a table of two blocks the second `heap_malloc(1)` reads entry 2. -/
theorem runs_unsafe :
    ¬ ∀ (mem : Memory) (ptr endAddr : Word) (table : HeapTable) (heap : Heap),
      heapCreate mem ptr endAddr table = .ok heap → 2 ≤ heap.table.len →
      ptr.toNat ≤ endAddr.toNat → ∀ calls s, Runs Step ⟨heap, []⟩ calls s →
      ∀ call, s.Legal call → s.Safe call := by
  intro h
  have hsafe := h (fun _ => 0) 0x1000 0x3000 ⟨fun _ => 0, 2, 0⟩ _ rfl (by decide) (by decide)
    [.malloc 1] _ (.cons (@Step.malloc _ 1 _ _ _ rfl) (.nil _)) (.malloc 1) trivial
  exact absurd (hsafe.1 1 2 (by decide)) (by decide)

end HeapSession

end AvocadOS
