import AvocadOS.Heap.Complete
import AvocadOS.String.Memset

/-!
# Frees that are rejected

`heap_free` of an address that is not the start of an allocation returns without touching the table:
only the first block of an allocation has the `IS_FIRST` bit. But it has already overwritten the
block with 0xFF bytes, before it looks at the bit.

* `heapFree_rejected`: what the overwriting does to memory;
* `HeapSession.FirstLive`: only held allocations have an `IS_FIRST` bit, along every run;
* `HeapSession.runs_free_rejected_iff`: when a rejected free is harmless.
-/

namespace AvocadOS

/-! ## The overwritten block -/

/-- A call that is rejected overwrites the block. -/
theorem heapFree_rejected {heap : Heap} {ptr : Word} (fuel : Nat)
    (h : blockTestFirst (heap.table.entries (heapAddrToBlock heap ptr)) = false) :
    ∃ mem, heapFree fuel heap ptr = some { heap with mem := mem } ∧
      ∀ x, mem x = if (x - ptr).toNat < KERNEL_HEAP_BLOCK_SIZE then 0xFF else heap.mem x := by
  refine ⟨memset heap.mem ptr 0xFF KERNEL_HEAP_BLOCK_SIZE, ?_, fun x => ?_⟩
  · simp only [heapFree]
    exact if_pos (by rw [h]; rfl)
  · exact (memset_fills heap.mem ptr 0xFF 4096 (.inr (.inr rfl))) x

/-! ## The first bit -/

theorem blockTestFirst_reserved (b : HeapTableEntry) :
    blockTestFirst (blockSetNext (blockSetNotFirst (blockSetTaken b))) = false := by
  revert b
  decide

theorem blockTestFirst_setNoNext (b : HeapTableEntry) :
    blockTestFirst (blockSetNoNext b) = blockTestFirst b := by
  revert b
  decide

/-- A reservation gives the bit to its first block and takes it from the others. -/
theorem heapReserveBlocks_first {heap : Heap} {first n i : Nat} (hi : i ≠ first)
    (h : blockTestFirst ((heapReserveBlocks heap first n).table.entries i) = true) :
    blockTestFirst (heap.table.entries i) = true := by
  obtain ⟨-, -, he⟩ := foldl_modify
    (fun b => blockSetNext (blockSetNotFirst (blockSetTaken b))) n first heap.table
    (fun t j => ((t.modify j blockSetTaken).modify j blockSetNotFirst).modify j blockSetNext)
    (fun t j => by simp [HeapTable.modify])
  simp only [heapReserveBlocks, modify_entries, he, if_neg hi] at h
  have hinner : blockTestFirst (if first ≤ i ∧ i < first + n then
      blockSetNext (blockSetNotFirst (blockSetTaken (heap.table.entries i)))
      else heap.table.entries i) = true := by
    split at h
    · rwa [blockTestFirst_setNoNext] at h
    · exact h
  split at hinner
  · rw [blockTestFirst_reserved] at hinner
    cases hinner
  · exact hinner

/-- Block 0 is never handed out: after a taken block the search ends at index 0. -/
def Search.FoundPos (s : Search) : Prop :=
  0 < s.foundBlock ∨ s.foundBlock = -1 ∧ (s.last = 0 ∨ 0 < s.i)

theorem Search.FoundPos.next {t : HeapTable} {nBlocks : Nat} {s : Search} (h : s.FoundPos)
    (hgoes : s.goesOn = true) : (s.next t nBlocks).FoundPos := by
  simp only [Search.goesOn, Bool.and_eq_true, bne_iff_ne, ne_eq] at hgoes
  unfold Search.next
  split
  · exact .inr ⟨rfl, .inl rfl⟩
  · rcases h with hpos | ⟨hnone, hi⟩
    · have hne : ¬ s.foundBlock = -1 := by omega
      exact .inl (by simpa [hne] using hpos)
    · refine .inl ?_
      simp only [hnone, beq_self_eq_true, if_true]
      omega

theorem findFirstBlock_pos {fuel nBlocks : Nat} {heap heap' : Heap} {r : Int}
    (h : findFirstBlock fuel heap nBlocks = some (r, heap')) (hr : 0 ≤ r) :
    0 < r ∧ heap' = { heap with lastAllocatedBlock := heap'.lastAllocatedBlock } := by
  obtain ⟨s, hrun, hs⟩ := Option.map_eq_some_iff.mp h
  obtain ⟨rfl, rfl⟩ := Prod.mk.inj hs
  refine ⟨?_, rfl⟩
  have hpos : s.FoundPos := Loop.run_spec (fun s hs hgoes => hs.next hgoes)
    (show (Search.start heap.lastAllocatedBlock nBlocks).FoundPos from
      .inr ⟨rfl, .inr (Nat.succ_pos _)⟩) hrun
  by_cases hleft : s.remainingBlocks ≠ 0
  · rw [if_pos hleft] at hr
    exact absurd hr (by decide)
  · rw [if_neg hleft] at hr ⊢
    rcases hpos with hpos | ⟨hnone, -⟩
    · exact hpos
    · omega

/-! ## Whole runs -/

/-- The byte at `x` belongs to the allocation. -/
def Allocation.HasByte (a : Allocation) (x : Word) : Prop := (x - a.ptr).toNat < a.size.toNat

namespace HeapSession

/-- Only the first blocks of held allocations have the bit. -/
structure FirstLive (s : HeapSession) : Prop where
  region : s.heap.baseAddr.toNat + s.heap.table.len * KERNEL_HEAP_BLOCK_SIZE ≤ 2 ^ 32
  live : ∀ b < s.heap.table.len, blockTestFirst (s.heap.table.entries b) = true →
    ∃ a ∈ s.live, a.ptr = heapBlockToAddr s.heap b

variable {s t : HeapSession}

/-- What `heap_malloc` does to the bits. -/
theorem heapMalloc_first {fuel : Nat} {size ptr : Word} {heap heap' : Heap}
    (h : heapMalloc fuel heap size = some (ptr, heap')) :
    (ptr = 0 ∧ heap'.table = heap.table) ∨
      ∃ first, 0 < first ∧ ptr = heapBlockToAddr heap first ∧
        ∀ i ≠ first, blockTestFirst (heap'.table.entries i) = true →
          blockTestFirst (heap.table.entries i) = true := by
  by_cases hn : sizeToNblocks size.toNat = 0
  · simp only [heapMalloc, hn, if_true, Option.some.injEq, Prod.mk.injEq] at h
    obtain ⟨rfl, rfl⟩ := h
    exact .inl ⟨rfl, rfl⟩
  simp only [heapMalloc, hn, if_false, heapMallocBlocks, Option.map_eq_some_iff, Prod.exists] at h
  obtain ⟨r, heap₁, hfind, h⟩ := h
  by_cases hr : r < 0
  · rw [if_pos hr] at h
    obtain ⟨rfl, rfl⟩ := Prod.mk.inj h
    obtain ⟨st, -, hst⟩ := Option.map_eq_some_iff.mp hfind
    obtain ⟨-, rfl⟩ := Prod.mk.inj hst
    exact .inl ⟨rfl, rfl⟩
  · obtain ⟨hpos, hheap⟩ := findFirstBlock_pos hfind (by omega)
    rw [if_neg hr] at h
    obtain ⟨rfl, rfl⟩ := Prod.mk.inj h
    refine .inr ⟨r.toNat, by omega, ?_, fun i hi hfirst => ?_⟩
    · rw [hheap]
      rfl
    · have := heapReserveBlocks_first hi hfirst
      rwa [hheap] at this

/-- What `heap_free` does to the bits. -/
theorem heapFree_first {fuel : Nat} {ptr : Word} {heap heap' : Heap}
    (h : heapFree fuel heap ptr = some heap') :
    ∀ i, blockTestFirst (heap'.table.entries i) = true →
      blockTestFirst (heap.table.entries i) = true ∧ i ≠ heapAddrToBlock heap ptr := by
  intro i hi
  simp only [heapFree] at h
  split at h
  · next hno =>
    cases h
    refine ⟨hi, ?_⟩
    rintro rfl
    simp only [Bool.not_eq_true'] at hno
    rw [show heapAddrToBlock _ ptr = heapAddrToBlock heap ptr from rfl] at hno
    exact absurd (hi.symm.trans hno) (by decide)
  · obtain ⟨r, hrun, rfl⟩ := Option.map_eq_some_iff.mp h
    obtain ⟨k, -, -, rfl⟩ := Loop.iterate_of_run hrun
    rw [← Function.iterate_succ_apply, release_iterate] at hi
    simp only at hi
    split at hi
    · cases hi
    · next hout =>
      refine ⟨hi, ?_⟩
      rintro rfl
      exact hout ⟨Nat.le_refl _, Nat.lt_add_of_pos_right (Nat.succ_pos k)⟩

theorem step_firstLive {call : HeapCall} (hs : s.FirstLive) (h : Step s call t) : t.FirstLive := by
  obtain ⟨hbase, hlen⟩ := step_base h
  refine ⟨by rw [hbase, hlen]; exact hs.region, fun b hb hfirst => ?_⟩
  rw [hlen] at hb
  have haddr : heapBlockToAddr t.heap b = heapBlockToAddr s.heap b := by
    rw [heapBlockToAddr, heapBlockToAddr, hbase]
  rw [haddr]
  cases h with
  | @malloc fuel size ptr heap hm =>
    rcases heapMalloc_first hm with ⟨rfl, htable⟩ | ⟨first, hpos, hptr, hbits⟩
    · rw [if_pos rfl]
      rw [htable] at hfirst
      exact hs.live b hb hfirst
    · by_cases hb' : b = first
      · subst hb'
        have hne : ptr ≠ 0 := by
          intro hnull
          have htoNat := blockToAddr_toNat hs.region hb
          rw [← hptr, hnull] at htoNat
          unfold KERNEL_HEAP_BLOCK_SIZE at htoNat
          simp at htoNat
          omega
        rw [if_neg hne]
        exact ⟨_, List.mem_cons_self, hptr⟩
      · obtain ⟨a, ha, hap⟩ := hs.live b hb (hbits b hb' hfirst)
        refine ⟨a, ?_, hap⟩
        split
        · exact ha
        · exact List.mem_cons_of_mem _ ha
  | @free fuel ptr heap hlive hf =>
    obtain ⟨hold, hne⟩ := heapFree_first hf b hfirst
    obtain ⟨a, ha, hap⟩ := hs.live b hb hold
    refine ⟨a, List.mem_filter.mpr ⟨ha, ?_⟩, hap⟩
    simp only [ne_eq, decide_not, Bool.not_eq_true', decide_eq_false_iff_not]
    rintro rfl
    have hregion := hs.region
    refine hne ?_
    rw [hap, addrToBlock_blockToAddr]
    unfold KERNEL_HEAP_BLOCK_SIZE at *
    omega

theorem runs_firstLive {mem : Memory} {ptr endAddr : Word} {table : HeapTable} {heap : Heap}
    (hc : heapCreate mem ptr endAddr table = .ok heap) (hr : ptr.toNat ≤ endAddr.toNat)
    {calls : List HeapCall} (hrun : Runs Step ⟨heap, []⟩ calls s) : s.FirstLive := by
  refine hrun.invariant (fun _ _ _ hs hstep => step_firstLive hs hstep)
    ⟨(heapCreate_inv hc hr).region, fun b hb hfirst => ?_⟩
  obtain ⟨-, rfl⟩ := heapCreate_eq hc
  simp only at hb hfirst
  rw [if_pos hb] at hfirst
  cases hfirst

/-- In every state that a run reaches, whatever the clients have written to memory: `heap_free` of a
block that is no start of a held allocation leaves the table and the bytes of the held allocations as
they are, if and only if it finds only bytes 0xFF of them in that block. -/
theorem runs_free_rejected_iff {mem : Memory} {ptr endAddr : Word} {table : HeapTable} {heap : Heap}
    (hc : heapCreate mem ptr endAddr table = .ok heap) (hr : ptr.toNat ≤ endAddr.toNat)
    {calls : List HeapCall} (hrun : Runs Step ⟨heap, []⟩ calls s) {b : Nat}
    (hb : b < s.heap.table.len) (hno : ∀ a ∈ s.live, a.ptr ≠ heapBlockToAddr s.heap b)
    (written : Memory) (fuel : Nat) :
    (∃ heap', heapFree fuel { s.heap with mem := written } (heapBlockToAddr s.heap b) = some heap' ∧
        heap'.table = s.heap.table ∧
        ∀ a ∈ s.live, ∀ x, a.HasByte x → heap'.mem x = written x) ↔
      ∀ a ∈ s.live, ∀ x, a.HasByte x →
        (x - heapBlockToAddr s.heap b).toNat < KERNEL_HEAP_BLOCK_SIZE → written x = 0xFF := by
  have hfirst := runs_firstLive hc hr hrun
  have hregion := hfirst.region
  have hblock : heapAddrToBlock { s.heap with mem := written } (heapBlockToAddr s.heap b) = b := by
    refine @addrToBlock_blockToAddr { s.heap with mem := written } b ?_
    unfold KERNEL_HEAP_BLOCK_SIZE at *
    omega
  have hrejected : blockTestFirst (s.heap.table.entries b) = false := by
    by_contra hbit
    obtain ⟨a, ha, hap⟩ := hfirst.live b hb (by simpa using hbit)
    exact hno a ha hap
  obtain ⟨poisoned, hfree, hmem⟩ := @heapFree_rejected { s.heap with mem := written }
    (heapBlockToAddr s.heap b) fuel (by rw [hblock]; exact hrejected)
  rw [hfree]
  constructor
  · rintro ⟨heap', hsome, -, hbytes⟩ a ha x hx hin
    cases hsome
    have hkept := (hmem x).symm.trans (hbytes a ha x hx)
    rw [if_pos hin] at hkept
    exact hkept.symm
  · intro hbytes
    refine ⟨_, rfl, rfl, fun a ha x hx => (hmem x).trans ?_⟩
    split
    · next hin => exact (hbytes a ha x hx hin).symm
    · rfl

/-- The state after `heap_malloc(5000)`: blocks 1 and 2 of four are held. -/
theorem runs_fourBlocks : ∃ s, Runs Step fourBlocks [.malloc 5000] s ∧ s.live = [⟨0x2000, 5000⟩] ∧
    s.heap.table.len = 4 ∧ s.heap.baseAddr = 0x1000 ∧ (s.heap.mem = fun _ => 0) ∧
    blockTestFirst (s.heap.table.entries 2) = false :=
  ⟨_, .cons (@Step.malloc _ 2 _ _ _ rfl) (.nil _), rfl, rfl, rfl, rfl, by decide⟩

/-- Block 3, which was never handed out, is freed without harm. -/
theorem runs_free_rejected_iff_fourBlocks : ∃ s heap', Runs Step fourBlocks [.malloc 5000] s ∧
    heapFree 0 s.heap 0x4000 = some heap' ∧ heap'.table = s.heap.table ∧
    ∀ a ∈ s.live, ∀ x, a.HasByte x → heap'.mem x = s.heap.mem x := by
  obtain ⟨s, hrun, hlive, hlen, hbase, -, -⟩ := runs_fourBlocks
  have haddr : heapBlockToAddr s.heap 3 = 0x4000 := by
    rw [heapBlockToAddr, hbase]
    rfl
  have hiff := @runs_free_rejected_iff s (fun _ => 0) 0x1000 0x5000 ⟨fun _ => 0, 4, 0⟩ _ rfl
    (by decide) _ hrun 3 (by rw [hlen]; decide) (by rw [hlive, haddr]; decide) s.heap.mem 0
  rw [haddr] at hiff
  obtain ⟨heap', hfree, htable, hbytes⟩ := hiff.mpr (by
    rw [hlive]
    intro a ha x hx hin
    obtain rfl := List.mem_singleton.mp ha
    simp only [Allocation.HasByte, KERNEL_HEAP_BLOCK_SIZE, BitVec.toNat_sub] at hx hin
    have h₁ : (0x2000 : Word).toNat = 0x2000 := rfl
    have h₂ : (0x4000 : Word).toNat = 0x4000 := rfl
    have h₃ : (5000 : Word).toNat = 5000 := rfl
    omega)
  exact ⟨s, heap', hrun, hfree, htable, hbytes⟩

/-- A pointer into the middle of the allocation is rejected, and its block is overwritten. -/
theorem free_poisons_live : ∃ s heap' a, Runs Step fourBlocks [.malloc 5000] s ∧ a ∈ s.live ∧
    heapFree 0 s.heap 0x3000 = some heap' ∧ (∀ a ∈ s.live, a.ptr ≠ 0x3000) ∧
    a.HasByte 0x3000 ∧ heap'.mem 0x3000 ≠ s.heap.mem 0x3000 := by
  obtain ⟨s, hrun, hlive, -, hbase, hzero, hfirst⟩ := runs_fourBlocks
  have hblock : heapAddrToBlock s.heap 0x3000 = 2 := by
    rw [heapAddrToBlock, hbase]
    rfl
  obtain ⟨mem, hfree, hmem⟩ := @heapFree_rejected s.heap 0x3000 0 (by rw [hblock]; exact hfirst)
  refine ⟨s, _, ⟨0x2000, 5000⟩, hrun, by rw [hlive]; exact List.mem_singleton_self _, hfree,
    by rw [hlive]; decide, ?_, ?_⟩
  · show (0x3000 - 0x2000 : Word).toNat < (5000 : Word).toNat
    decide
  · show mem 0x3000 ≠ s.heap.mem 0x3000
    rw [hmem, hzero]
    decide

end HeapSession

end AvocadOS
