import AvocadOS.Heap.Runs
import Mathlib.Algebra.BigOperators.Group.List.Basic
import Mathlib.Order.Interval.Finset.Nat

/-!
# The table is the encoding of the live allocations

`heap_free` finds the end of an allocation from the bits of the entry behind it, so the last block
of the table must not be handed out. In every run in which it is not (`InnerStep`), the table is
at all times the encoding of the held allocations (`Represented`), `in_use` counts their blocks,
and `heap_free` undoes `heap_malloc`.

* `Layout.card_taken`: the ranges of a layout cover as many blocks as their lengths add up to;
* `innerStep_inv`: a step keeps the invariant `InnerInv`;
* `runs_represented`: what holds in every state of every such run, for a region that does not wrap
  around the address space;
* `null_block_reserved`: and what happens in one that does.
-/

namespace AvocadOS

open Scan

/-! ## Counting the blocks of a layout -/

namespace Layout

variable {len : Nat}

/-- The blocks of the live allocations. -/
def total (L : Layout len) : Nat := (L.ranges.map (·.n)).sum

theorem card_has {r : Range} (h : r.first + r.n ≤ len) :
    ((Finset.range len).filter r.Has).card = r.n := by
  rw [show (Finset.range len).filter r.Has = Finset.Ico r.first (r.first + r.n) from ?_,
    Nat.card_Ico, Nat.add_sub_cancel_left]
  ext i
  simp only [Finset.mem_filter, Finset.mem_range, Range.Has, Finset.mem_Ico]
  omega

theorem card_any_has {rs : List Range} (hin : ∀ r ∈ rs, r.first + r.n ≤ len)
    (hap : rs.Pairwise Range.Apart) :
    ((Finset.range len).filter fun i => ∃ r ∈ rs, r.Has i).card = (rs.map (·.n)).sum := by
  induction rs with
  | nil => simp
  | cons r rs ih =>
    obtain ⟨hr, hrs⟩ := List.pairwise_cons.mp hap
    have hdisj : Disjoint ((Finset.range len).filter r.Has)
        ((Finset.range len).filter fun i => ∃ s ∈ rs, s.Has i) := by
      refine Finset.disjoint_filter.mpr fun i _ hi => ?_
      rintro ⟨s, hs, hsi⟩
      have := hr s hs
      unfold Range.Apart at this
      unfold Range.Has at hi hsi
      omega
    simp only [List.mem_cons, exists_eq_or_imp, Finset.filter_or]
    rw [Finset.card_union_of_disjoint hdisj, card_has (hin r List.mem_cons_self),
      ih (fun s hs => hin s (List.mem_cons_of_mem _ hs)) hrs]
    rfl

/-- The taken entries of an encoded table are the blocks of its layout. -/
theorem card_taken {L : Layout len} {entries : Nat → HeapTableEntry} (h : Encodes entries L) :
    ((List.range len).filter fun i => blockTestTaken (entries i)).length = L.total := by
  have hcard : ((List.range len).filter fun i => blockTestTaken (entries i)).length =
      ((Finset.range len).filter fun i => blockTestTaken (entries i) = true).card := by
    rw [Finset.card, Finset.filter_val, Finset.range_val, Multiset.range, Multiset.filter_coe,
      Multiset.coe_card]
    simp
  rw [hcard, Finset.filter_congr fun i hi => h.taken_iff (Finset.mem_range.mp hi)]
  exact card_any_has L.inside L.apart

theorem total_le (L : Layout len) : L.total ≤ len := by
  rw [total, ← card_any_has L.inside L.apart]
  exact (Finset.card_filter_le _ _).trans_eq (Finset.card_range len)

/-- A removed range takes its blocks along. -/
theorem total_remove {L : Layout len} {r : Range} (hr : r ∈ L.ranges) :
    (L.remove r.first).total + r.n = L.total := by
  have hfirst : ∀ s ∈ L.ranges, s.first = r.first → s = r := fun s hs => eq_of_first hs hr
  have hpos := L.nonempty
  have hap := L.apart
  simp only [total, remove]
  generalize L.ranges = rs at *
  induction rs with
  | nil => simp at hr
  | cons s rs ih =>
    obtain ⟨hs, hrs⟩ := List.pairwise_cons.mp hap
    by_cases heq : s.first = r.first
    · -- the ranges behind `r` start elsewhere, or they would share its first block
      obtain rfl := hfirst s List.mem_cons_self heq
      have hrest : ∀ t ∈ rs, t.first ≠ s.first := by
        intro t ht h
        have h₁ := hs t ht
        have h₂ := hpos t (List.mem_cons_of_mem _ ht)
        have h₃ := hpos s List.mem_cons_self
        unfold Range.Apart at h₁
        omega
      rw [List.filter_cons_of_neg (by simp), List.filter_eq_self.mpr (by simpa using hrest)]
      simp only [List.map_cons, List.sum_cons]
      omega
    · have hr' : r ∈ rs := by
        rcases List.mem_cons.mp hr with rfl | h
        · exact absurd rfl heq
        · exact h
      have := ih hr' (fun t ht => hfirst t (List.mem_cons_of_mem _ ht))
        (fun t ht => hpos t (List.mem_cons_of_mem _ ht)) hrs
      rw [List.filter_cons_of_pos (by simpa using heq)]
      simp only [List.map_cons, List.sum_cons]
      omega

end Layout

namespace HeapSession

/-! ## The invariant of the runs that spare the last block -/

/-- A call that returns, after which every held range ends before the last block. -/
def InnerStep (s : HeapSession) (call : HeapCall) (t : HeapSession) : Prop :=
  Step s call t ∧ ∀ a ∈ t.live, (t.range a).first + (t.range a).n < t.heap.table.len

/-- The blocks that the clients hold. -/
def held (s : HeapSession) : Nat := (s.live.map fun a => sizeToNblocks a.size.toNat).sum

structure InnerInv (len : Nat) (s : HeapSession) : Prop extends SessionInv len s where
  start : s.heap.lastAllocatedBlock + 1 < len
  inner : ∀ a ∈ s.live, (s.range a).first + (s.range a).n < len
  inUse : s.heap.table.inUse = BitVec.ofNat 32 s.held

variable {len : Nat} {s t : HeapSession} {heap : Heap} {a : Allocation}

theorem held_eq_total {L : Layout len} (hL : L.ranges = s.live.map s.range) :
    s.held = L.total := by
  rw [held, Layout.total, hL, List.map_map]
  rfl

/-- What is held after a release. -/
theorem InnerInv.held_release (hinv : InnerInv len s) (ha : a ∈ s.live) (heap : Heap) :
    held ⟨heap, s.live.filter (·.ptr ≠ a.ptr)⟩ + (s.range a).n = s.held := by
  obtain ⟨L, hL, -⟩ := hinv.layout
  have hiff := hinv.toSessionInv.first_iff ha
  have hfilter : s.live.filter (·.ptr ≠ a.ptr) =
      s.live.filter fun b => (s.range b).first ≠ (s.range a).first :=
    List.filter_congr fun b hb => by simpa using (hiff b hb).symm
  rw [held_eq_total hL, ← Layout.total_remove (SessionInv.mem_layout hL ha), held, Layout.total]
  simp only [Layout.remove, hL, List.filter_map, List.map_map, hfilter]
  rfl

theorem InnerInv.create {mem : Memory} {ptr endAddr : Word} {table : HeapTable}
    (hc : heapCreate mem ptr endAddr table = .ok heap) (hr : ptr.toNat ≤ endAddr.toNat)
    (huse : table.inUse = 0) (hlen : 2 ≤ heap.table.len) :
    InnerInv heap.table.len ⟨heap, []⟩ := by
  obtain ⟨-, rfl⟩ := heapCreate_eq hc
  exact ⟨heapCreate_inv hc hr, hlen, by simp, huse⟩

/-- A `heap_malloc` that returns a range before the last block has reserved it. -/
theorem InnerInv.malloc_cases {fuel : Nat} {size ptr : Word} (hinv : InnerInv len s)
    (h : heapMalloc fuel s.heap size = some (ptr, heap))
    (hinner : ptr ≠ 0 → heapAddrToBlock s.heap ptr + sizeToNblocks size.toNat < len) :
    (ptr = 0 ∧ heap.table = s.heap.table ∧ heap.baseAddr = s.heap.baseAddr ∧
        heap.lastAllocatedBlock + 1 < len) ∨
      ∃ r, Reserved s size ptr heap r ∧ r.first + r.n < len := by
  have hstart := hinv.start
  by_cases hn : sizeToNblocks size.toNat = 0
  · simp only [heapMalloc, hn, if_true, Option.some.injEq, Prod.mk.injEq] at h
    obtain ⟨rfl, rfl⟩ := h
    exact .inl ⟨rfl, rfl, rfl, hstart⟩
  have hfit : ∀ b, b < len → b ≠ 0 → ptr = heapBlockToAddr s.heap b →
      b + sizeToNblocks size.toNat < len := by
    intro b hb hne hptr
    have haddr := blockToAddr_toNat hinv.region hb
    have hregion := hinv.region
    have hblock := @addrToBlock_blockToAddr s.heap b (by
      unfold KERNEL_HEAP_BLOCK_SIZE at *; omega)
    rw [← hptr] at haddr hblock
    rw [← hblock]
    refine hinner fun h0 => ?_
    rw [h0] at haddr
    unfold KERNEL_HEAP_BLOCK_SIZE at haddr
    simp at haddr
    omega
  have hmod : ∀ k, (s.heap.lastAllocatedBlock + 1 + k) % len < len :=
    fun k => Nat.mod_lt _ (by omega)
  rcases heapMalloc_reserved hinv.toSessionInv hstart hn h
    (fun k _ hptr hne => (hfit _ (hmod k) hne hptr).le) with ⟨rfl, rfl⟩ | ⟨r, hr⟩
  · exact .inl ⟨rfl, rfl, rfl, by simp only; omega⟩
  · refine .inr ⟨r, hr, ?_⟩
    have h₁ := hr.block hinv.toSessionInv
    have h₂ := hinner (hr.ne_null hinv.toSessionInv)
    rw [h₁, ← hr.n] at h₂
    exact h₂

/-- A step keeps the invariant. -/
theorem innerStep_inv {call : HeapCall} (hinv : InnerInv len s) (h : InnerStep s call t) :
    InnerInv len t := by
  obtain ⟨hstep, hinner⟩ := h
  cases hstep with
  | @malloc fuel size ptr heap hm =>
    have hnew : ptr ≠ 0 → heapAddrToBlock s.heap ptr + sizeToNblocks size.toNat < len := by
      intro hne
      have hb := heapMalloc_base hm
      have := hinner ⟨ptr, size⟩ (by rw [if_neg hne]; exact List.mem_cons_self)
      simp only [HeapSession.range, heapAddrToBlock, hb.1, hb.2, hinv.tableLen] at this
      exact this
    rcases hinv.malloc_cases hm hnew with ⟨rfl, htable, hbase, hstart⟩ | ⟨r, hr, hend⟩
    · have hrange := range_congr (t := ⟨heap, s.live⟩) hbase
      simp only [if_true]
      refine ⟨⟨by rw [htable]; exact hinv.tableLen, by rw [hbase]; exact hinv.region, ?_, ?_⟩,
        hstart, ?_, by rw [htable]; exact hinv.inUse⟩
      · rw [htable, show HeapSession.range ⟨heap, s.live⟩ = s.range from funext hrange]
        exact hinv.layout
      · intro a ha
        rw [hrange, heapBlockToAddr, hbase]
        exact hinv.ptrs a ha
      · intro a ha
        rw [hrange]
        exact hinv.inner a ha
    · rw [if_neg (hr.ne_null hinv.toSessionInv)] at hinner ⊢
      refine ⟨hr.inv hinv.toSessionInv, ?_, ?_, ?_⟩
      · rw [hr.last]; exact hend
      · intro a ha
        have := hinner a ha
        rw [hr.len, hinv.tableLen] at this
        exact this
      · rw [hr.inUse, hinv.inUse, hr.n, ← BitVec.ofNat_add, Nat.add_comm]
        rfl
  | @free fuel ptr heap hlive hf =>
    obtain ⟨a, ha, rfl⟩ := hlive
    have hrel := heapFree_released hinv.toSessionInv ha (hinv.inner a ha) hf
    refine ⟨hrel.inv hinv.toSessionInv ha, by rw [hrel.last]; exact hinv.start, ?_, ?_⟩
    · intro b hb
      have := hinner b hb
      rw [hrel.len, hinv.tableLen] at this
      exact this
    · have hheld := hinv.held_release ha heap
      rw [hrel.inUse, hinv.inUse, ← hheld, BitVec.ofNat_add, BitVec.add_sub_cancel]

/-! ## What the invariant says of the table -/

/-- The table is the encoding of the held allocations. -/
structure Represented (s : HeapSession) : Prop where
  taken : ∀ a ∈ s.live, ∀ i, (s.range a).Has i → blockTestTaken (s.heap.table.entries i) = true
  first : ∀ a ∈ s.live, ∀ i, (s.range a).Has i →
    (blockTestFirst (s.heap.table.entries i) = true ↔ i = (s.range a).first)
  next : ∀ a ∈ s.live, ∀ i, (s.range a).Has i →
    (blockTestHasNext (s.heap.table.entries i) = true ↔ i + 1 ≠ (s.range a).first + (s.range a).n)
  rest : ∀ i < s.heap.table.len, (∀ a ∈ s.live, ¬ (s.range a).Has i) → s.heap.table.entries i = 0
  inside : ∀ a ∈ s.live, 0 < (s.range a).n ∧ (s.range a).first + (s.range a).n ≤ s.heap.table.len
  apart : (s.live.map s.range).Pairwise Range.Apart
  counted : s.heap.table.inUse.toNat = countUsedBlocks s.heap
  summed : s.heap.table.inUse.toNat = s.held

theorem InnerInv.represented (hinv : InnerInv len s) : Represented s := by
  have huse := hinv.inUse
  obtain ⟨L, hL, henc⟩ := hinv.layout
  obtain rfl := hinv.tableLen
  have hmem : ∀ a ∈ s.live, s.range a ∈ L.ranges := fun a ha => SessionInv.mem_layout hL ha
  have hheld : s.heap.table.inUse.toNat = s.held := by
    have h₁ := L.total_le
    have h₂ := hinv.region
    rw [← held_eq_total hL] at h₁
    rw [huse, BitVec.toNat_ofNat, Nat.mod_eq_of_lt]
    unfold KERNEL_HEAP_BLOCK_SIZE at h₂
    omega
  refine ⟨fun a ha i hi => ?_, fun a ha i hi => ?_, fun a ha i hi => ?_, fun i hi hno => ?_,
    fun a ha => ⟨L.nonempty _ (hmem a ha), L.inside _ (hmem a ha)⟩, hL ▸ L.apart, ?_, hheld⟩
  · rw [henc.run _ (hmem a ha) i hi, Range.entry_taken]
  · rw [henc.run _ (hmem a ha) i hi, Range.entry_first, decide_eq_true_eq]
  · rw [henc.run _ (hmem a ha) i hi, Range.entry_hasNext, decide_eq_true_eq]
  · refine henc.free i hi fun r hr => ?_
    rw [hL] at hr
    obtain ⟨a, ha, rfl⟩ := List.mem_map.mp hr
    exact hno a ha
  · rw [hheld, held_eq_total hL, countUsedBlocks, Layout.card_taken henc]

/-- `heap_free` of a held pointer returns, and clears its entries and no others. -/
theorem InnerInv.free_clears (hinv : InnerInv len s) (ha : a ∈ s.live) {fuel : Nat}
    (hfuel : (s.range a).n ≤ fuel) :
    ∃ heap, heapFree fuel s.heap a.ptr = some heap ∧ Released s heap (s.range a) := by
  obtain ⟨heap, hf⟩ := Option.isSome_iff_exists.mp
    (heapFree_isSome hinv.toSessionInv ha (hinv.inner a ha) hfuel)
  exact ⟨heap, hf, heapFree_released hinv.toSessionInv ha (hinv.inner a ha) hf⟩

/-- `heap_free` of what `heap_malloc` has just returned returns and restores the table. -/
theorem InnerInv.malloc_free {fuel fuel' : Nat} {size ptr : Word} (hinv : InnerInv len s)
    (hm : heapMalloc fuel s.heap size = some (ptr, heap)) (hne : ptr ≠ 0)
    (hinner : InnerStep s (.malloc size) ⟨heap, ⟨ptr, size⟩ :: s.live⟩)
    (hfuel : sizeToNblocks size.toNat ≤ fuel') :
    ∃ heap', heapFree fuel' heap ptr = some heap' ∧
      heap'.table.inUse = s.heap.table.inUse ∧ heap'.table.entries = s.heap.table.entries := by
  have hinv' := innerStep_inv hinv hinner
  have hmem : (⟨ptr, size⟩ : Allocation) ∈ (⟨ptr, size⟩ : Allocation) :: s.live :=
    List.mem_cons_self
  obtain ⟨heap', hf, hrel⟩ := hinv'.free_clears hmem hfuel
  have hnew := hinv'.inner _ hmem
  simp only [HeapSession.range, heapAddrToBlock, (heapMalloc_base hm).1] at hnew
  obtain ⟨rfl, -⟩ | ⟨r, hr, hend⟩ := hinv.malloc_cases hm fun _ => hnew
  · exact absurd rfl hne
  have hrange := range_congr (t := ⟨heap, ⟨ptr, size⟩ :: s.live⟩) hr.base ⟨ptr, size⟩
  rw [hr.range hinv.toSessionInv] at hrange
  rw [hrange] at hrel
  refine ⟨heap', hf, by rw [hrel.inUse, hr.inUse, BitVec.add_sub_cancel], funext fun i => ?_⟩
  rw [hrel.entries]
  split
  · rename_i hi
    have := hi.2
    exact (hinv.toSessionInv.entry_free (by omega) (hr.free i hi)).symm
  · rename_i hi
    simp only [hr.entries, hi, if_false]

/-- From a fresh heap, as long as no range reaches the last block: the table is the encoding of
the held allocations, `heap_free` clears the entries of its allocation and no others, and undoes
a `heap_malloc`. -/
theorem runs_represented {mem : Memory} {ptr endAddr : Word} {table : HeapTable} {heap : Heap}
    (hc : heapCreate mem ptr endAddr table = .ok heap) (hr : ptr.toNat ≤ endAddr.toNat)
    (huse : table.inUse = 0) (hlen : 2 ≤ heap.table.len) {calls : List HeapCall}
    {s : HeapSession} (hrun : Runs InnerStep ⟨heap, []⟩ calls s) :
    Represented s ∧
    (∀ a ∈ s.live, ∀ fuel, (s.range a).n ≤ fuel → ∃ heap', heapFree fuel s.heap a.ptr = some heap' ∧
      ∀ i, heap'.table.entries i = if (s.range a).Has i then 0 else s.heap.table.entries i) ∧
    (∀ fuel size p heap', heapMalloc fuel s.heap size = some (p, heap') → p ≠ 0 →
      InnerStep s (.malloc size) ⟨heap', ⟨p, size⟩ :: s.live⟩ →
      ∀ fuel', sizeToNblocks size.toNat ≤ fuel' → ∃ heap'', heapFree fuel' heap' p = some heap'' ∧
        heap''.table.inUse = s.heap.table.inUse ∧
        heap''.table.entries = s.heap.table.entries) := by
  have hinv : InnerInv heap.table.len s :=
    hrun.invariant (fun _ _ _ hs hstep => innerStep_inv hs hstep) (.create hc hr huse hlen)
  refine ⟨hinv.represented, fun a ha fuel hfuel => ?_, fun fuel size p heap' hm hne hinner fuel' hf =>
    hinv.malloc_free hm hne hinner hf⟩
  obtain ⟨heap', hf, hrel⟩ := hinv.free_clears ha hfuel
  exact ⟨heap', hf, hrel.entries⟩

/-- Two allocations and the release of the first, on a table of five blocks. -/
theorem runs_represented_five_blocks :
    ∃ heap s, heapCreate (fun _ => 0) 0x1000 0x6000 ⟨fun _ => 0, 5, 0⟩ = .ok heap ∧
      Runs InnerStep ⟨heap, []⟩ [.malloc 5000, .malloc 1, .free 0x2000] s ∧
      s.live = [⟨0x4000, 1⟩] ∧ Represented s := by
  have hrun : ∃ s, Runs InnerStep ⟨⟨⟨fun i => if i < 5 then 0 else 0, 5, 0⟩, 0x1000, 0,
      fun _ => 0⟩, []⟩ [.malloc 5000, .malloc 1, .free 0x2000] s ∧ s.live = [⟨0x4000, 1⟩] :=
    ⟨_, .cons ⟨@Step.malloc _ 2 _ _ _ rfl, by decide⟩
      (.cons ⟨@Step.malloc _ 1 _ _ _ rfl, by decide⟩
        (.cons ⟨@Step.free _ 1 _ _ (by decide) rfl, by decide⟩ (.nil _))), by decide⟩
  obtain ⟨s, hrun, hlive⟩ := hrun
  exact ⟨_, s, rfl, hrun, hlive, (@runs_represented (fun _ => 0) 0x1000 0x6000
    ⟨fun _ => 0, 5, 0⟩ _ rfl (by decide) rfl (by decide) _ _ hrun).1⟩

/-- Where the region goes on at address 0, the second block is NULL: it is reserved for nobody. -/
theorem null_block_reserved :
    ∃ heap s, heapCreate (fun _ => 0) 0xFFFFF000 0x2000 ⟨fun _ => 0, 3, 0⟩ = .ok heap ∧
      heap.table.len = 3 ∧ Runs InnerStep ⟨heap, []⟩ [.malloc 1] s ∧ s.live = [] ∧
      s.heap.table.entries 1 = 0x41 ∧ s.heap.table.inUse = 1 ∧ ¬ Represented s := by
  have hrun : ∃ s, Runs InnerStep ⟨⟨⟨fun i => if i < 3 then 0 else 0, 3, 0⟩, 0xFFFFF000, 0,
      fun _ => 0⟩, []⟩ [.malloc 1] s ∧ s.live = [] ∧ s.heap.table.entries 1 = 0x41 ∧
        s.heap.table.inUse = 1 :=
    ⟨_, .cons ⟨@Step.malloc _ 1 _ _ _ rfl, by decide⟩ (.nil _), by decide, by decide, by decide⟩
  obtain ⟨s, hrun, hlive, hentry, huse⟩ := hrun
  refine ⟨_, s, rfl, rfl, hrun, hlive, hentry, huse, fun hrep => ?_⟩
  have hsum := hrep.summed
  rw [huse, held, hlive] at hsum
  exact absurd hsum (by decide)

end HeapSession

end AvocadOS
