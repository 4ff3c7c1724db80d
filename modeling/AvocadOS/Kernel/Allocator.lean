import AvocadOS.Heap.Accounting
import AvocadOS.Heap.Move
import AvocadOS.Kernel.Paging

/-!
# The allocator of the kernel model (`kheap.c` over `heap.c`)

In the model of the kernel, `kzalloc` asks an oracle for addresses and stops at one that is not free.
Here the oracle is `heap.c`: the two run side by side, with the work of the clients in between.

* `AllocSession`: the heap with what its clients hold, and the kernel with its ledger;
* `Reserved.fresh`: a range that `heap_malloc` reserves is a new block of the ledger;
* `AllocSession.step_inv`: a step keeps the ledger equal to what is held;
* `AllocSession.allocator_refines`: the kernel never stops at an answer, and no call touches the
  memory of another allocation.
-/

namespace AvocadOS

open Kernel

set_option linter.style.nameCheck false

/-! ## `kheap.c` -/

def kheapUsed (heap : Heap) : Word := heap.table.inUse * BitVec.ofNat 32 KERNEL_HEAP_BLOCK_SIZE

def kheapFree (heap : Heap) : Word :=
  (BitVec.ofNat 32 heap.table.len - heap.table.inUse) * BitVec.ofNat 32 KERNEL_HEAP_BLOCK_SIZE

/-! ## Heap and kernel side by side -/

/-- An allocation, as a block of the ledger. -/
def Allocation.block (a : Allocation) : Block := ⟨a.ptr, a.size.toNat⟩

/-- The bytes of the heap's blocks. -/
def Heap.Region (heap : Heap) (a : Word) : Prop :=
  heap.baseAddr.toNat ≤ a.toNat ∧
    a.toNat < heap.baseAddr.toNat + heap.table.len * KERNEL_HEAP_BLOCK_SIZE

structure AllocSession where
  heap : HeapSession
  kernel : Kernel

inductive AllocCall where
  | kzalloc (size : Word)
  | kfree (ptr : Word)
  | work

namespace AllocSession

/-- Objects of the kernel are static, or they are what a client holds. -/
def Owned (heap : HeapSession) (k : Kernel) : Prop :=
  ∀ a, k.vacant a = false → heap.heap.Region a → ∃ b ∈ heap.live, b.ptr = a

/-- `heap.c` answers the kernel, with ranges that end before the last block. Between two calls the
clients write to memory and to objects. -/
inductive Step : AllocSession → AllocCall → AllocSession → Prop
  | kzalloc {s : AllocSession} {fuel : Nat} {size ptr : Word} {heap : Heap}
      (h : __kzalloc fuel s.heap.heap size = some (ptr, heap))
      (hanswer : s.kernel.answers s.kernel.requests = ptr)
      (hinner : ptr ≠ 0 →
        heapAddrToBlock s.heap.heap ptr + sizeToNblocks size.toNat < s.heap.heap.table.len) :
      Step s (.kzalloc size) ⟨⟨heap, if ptr = 0 then s.heap.live else ⟨ptr, size⟩ :: s.heap.live⟩,
        s.kernel.after (kzalloc size.toNat)⟩
  | kfree {s : AllocSession} {fuel : Nat} {ptr : Word} {heap : Heap}
      (hlive : ∃ a ∈ s.heap.live, a.ptr = ptr) (h : __kfree fuel s.heap.heap ptr = some heap) :
      Step s (.kfree ptr)
        ⟨⟨heap, s.heap.live.filter (·.ptr ≠ ptr)⟩, s.kernel.after (kfree ptr)⟩
  | work {s : AllocSession} {m : Memory} {k : Kernel} (hblocks : k.blocks = s.kernel.blocks)
      (hrequests : k.requests = s.kernel.requests) (hanswers : k.answers = s.kernel.answers)
      (howned : Owned s.heap k) :
      Step s .work ⟨⟨{ s.heap.heap with mem := m }, s.heap.live⟩, k⟩

/-- What every step keeps. -/
structure Inv (len : Nat) (s : AllocSession) : Prop where
  inner : HeapSession.InnerInv len s.heap
  aligned : s.heap.heap.baseAddr.toNat % KERNEL_HEAP_BLOCK_SIZE = 0
  ledger : s.kernel.blocks = s.heap.live.map Allocation.block
  owned : Owned s.heap s.kernel

end AllocSession

/-! ## Held ranges -/

section

variable {len : Nat} {s : HeapSession} {heap : Heap} {a b : Allocation}

/-- Where a held allocation is. -/
theorem SessionInv.addr (hinv : SessionInv len s) (ha : a ∈ s.live) :
    a.ptr.toNat = s.heap.baseAddr.toNat + (s.range a).first * KERNEL_HEAP_BLOCK_SIZE ∧
      0 < (s.range a).n ∧ (s.range a).first + (s.range a).n ≤ len := by
  obtain ⟨L, hL, -⟩ := hinv.layout
  have hmem := SessionInv.mem_layout hL ha
  have hpos := L.nonempty _ hmem
  have hin := L.inside _ hmem
  refine ⟨?_, hpos, hin⟩
  rw [hinv.ptrs a ha]
  exact blockToAddr_toNat hinv.region (by omega)

/-- Two held allocations have no byte in common. -/
theorem SessionInv.bytesApart (hinv : SessionInv len s) (ha : a ∈ s.live) (hb : b ∈ s.live)
    (hne : b.ptr ≠ a.ptr) : BytesApart a.ptr (blockBytes a.size) b.ptr (blockBytes b.size) := by
  obtain ⟨haddr, -, hain⟩ := hinv.addr ha
  obtain ⟨hbddr, -, hbin⟩ := hinv.addr hb
  have hregion := hinv.region
  obtain ⟨L, hL, -⟩ := hinv.layout
  have hrange : s.range a ≠ s.range b := fun he =>
    hne ((hinv.first_iff ha b hb).mp (congrArg Range.first he).symm)
  have hapart : (s.range a).Apart (s.range b) :=
    L.apart.forall (SessionInv.mem_layout hL ha) (SessionInv.mem_layout hL hb) hrange
  have hna : blockBytes a.size = (s.range a).n * KERNEL_HEAP_BLOCK_SIZE := rfl
  have hnb : blockBytes b.size = (s.range b).n * KERNEL_HEAP_BLOCK_SIZE := rfl
  unfold KERNEL_HEAP_BLOCK_SIZE at *
  unfold Range.Apart at hapart
  rcases hapart with hle | hle
  · exact .of_le (by omega) (by omega)
  · exact BytesApart.symm (.of_le (by omega) (by omega))

/-- A new allocation is none of the others. -/
theorem SessionInv.ne_head {live : List Allocation} (hinv : SessionInv len ⟨heap, a :: live⟩)
    (hb : b ∈ live) : b.ptr ≠ a.ptr := by
  obtain ⟨L, hL, -⟩ := hinv.layout
  have hpos := L.nonempty _ (SessionInv.mem_layout hL List.mem_cons_self)
  have hpairs := L.apart
  rw [hL, List.map_cons, List.pairwise_cons] at hpairs
  have hapart := hpairs.1 _ (List.mem_map_of_mem hb)
  intro he
  have hfirst : (HeapSession.range ⟨heap, a :: live⟩ b).first =
      (HeapSession.range ⟨heap, a :: live⟩ a).first := by simp [HeapSession.range, he]
  have hposb := L.nonempty _ (SessionInv.mem_layout hL (List.mem_cons_of_mem a hb))
  unfold Range.Apart at hapart
  omega

/-- What `heap_malloc` reserves is a new block. -/
theorem Reserved.fresh {k : Kernel} {size ptr : Word} {r : Range} (h : Reserved s size ptr heap r)
    (hinv : SessionInv len s) (haligned : s.heap.baseAddr.toNat % KERNEL_HEAP_BLOCK_SIZE = 0)
    (hledger : k.blocks = s.live.map Allocation.block) (howned : AllocSession.Owned s k) :
    k.Fresh ptr size.toNat := by
  have haddr := h.addr hinv
  have hfits := h.fits
  have hpos := h.pos
  have hn := h.n
  have hregion := hinv.region
  obtain ⟨hlow, hhigh⟩ := h.in_region hinv
  obtain ⟨L, hL, henc⟩ := id hinv.layout
  rw [hinv.tableLen] at hfits
  have hapart := henc.apart h.pos hfits h.free
  refine ⟨?_, by omega, ?_, fun b hb => ?_⟩
  · rw [haddr, show PAGING_PAGE_SIZE = KERNEL_HEAP_BLOCK_SIZE from rfl, Nat.add_mul_mod_self_right]
    exact haligned
  · -- an object at the address would be one that a client holds
    rw [← Bool.not_eq_false]
    intro hvacant
    have hin : s.heap.Region ptr := by
      rw [Heap.Region, hinv.tableLen, haddr]
      unfold KERNEL_HEAP_BLOCK_SIZE
      omega
    obtain ⟨b, hb, rfl⟩ := howned ptr hvacant hin
    have hblock := h.block hinv
    have hab := hapart _ (SessionInv.mem_layout hL hb)
    have hbpos := L.nonempty _ (SessionInv.mem_layout hL hb)
    have hfirst : (s.range b).first = r.first := hblock
    unfold Range.Apart at hab
    omega
  · rw [hledger] at hb
    obtain ⟨c, hc, rfl⟩ := List.mem_map.mp hb
    obtain ⟨hcaddr, -, hcin⟩ := hinv.addr hc
    have hab := hapart _ (SessionInv.mem_layout hL hc)
    have hcn : sizeToNblocks c.size.toNat = (s.range c).n := rfl
    change ptr.toNat + _ ≤ c.ptr.toNat ∨ c.ptr.toNat + sizeToNblocks c.size.toNat * _ ≤ ptr.toNat
    unfold Range.Apart at hab
    unfold KERNEL_HEAP_BLOCK_SIZE at *
    omega

end

/-! ## The two calls -/

namespace AllocSession

variable {len : Nat} {s t : AllocSession} {size ptr : Word} {heap : Heap} {fuel : Nat}

/-- Memory is no part of the heap's invariant. -/
theorem InnerInv.setMem {s : HeapSession} (h : HeapSession.InnerInv len s) (m : Memory) :
    HeapSession.InnerInv len ⟨{ s.heap with mem := m }, s.live⟩ :=
  ⟨⟨h.tableLen, h.region, h.layout, h.ptrs⟩, h.start, h.inner, h.inUse⟩

/-- What `__kzalloc` did. -/
inductive Kzalloced (len : Nat) (s : AllocSession) (size ptr : Word) (heap : Heap) : Prop
  | null (hptr : ptr = 0) (hrun : kzalloc size.toNat s.kernel = .ok (0, s.kernel.asked))
      (hinv : HeapSession.InnerInv len ⟨heap, s.heap.live⟩) (hmem : heap.mem = s.heap.heap.mem)
  | block (hptr : ptr ≠ 0)
      (hrun : kzalloc size.toNat s.kernel =
        .ok (ptr, s.kernel.asked.withBlock ptr size.toNat))
      (hinv : HeapSession.InnerInv len ⟨heap, ⟨ptr, size⟩ :: s.heap.live⟩)
      (hmem : ∀ x, heap.mem x = if (x - ptr).toNat < size.toNat then 0 else s.heap.heap.mem x)

/-- `heap.c` gives the kernel model what it asks for. -/
theorem Inv.kzalloced (hinv : s.Inv len) (h : __kzalloc fuel s.heap.heap size = some (ptr, heap))
    (hanswer : s.kernel.answers s.kernel.requests = ptr)
    (hinner : ptr ≠ 0 →
      heapAddrToBlock s.heap.heap ptr + sizeToNblocks size.toNat < s.heap.heap.table.len) :
    s.Kzalloced len size ptr heap ∧ heap.baseAddr = s.heap.heap.baseAddr := by
  obtain ⟨⟨p, heap'⟩, hm, hr⟩ := Option.map_eq_some_iff.mp h
  obtain ⟨hbase, htlen, hmem⟩ := heapMalloc_keeps hm
  simp only at hr
  have hlen := hinv.inner.tableLen
  -- `heap_malloc` is a step of the heap
  have hinv' : p = ptr → HeapSession.InnerInv len
      ⟨heap', if p = 0 then s.heap.live else ⟨p, size⟩ :: s.heap.live⟩ := by
    rintro rfl
    refine HeapSession.innerStep_inv hinv.inner ⟨.malloc hm, fun a ha => ?_⟩
    rw [range_congr hbase, htlen]
    split at ha
    · rw [hlen]
      exact hinv.inner.inner a ha
    · next hne =>
      rcases List.mem_cons.mp ha with rfl | ha
      · exact hinner hne
      · rw [hlen]
        exact hinv.inner.inner a ha
  split at hr
  · next hp =>
    obtain ⟨rfl, rfl⟩ := Prod.mk.inj hr
    rw [if_pos hp] at hinv'
    refine ⟨.null rfl ?_ (hinv' hp) hmem, hbase⟩
    simp only [kzalloc, hanswer, or_true, if_true]
  · next hp =>
    obtain ⟨rfl, rfl⟩ := Prod.mk.inj hr
    rw [if_neg hp] at hinv'
    obtain ⟨rfl, -⟩ | ⟨r, hreserved, -⟩ := hinv.inner.malloc_cases hm (hlen ▸ hinner)
    · exact absurd rfl hp
    have hfresh := hreserved.fresh hinv.inner.toSessionInv hinv.aligned hinv.ledger hinv.owned
    have hsize : size.toNat ≠ 0 := by
      intro hzero
      have hpos := hreserved.pos
      rw [hreserved.n, hzero] at hpos
      exact absurd hpos (by decide)
    refine ⟨.block hp ?_ (InnerInv.setMem (hinv' rfl) _) fun x => ?_, hbase⟩
    · simp only [kzalloc, hanswer, hsize, hp, or_self, if_false, hfresh, if_true]
    · rw [← hmem]
      exact memset_fills heap'.mem p 0 size (.inr (.inl rfl)) x

/-- Objects stay where they were. -/
theorem Owned.kzalloc {heap : HeapSession} {k : Kernel} (h : Owned s.heap s.kernel)
    (hbase : heap.heap.baseAddr = s.heap.heap.baseAddr)
    (hlen : heap.heap.table.len = s.heap.heap.table.len)
    (hlive : ∀ a ∈ s.heap.live, a ∈ heap.live) (hvacant : k.vacant = s.kernel.vacant) :
    Owned heap k := by
  intro a ha hregion
  rw [hvacant] at ha
  obtain ⟨b, hb, rfl⟩ := h a ha (by rwa [Heap.Region, ← hbase, ← hlen])
  exact ⟨b, hlive b hb, rfl⟩

/-- An erased object is gone, and the others are as before. -/
theorem erase_vacant (k : Kernel) (a b : Word) : (k.erase a).vacant b = (k.vacant b || b == a) := by
  by_cases h : b = a
  · subst h
    simp [Kernel.vacant, Kernel.erase]
  · simp [Kernel.vacant, Kernel.erase, h]

/-- `kfree` of what a client holds. -/
theorem Inv.kfreed (hinv : s.Inv len) {a : Allocation} (ha : a ∈ s.heap.live)
    (h : __kfree fuel s.heap.heap a.ptr = some heap) :
    kfree a.ptr s.kernel = .ok ((), { s.kernel.erase a.ptr with
        blocks := (s.heap.live.filter (·.ptr ≠ a.ptr)).map Allocation.block }) ∧
      HeapSession.InnerInv len ⟨heap, s.heap.live.filter (·.ptr ≠ a.ptr)⟩ ∧
      heap.baseAddr = s.heap.heap.baseAddr ∧ heap.table.len = s.heap.heap.table.len ∧
      ∀ b ∈ s.heap.live, b.ptr ≠ a.ptr → ∀ x, InBytes b.ptr (blockBytes b.size) x →
        heap.mem x = s.heap.heap.mem x := by
  have hsession := hinv.inner.toSessionInv
  have hrel := heapFree_released hsession ha (hinv.inner.inner a ha) h
  have hinner : HeapSession.InnerStep s.heap (.free a.ptr)
      ⟨heap, s.heap.live.filter (·.ptr ≠ a.ptr)⟩ := by
    refine ⟨.free ⟨a, ha, rfl⟩ h, fun b hb => ?_⟩
    rw [range_congr hrel.base, hrel.len, hsession.tableLen]
    exact hinv.inner.inner b (List.mem_filter.mp hb).1
  refine ⟨?_, HeapSession.innerStep_inv hinv.inner hinner, hrel.base, hrel.len, fun b hb hne x hx => ?_⟩
  · have hany : s.kernel.blocks.any (·.ptr == a.ptr) = true := by
      rw [hinv.ledger, List.any_map, List.any_eq_true]
      exact ⟨a, ha, by simp [Allocation.block]⟩
    rw [kfree, if_pos hany, hinv.ledger, List.filter_map]
    rfl
  · rw [heapFree_mem h]
    -- the poison is in the first block of the allocation
    have hapart := hsession.bytesApart ha hb hne
    obtain ⟨-, hpos, -⟩ := hsession.addr ha
    have hblock : KERNEL_HEAP_BLOCK_SIZE ≤ blockBytes a.size := by
      rw [show blockBytes a.size = (s.heap.range a).n * KERNEL_HEAP_BLOCK_SIZE from rfl]
      exact Nat.le_mul_of_pos_left _ hpos
    exact memset_of_not_inBytes (n := 4096) fun hin =>
      hapart x (Nat.lt_of_lt_of_le hin hblock) hx

theorem step_inv {call : AllocCall} (hinv : s.Inv len) (h : Step s call t) : t.Inv len := by
  cases h with
  | @kzalloc fuel size ptr heap h hanswer hinner =>
    obtain ⟨hcases, hbase⟩ := hinv.kzalloced h hanswer hinner
    cases hcases with
    | null hptr hrun hinv' hmem =>
      rw [if_pos hptr, Kernel.after, hrun]
      refine ⟨hinv', by rw [hbase]; exact hinv.aligned, hinv.ledger, ?_⟩
      exact hinv.owned.kzalloc hbase (by rw [hinv'.tableLen, hinv.inner.tableLen]) (fun _ ha => ha) rfl
    | block hptr hrun hinv' hmem =>
      rw [if_neg hptr, Kernel.after, hrun]
      refine ⟨hinv', by rw [hbase]; exact hinv.aligned, ?_, ?_⟩
      · change _ :: s.kernel.blocks = _
        rw [hinv.ledger]
        rfl
      · exact hinv.owned.kzalloc hbase (by rw [hinv'.tableLen, hinv.inner.tableLen])
          (fun _ ha => List.mem_cons_of_mem _ ha) rfl
  | @kfree fuel ptr heap hlive h =>
    obtain ⟨a, ha, rfl⟩ := hlive
    obtain ⟨hrun, hinv', hbase, hlen, -⟩ := hinv.kfreed ha h
    rw [Kernel.after, hrun]
    refine ⟨hinv', by rw [hbase]; exact hinv.aligned, rfl, fun b hb hregion => ?_⟩
    have hb' : (s.kernel.erase a.ptr).vacant b = false := hb
    rw [erase_vacant, Bool.or_eq_false_iff] at hb'
    obtain ⟨hvacant, hne⟩ := hb'
    have hregion' : s.heap.heap.Region b := by
      rwa [Heap.Region, ← hbase, ← hlen]
    obtain ⟨c, hc, rfl⟩ := hinv.owned b hvacant hregion'
    exact ⟨c, List.mem_filter.mpr ⟨hc, by simpa using hne⟩, rfl⟩
  | work hblocks _ _ howned =>
    exact ⟨InnerInv.setMem hinv.inner _, hinv.aligned, hblocks.trans hinv.ledger, howned⟩

/-- The heap that `kheap_init` makes. -/
theorem kheapInit_inv {kernelEnd : Word} {mem : Memory} {entries : Nat → HeapTableEntry} {k : Kernel}
    (hinit : kheapInit kernelEnd mem entries = .ok heap)
    (hroom : (kheapBegin kernelEnd).toNat ≤ (kheapEnd kernelEnd).toNat) (hblocks : k.blocks = [])
    (howned : Owned ⟨heap, []⟩ k) :
    Inv (KERNEL_HEAP_SIZE / KERNEL_HEAP_BLOCK_SIZE) ⟨⟨heap, []⟩, k⟩ := by
  obtain ⟨hbase, hlen⟩ := kheapInit_ok hinit
  rw [kheapInit] at hinit
  split at hinit
  · cases hinit
  next hcreate =>
  cases hinit
  have hinner := HeapSession.InnerInv.create hcreate hroom rfl (by rw [hlen]; decide)
  have haligned : heap.baseAddr.toNat % KERNEL_HEAP_BLOCK_SIZE = 0 := by
    unfold heapCreate at hcreate
    split at hcreate
    · cases hcreate
    next halign =>
    simp only [heapValidateAlignment, Bool.or_eq_true, Bool.not_eq_true', beq_eq_false_iff_ne, not_or,
      ne_eq, not_not] at halign
    rw [hbase]
    exact halign.1
  exact ⟨hlen ▸ hinner, haligned, hblocks, howned⟩

/-- `kheap_used` and `kheap_free` are what the ledger says. -/
theorem Inv.accounted (hinv : s.Inv (KERNEL_HEAP_SIZE / KERNEL_HEAP_BLOCK_SIZE)) :
    (kheapUsed s.heap.heap).toNat = s.kernel.inUse * KERNEL_HEAP_BLOCK_SIZE ∧
      (kheapUsed s.heap.heap).toNat + (kheapFree s.heap.heap).toNat = KERNEL_HEAP_SIZE := by
  have hlen := hinv.inner.tableLen
  have hheld : s.kernel.inUse = s.heap.held := by
    rw [Kernel.inUse, hinv.ledger, List.map_map]
    rfl
  have hle : s.heap.held ≤ KERNEL_HEAP_SIZE / KERNEL_HEAP_BLOCK_SIZE := by
    obtain ⟨L, hL, -⟩ := hinv.inner.layout
    rw [HeapSession.held_eq_total hL]
    exact L.total_le
  have huse : s.heap.heap.table.inUse.toNat = s.heap.held := hinv.inner.represented.summed
  rw [show KERNEL_HEAP_SIZE / KERNEL_HEAP_BLOCK_SIZE = 4096 from rfl] at hle hlen
  have hblock : (BitVec.ofNat 32 KERNEL_HEAP_BLOCK_SIZE).toNat = 4096 := rfl
  have hsize : KERNEL_HEAP_SIZE = 4096 * 4096 := rfl
  have hlen' : (BitVec.ofNat 32 s.heap.heap.table.len).toNat = 4096 := by rw [hlen]; rfl
  have hfree : (BitVec.ofNat 32 s.heap.heap.table.len - s.heap.heap.table.inUse).toNat =
      4096 - s.heap.held := by
    rw [BitVec.toNat_sub_of_le (BitVec.le_def.mpr (by omega)), hlen', huse]
  rw [kheapUsed, kheapFree, BitVec.toNat_mul, BitVec.toNat_mul, hfree, huse, hblock, hheld, hsize,
    show KERNEL_HEAP_BLOCK_SIZE = 4096 from rfl]
  omega

/-- From `kheap_init` on, whatever the clients do to memory and to objects, as long as `heap.c` hands
out no range that reaches the last block: the ledger of the kernel model is what the clients hold, and
`kheap_used` and `kheap_free` account for it. `kzalloc` of the model returns what `heap.c` returns, and
its bytes are zero; `kfree` of what is held returns, on both sides; neither writes to the blocks of
another allocation. -/
theorem allocator_refines {kernelEnd : Word} {mem : Memory} {entries : Nat → HeapTableEntry}
    {k : Kernel} {calls : List AllocCall} (hinit : kheapInit kernelEnd mem entries = .ok heap)
    (hroom : (kheapBegin kernelEnd).toNat ≤ (kheapEnd kernelEnd).toNat) (hblocks : k.blocks = [])
    (howned : Owned ⟨heap, []⟩ k) (hrun : Runs Step ⟨⟨heap, []⟩, k⟩ calls s) :
    s.kernel.blocks = s.heap.live.map Allocation.block ∧
    (kheapUsed s.heap.heap).toNat = s.kernel.inUse * KERNEL_HEAP_BLOCK_SIZE ∧
    (kheapUsed s.heap.heap).toNat + (kheapFree s.heap.heap).toNat = KERNEL_HEAP_SIZE ∧
    (∀ size t, Step s (.kzalloc size) t →
      ∃ ptr, AvocadOS.kzalloc size.toNat s.kernel = .ok (ptr, t.kernel) ∧
        s.kernel.answers s.kernel.requests = ptr ∧
        (ptr ≠ 0 → ∀ x, InBytes ptr size.toNat x → t.heap.heap.mem x = 0) ∧
        ∀ b ∈ s.heap.live, ∀ x, InBytes b.ptr (blockBytes b.size) x →
          t.heap.heap.mem x = s.heap.heap.mem x) ∧
    (∀ a ∈ s.heap.live, ∃ t, Step s (.kfree a.ptr) t) ∧
    ∀ ptr t, Step s (.kfree ptr) t → AvocadOS.kfree ptr s.kernel = .ok ((), t.kernel) ∧
      ∀ b ∈ t.heap.live, ∀ x, InBytes b.ptr (blockBytes b.size) x →
        t.heap.heap.mem x = s.heap.heap.mem x := by
  have hinv : s.Inv (KERNEL_HEAP_SIZE / KERNEL_HEAP_BLOCK_SIZE) :=
    hrun.invariant (fun _ _ _ hs hstep => step_inv hs hstep)
      (kheapInit_inv hinit hroom hblocks howned)
  obtain ⟨hused, hfree⟩ := hinv.accounted
  refine ⟨hinv.ledger, hused, hfree, fun size t h => ?_, fun a ha => ?_, fun ptr t h => ?_⟩
  · cases h with
    | @kzalloc fuel _ ptr heap h hanswer hinner =>
    obtain ⟨hcases, hbase⟩ := hinv.kzalloced h hanswer hinner
    cases hcases with
    | null hptr hrun' hinv' hmem =>
      subst hptr
      refine ⟨0, by rw [Kernel.after, hrun'], hanswer, fun hne => absurd rfl hne, fun b _ x _ => ?_⟩
      exact congrFun hmem x
    | block hptr hrun' hinv' hmem =>
      refine ⟨ptr, by rw [Kernel.after, hrun'], hanswer, fun _ x hx => ?_, fun b hb x hx => ?_⟩
      · exact (hmem x).trans (if_pos hx)
      · refine (hmem x).trans (if_neg fun hin => ?_)
        exact hinv'.toSessionInv.bytesApart List.mem_cons_self (List.mem_cons_of_mem _ hb)
          (hinv'.toSessionInv.ne_head hb) x (Nat.lt_of_lt_of_le hin (blocks_le _)) hx
  · obtain ⟨heap', hf, -⟩ := hinv.inner.free_clears ha (Nat.le_refl _)
    exact ⟨_, .kfree ⟨a, ha, rfl⟩ hf⟩
  · cases h with
    | @kfree fuel _ heap hlive h =>
    obtain ⟨a, ha, rfl⟩ := hlive
    obtain ⟨hrun', -, -, -, hmem⟩ := hinv.kfreed ha h
    refine ⟨by rw [Kernel.after, hrun'], fun b hb x hx => ?_⟩
    obtain ⟨hb, hne⟩ := List.mem_filter.mp hb
    exact hmem b hb (by simpa using hne) x hx

/-- A kernel without objects, and the answers of a heap behind 0xC0150000. -/
def kernelWithHeap : Kernel :=
  Kernel.blank ⟨0xC0110000, 0xC0120000, 0xC0101000, 0xC0130000, 0xC0100000, 0xC0140000⟩
    (fun n => if n = 0 then 0xC0152000 else 0xC0154000) (fun _ => none) fun _ => none

/-- An allocation of two blocks and one of a single block, and the release of the first. -/
theorem allocator_refines_two_allocations : ∃ heap s t,
    kheapInit 0xC0150000 (fun _ => 1) (fun _ => 0) = .ok heap ∧
    Runs Step ⟨⟨heap, []⟩, kernelWithHeap⟩ [.kzalloc 5000, .kzalloc 1] s ∧
    s.kernel.blocks = [⟨0xC0154000, 1⟩, ⟨0xC0152000, 5000⟩] ∧
    (kheapUsed s.heap.heap).toNat = 12288 ∧
    Step s (.kfree 0xC0152000) t ∧ t.kernel.blocks = [⟨0xC0154000, 1⟩] ∧
    ∀ x, InBytes 0xC0154000 4096 x → t.heap.heap.mem x = s.heap.heap.mem x := by
  have hrun : ∃ heap s, kheapInit 0xC0150000 (fun _ => 1) (fun _ => 0) = .ok heap ∧
      Runs Step ⟨⟨heap, []⟩, kernelWithHeap⟩ [.kzalloc 5000, .kzalloc 1] s ∧
      s.heap.live = [⟨0xC0154000, 1⟩, ⟨0xC0152000, 5000⟩] :=
    ⟨_, _, rfl, .cons (@Step.kzalloc _ 2 _ _ _ rfl rfl fun _ => by decide)
      (.cons (@Step.kzalloc _ 1 _ _ _ rfl rfl fun _ => by decide) (.nil _)), rfl⟩
  obtain ⟨heap, s, hinit, hrun, hlive⟩ := hrun
  have howned : Owned ⟨heap, []⟩ kernelWithHeap := by
    intro a ha
    rw [show kernelWithHeap.vacant a = true from rfl] at ha
    cases ha
  obtain ⟨hledger, hused, -, -, hfree, hkfree⟩ :=
    allocator_refines hinit (by decide) rfl howned hrun
  rw [hlive] at hledger hfree
  obtain ⟨t, ht⟩ := hfree ⟨0xC0152000, 5000⟩ (by simp)
  obtain ⟨hrun', hsame⟩ := hkfree _ t ht
  have hlive' : t.heap.live = [⟨0xC0154000, 1⟩] := by
    cases ht
    rw [hlive]
    rfl
  refine ⟨heap, s, t, hinit, hrun, hledger, ?_, ht, ?_, fun x hx => ?_⟩
  · rw [hused, Kernel.inUse, hledger]
    rfl
  · rw [(kfree_ok hrun').2, hledger]
    rfl
  · exact hsame ⟨0xC0154000, 1⟩ (by rw [hlive']; exact List.mem_cons_self) x hx

end AllocSession

end AvocadOS
