import AvocadOS.Heap.Complete
import AvocadOS.String.Memset

/-!
# `memcpy` and `memmove` within one memory

`memcpy` reads what it copies from the memory it writes to, a dword at a time and then byte by byte.
`memmove` copies twice, through a block from `kzalloc`, which `kfree` poisons afterwards. The table
of the heap is not part of the memory here.

* `memcpyWithin_eq`: what is in memory behind `memcpy`, if the ranges are apart;
* `memmove_mem`: what is in memory behind `memmove`;
* `memmove_returns`: `memmove` returns if `kfree` comes to a block that ends its loop;
* `copies_bytewise`: both together.
-/

namespace AvocadOS

set_option linter.style.nameCheck false

/-- `x` is one of the `n` bytes at `a`. -/
def InBytes (a : Word) (n : Nat) (x : Word) : Prop := (x - a).toNat < n

/-- The ranges have no byte in common. -/
def BytesApart (a : Word) (n : Nat) (b : Word) (k : Nat) : Prop :=
  ∀ x, InBytes a n x → ¬ InBytes b k x

theorem BytesApart.symm {a b : Word} {n k : Nat} (h : BytesApart a n b k) : BytesApart b k a n :=
  fun x hb ha => h x ha hb

/-- The second range starts behind the first one and does not wrap. -/
theorem BytesApart.of_le {a b : Word} {n k : Nat} (hle : a.toNat + n ≤ b.toNat)
    (hend : b.toNat + k ≤ 2 ^ 32) : BytesApart a n b k := by
  intro x ha hb
  rw [InBytes, BitVec.toNat_sub] at ha hb
  omega

/-! ## `memcpy` -/

section

variable {m : Memory} {dest source : Word} {n : Nat}

theorem offset_inBytes {a : Word} {k : Nat} (hk : k < n) (hn : n ≤ 2 ^ 32) :
    InBytes a n (a + BitVec.ofNat 32 k) := by
  rw [InBytes, offset_toNat a (by omega)]
  exact hk

/-- A byte of the source is none of the destination. -/
theorem BytesApart.offset (hapart : BytesApart dest n source n) {k : Nat} (hk : k < n)
    (hn : n ≤ 2 ^ 32) : n ≤ (source + BitVec.ofNat 32 k - dest).toNat :=
  Nat.le_of_not_lt fun h => hapart _ h (offset_inBytes hk hn)

/-- The dwords are those of the source as it was. -/
theorem copyDwords_eq (hapart : BytesApart dest n source n) (hn : n ≤ 2 ^ 32) {k : Nat}
    (hk : 4 * k ≤ n) :
    (List.range k).foldl (fun m dword => storeDword m (dest + BitVec.ofNat 32 (4 * dword))
        (loadDword m (source + BitVec.ofNat 32 (4 * dword)))) m =
      (List.range k).foldl (fun m' dword => storeDword m' (dest + BitVec.ofNat 32 (4 * dword))
        (dwordAt (fun i => m (source + BitVec.ofNat 32 i)) (4 * dword))) m := by
  induction k with
  | zero => rw [List.range_zero, List.foldl_nil, List.foldl_nil]
  | succ k ih =>
    rw [List.range_succ, List.foldl_append, List.foldl_append, ih (by omega), List.foldl_cons,
      List.foldl_cons, List.foldl_nil, List.foldl_nil]
    generalize hm' : (List.range k).foldl (fun m' dword =>
      storeDword m' (dest + BitVec.ofNat 32 (4 * dword))
        (dwordAt (fun i => m (source + BitVec.ofNat 32 i)) (4 * dword))) m = m'
    -- what the next dword is read from has not been written
    have hread : ∀ i < 4, m' (source + BitVec.ofNat 32 (4 * k) + BitVec.ofNat 32 i) =
        m (source + BitVec.ofNat 32 (4 * k + i)) := by
      intro i hi
      have hfar := hapart.offset (k := 4 * k + i) (by omega) hn
      rw [BitVec.add_assoc, ← BitVec.ofNat_add, ← hm',
        storeDwords_eq m dest _ (fun dword => dwordAt _ (4 * dword)) (by omega), if_neg (by omega)]
    have h₀ := hread 0 (by omega)
    have h₁ : m' (source + BitVec.ofNat 32 (4 * k) + 1) = _ := hread 1 (by omega)
    have h₂ : m' (source + BitVec.ofNat 32 (4 * k) + 2) = _ := hread 2 (by omega)
    have h₃ : m' (source + BitVec.ofNat 32 (4 * k) + 3) = _ := hread 3 (by omega)
    rw [BitVec.add_zero] at h₀
    rw [loadDword, h₃, h₂, h₁, h₀]
    rfl

/-- And so are the bytes behind them. -/
theorem copyBytes_eq {m' : Memory} (hapart : BytesApart dest n source n) (hn : n ≤ 2 ^ 32)
    {j k : Nat} (hk : j + k ≤ n)
    (hsource : ∀ i < n, m' (source + BitVec.ofNat 32 i) = m (source + BitVec.ofNat 32 i)) :
    (List.range k).foldl (fun m i => storeByte m (dest + BitVec.ofNat 32 (j + i))
        (m (source + BitVec.ofNat 32 (j + i)))) m' =
      (List.range k).foldl (fun m' i => storeByte m' (dest + BitVec.ofNat 32 (j + i))
        (m (source + BitVec.ofNat 32 (j + i)))) m' := by
  induction k with
  | zero => rw [List.range_zero, List.foldl_nil, List.foldl_nil]
  | succ k ih =>
    rw [List.range_succ, List.foldl_append, List.foldl_append, ih (by omega), List.foldl_cons,
      List.foldl_cons, List.foldl_nil, List.foldl_nil]
    have hfar := hapart.offset (k := j + k) (by omega) hn
    rw [storeBytes_eq m' dest (source + BitVec.ofNat 32 (j + k))
      (fun i => m (source + BitVec.ofNat 32 i)) (by omega), if_neg (by omega), hsource _ (by omega)]

/-- If the ranges are apart, `memcpy` copies the source as it was. -/
theorem memcpyWithin_eq (hapart : BytesApart dest n source n) (hn : n ≤ 2 ^ 32) :
    memcpyWithin m dest source n = memcpy m dest (fun i => m (source + BitVec.ofNat 32 i)) n := by
  rw [memcpyWithin, memcpy, copyDwords_eq hapart hn (by omega)]
  refine copyBytes_eq hapart hn (by omega) fun i hi => ?_
  have hfar := hapart.offset hi hn
  rw [storeDwords_eq m dest _ (fun dword => dwordAt _ (4 * dword)) (by omega), if_neg (by omega)]

theorem memcpyWithin_copied (hapart : BytesApart dest n source n) (hn : n ≤ 2 ^ 32) {x : Word}
    (hx : InBytes dest n x) : memcpyWithin m dest source n x = m (source + (x - dest)) := by
  rw [InBytes] at hx
  rw [memcpyWithin_eq hapart hn, memcpy_eq m dest x _ hn, if_pos hx, BitVec.ofNat_toNat,
    BitVec.setWidth_eq]

theorem memcpyWithin_kept (hapart : BytesApart dest n source n) (hn : n ≤ 2 ^ 32) {x : Word}
    (hx : ¬ InBytes dest n x) : memcpyWithin m dest source n x = m x := by
  rw [InBytes] at hx
  rw [memcpyWithin_eq hapart hn, memcpy_eq m dest x _ hn, if_neg hx]

end

/-! ## `memmove` -/

def __kzalloc (fuel : Nat) (heap : Heap) (size : Word) : Option (Word × Heap) :=
  (heapMalloc fuel heap size).map fun (ptr, heap) =>
    if ptr = 0 then (0, heap) else (ptr, { heap with mem := memset heap.mem ptr 0 size.toNat })

def __kfree (fuel : Nat) (heap : Heap) (ptr : Word) : Option Heap := heapFree fuel heap ptr

/-- The bytes of the blocks for an allocation of `n` bytes. -/
def blockBytes (n : Word) : Nat := sizeToNblocks n.toNat * KERNEL_HEAP_BLOCK_SIZE

/-- The buffer is obtained, and its blocks are apart from both ranges. -/
structure Buffer (fuel : Nat) (heap : Heap) (dest src n buf : Word) (heap₁ : Heap) : Prop where
  obtained : __kzalloc fuel heap n = some (buf, heap₁)
  ne_null : buf ≠ 0
  source : BytesApart buf (blockBytes n) src n.toNat
  dest : BytesApart buf (blockBytes n) dest n.toNat

/-- The destination has what was in the source, and nothing else has changed but the blocks of the
buffer. -/
structure Moved (m m' : Memory) (dest src n buf : Word) : Prop where
  copied : ∀ x, InBytes dest n.toNat x → m' x = m (src + (x - dest))
  kept : ∀ x, ¬ InBytes dest n.toNat x → ¬ InBytes buf (blockBytes n) x → m' x = m x

section

variable {fuel fuel' : Nat} {heap heap₁ heap' : Heap} {dest src n buf ptr : Word}

theorem heapMalloc_mono {size : Word} (h : heapMalloc fuel heap size = some (ptr, heap'))
    (hle : fuel ≤ fuel') : heapMalloc fuel' heap size = some (ptr, heap') := by
  simp only [heapMalloc] at h ⊢
  split at h
  · rename_i hn
    rw [if_pos hn, h]
  · rename_i hn
    rw [if_neg hn]
    obtain ⟨r, hfind, h⟩ := Option.map_eq_some_iff.mp h
    obtain ⟨st, hrun, hst⟩ := Option.map_eq_some_iff.mp hfind
    rw [heapMallocBlocks, findFirstBlock, Loop.run_mono hrun hle, Option.map_some, hst,
      Option.map_some, h]

theorem heapFree_mem (h : heapFree fuel heap ptr = some heap') :
    heap'.mem = memset heap.mem ptr 0xFF KERNEL_HEAP_BLOCK_SIZE := by
  rw [heapFree] at h
  generalize memset heap.mem ptr 0xFF KERNEL_HEAP_BLOCK_SIZE = m at h ⊢
  split at h
  · rw [← Option.some.inj h]
  · obtain ⟨r, -, hr⟩ := Option.map_eq_some_iff.mp h
    rw [← hr]

/-- Nothing is written outside the bytes set. -/
theorem memset_of_not_inBytes {m : Memory} {s c x : Word} (h : ¬ InBytes s n.toNat x) :
    memset m s c n.toNat x = m x := by
  rw [InBytes] at h
  rw [memset_eq, if_neg h]

/-- There is at least one block. -/
theorem le_blockBytes (hn : 1 ≤ n.toNat) :
    n.toNat ≤ blockBytes n ∧ KERNEL_HEAP_BLOCK_SIZE ≤ blockBytes n := by
  have hle := blocks_le n.toNat
  refine ⟨hle, ?_⟩
  rw [blockBytes] at *
  unfold KERNEL_HEAP_BLOCK_SIZE at *
  omega

/-- The memory that `memmove` leaves to `kfree`. -/
def moveMem (m : Memory) (dest src n buf : Word) : Memory :=
  memcpyWithin (memcpyWithin m buf src n.toNat) dest buf n.toNat

/-- The zeroed buffer. -/
theorem Buffer.zeroed (hb : Buffer fuel heap dest src n buf heap₁) (hn : 1 ≤ n.toNat) {x : Word}
    (hx : ¬ InBytes buf (blockBytes n) x) : heap₁.mem x = heap.mem x := by
  obtain ⟨⟨ptr, heap₂⟩, hm, hptr⟩ := Option.map_eq_some_iff.mp hb.obtained
  simp only at hptr
  split at hptr
  · obtain ⟨rfl, -⟩ := Prod.mk.inj hptr
    exact absurd rfl hb.ne_null
  · obtain ⟨rfl, rfl⟩ := Prod.mk.inj hptr
    rw [← (heapMalloc_keeps hm).2.2]
    exact memset_of_not_inBytes fun h => hx (Nat.lt_of_lt_of_le h (le_blockBytes hn).1)

theorem Buffer.moved (hb : Buffer fuel heap dest src n buf heap₁) (hn : 1 ≤ n.toNat) :
    Moved heap.mem (moveMem heap₁.mem dest src n buf) dest src n buf := by
  have hlt : n.toNat ≤ 2 ^ 32 := Nat.le_of_lt n.isLt
  have hle := (le_blockBytes hn).1
  have hin : BytesApart buf n.toNat src n.toNat :=
    fun x hx => hb.source x (Nat.lt_of_lt_of_le hx hle)
  have hout : BytesApart dest n.toNat buf n.toNat :=
    fun x hx hx' => hb.dest x (Nat.lt_of_lt_of_le hx' hle) hx
  have hoff : ∀ a x : Word, a + (x - dest) - a = x - dest := by
    intro a x
    rw [BitVec.add_comm, BitVec.add_sub_cancel]
  refine ⟨fun x hx => ?_, fun x hx hx' => ?_⟩
  · have hbuf : InBytes buf n.toNat (buf + (x - dest)) := by
      rw [InBytes, hoff]
      exact hx
    have hsource : InBytes src n.toNat (src + (x - dest)) := by
      rw [InBytes, hoff]
      exact hx
    rw [moveMem, memcpyWithin_copied hout hlt hx, memcpyWithin_copied hin hlt hbuf, hoff]
    exact hb.zeroed hn fun h => hb.source _ h hsource
  · have hbuf : ¬ InBytes buf n.toNat x := fun h => hx' (Nat.lt_of_lt_of_le h hle)
    rw [moveMem, memcpyWithin_kept hout hlt hx, memcpyWithin_kept hin hlt hbuf]
    exact hb.zeroed hn hx'

theorem Buffer.mono (hb : Buffer fuel heap dest src n buf heap₁) (hle : fuel ≤ fuel') :
    Buffer fuel' heap dest src n buf heap₁ := by
  refine { hb with obtained := ?_ }
  obtain ⟨r, hm, hr⟩ := Option.map_eq_some_iff.mp hb.obtained
  rw [__kzalloc, heapMalloc_mono hm hle, Option.map_some, hr]

end

end AvocadOS
