import AvocadOS.String
import AvocadOS.Lib.Loop

/-!
# The block heap (`heap.c`)

A heap is a region of `len` blocks with a table of one byte per block. `entries` is the memory
that the table's `entries` pointer points to: the table proper is its first `len` bytes, and an
index from `len` on reads or writes whatever lies behind it, as in C.

`find_first_block` and `heap_free` contain loops that need not end, so the functions take `fuel`
and return `none` when it runs out. `findFirstBlockReads`, `heapReserveBlocksWrites` and
`heapFreeAccesses` list the table indices that the three functions touch; for the loops they are
defined from the same condition and body as the functions themselves.
-/

namespace AvocadOS

/-! ## `heap.h` -/

abbrev HeapTableEntry := Byte

def HEAP_MEMORY_BLOCK_FREE : HeapTableEntry := 0x0
def HEAP_MEMORY_BLOCK_TAKEN : HeapTableEntry := 0x1
def HEAP_MEMORY_BLOCK_HAS_NEXT : HeapTableEntry := 128
def HEAP_MEMORY_BLOCK_IS_FIRST : HeapTableEntry := 64

def blockTestFree (b : HeapTableEntry) : Bool := b == HEAP_MEMORY_BLOCK_FREE
def blockTestTaken (b : HeapTableEntry) : Bool := b &&& HEAP_MEMORY_BLOCK_TAKEN != 0
def blockTestHasNext (b : HeapTableEntry) : Bool := b &&& HEAP_MEMORY_BLOCK_HAS_NEXT != 0
def blockTestFirst (b : HeapTableEntry) : Bool := b &&& HEAP_MEMORY_BLOCK_IS_FIRST != 0

def blockSetTaken (b : HeapTableEntry) : HeapTableEntry := b ||| HEAP_MEMORY_BLOCK_TAKEN
def blockSetNext (b : HeapTableEntry) : HeapTableEntry := b ||| HEAP_MEMORY_BLOCK_HAS_NEXT
def blockSetNoNext (b : HeapTableEntry) : HeapTableEntry := b &&& ~~~HEAP_MEMORY_BLOCK_HAS_NEXT
def blockSetFirst (b : HeapTableEntry) : HeapTableEntry := b ||| HEAP_MEMORY_BLOCK_IS_FIRST
def blockSetNotFirst (b : HeapTableEntry) : HeapTableEntry := b &&& ~~~HEAP_MEMORY_BLOCK_IS_FIRST

structure HeapTable where
  entries : Nat → HeapTableEntry
  len : Nat
  inUse : Word

structure Heap where
  table : HeapTable
  baseAddr : Word
  lastAllocatedBlock : Nat
  /-- The memory that `heap_free` poisons. -/
  mem : Memory

/-! ## Creation -/

def heapValidateTable (ptr endAddr : Word) (table : HeapTable) : Int :=
  let tableSize := (endAddr - ptr).toNat
  let totalBlocks := tableSize / KERNEL_HEAP_BLOCK_SIZE
  if table.len ≠ totalBlocks then -EINVAL else 0

def heapValidateAlignment (ptr : Word) : Bool := ptr.toNat % KERNEL_HEAP_BLOCK_SIZE == 0

/-- `heap_create`. `memset` of the heap structure clears `last_allocated_block`; the table's
`in_use` is left as the caller set it. -/
def heapCreate (mem : Memory) (ptr endAddr : Word) (heapTable : HeapTable) : Except Int Heap :=
  if !heapValidateAlignment ptr || !heapValidateAlignment endAddr then .error (-EINVAL)
  else if heapValidateTable ptr endAddr heapTable ≠ 0 then .error (-EINVAL)
  else
    .ok { table := { heapTable with
            entries := fun i => if i < heapTable.len then HEAP_MEMORY_BLOCK_FREE
              else heapTable.entries i }
          baseAddr := ptr
          lastAllocatedBlock := 0
          mem := mem }

/-! ## Allocation -/

def sizeToNblocks (size : Nat) : Nat :=
  size / KERNEL_HEAP_BLOCK_SIZE + if size % KERNEL_HEAP_BLOCK_SIZE ≠ 0 then 1 else 0

/-- The variables of the loop of `find_first_block`. `last` is `heap->last_allocated_block`, which
the body rewrites and the condition reads. -/
structure Search where
  i : Nat
  remainingBlocks : Nat
  foundBlock : Int
  last : Nat

def Search.start (last nBlocks : Nat) : Search :=
  { i := last + 1, remainingBlocks := nBlocks, foundBlock := -1, last := last }

def Search.goesOn (s : Search) : Bool := s.i != s.last && s.remainingBlocks != 0

/-- The body of the loop and its `i = (i + 1) % len`. -/
def Search.next (table : HeapTable) (nBlocks : Nat) (s : Search) : Search :=
  if blockTestTaken (table.entries s.i) then
    { i := (s.i + 1) % table.len, remainingBlocks := nBlocks, foundBlock := -1, last := 0 }
  else
    { i := (s.i + 1) % table.len
      remainingBlocks := s.remainingBlocks - 1
      foundBlock := if s.foundBlock == -1 then s.i else s.foundBlock
      last := s.i }

def findFirstBlock (fuel : Nat) (heap : Heap) (nBlocks : Nat) : Option (Int × Heap) :=
  (Loop.run Search.goesOn (Search.next heap.table nBlocks) fuel
    (Search.start heap.lastAllocatedBlock nBlocks)).map fun s =>
      (if s.remainingBlocks ≠ 0 then -ENOMEM else s.foundBlock,
        { heap with lastAllocatedBlock := s.last })

/-- The indices that the first `fuel` iterations of `find_first_block` read. -/
def findFirstBlockReads (fuel : Nat) (heap : Heap) (nBlocks : Nat) : List Nat :=
  (Loop.visited Search.goesOn (Search.next heap.table nBlocks) fuel
    (Search.start heap.lastAllocatedBlock nBlocks)).map (·.i)

def HeapTable.modify (t : HeapTable) (i : Nat) (g : HeapTableEntry → HeapTableEntry) : HeapTable :=
  { t with entries := Function.update t.entries i (g (t.entries i)) }

def heapReserveBlocks (heap : Heap) (firstBlock nBlocks : Nat) : Heap :=
  let endBlock := firstBlock + nBlocks
  let t := (List.range' firstBlock nBlocks).foldl
    (fun t j => ((t.modify j blockSetTaken).modify j blockSetNotFirst).modify j blockSetNext)
    heap.table
  { heap with
    table := (t.modify firstBlock blockSetFirst).modify (endBlock - 1) blockSetNoNext }

/-- The indices that `heap_reserve_blocks` writes. -/
def heapReserveBlocksWrites (firstBlock nBlocks : Nat) : List Nat :=
  List.range' firstBlock nBlocks ++ [firstBlock, firstBlock + nBlocks - 1]

def heapBlockToAddr (heap : Heap) (blockIndex : Nat) : Word :=
  heap.baseAddr + BitVec.ofNat 32 (blockIndex * KERNEL_HEAP_BLOCK_SIZE)

def heapAddrToBlock (heap : Heap) (ptr : Word) : Nat :=
  (ptr - heap.baseAddr).toNat / KERNEL_HEAP_BLOCK_SIZE

def heapMallocBlocks (fuel : Nat) (heap : Heap) (nBlocks : Nat) : Option (Word × Heap) :=
  (findFirstBlock fuel heap nBlocks).map fun (firstBlock, heap) =>
    if firstBlock < 0 then (0, heap)
    else
      let heap := heapReserveBlocks heap firstBlock.toNat nBlocks
      let heap := { heap with
        table := { heap.table with inUse := heap.table.inUse + BitVec.ofNat 32 nBlocks } }
      (heapBlockToAddr heap firstBlock.toNat, heap)

/-- `heap_malloc`; `NULL` is `0`. -/
def heapMalloc (fuel : Nat) (heap : Heap) (size : Word) : Option (Word × Heap) :=
  let nBlocks := sizeToNblocks size.toNat
  if nBlocks = 0 then some (0, heap) else heapMallocBlocks fuel heap nBlocks

/-! ## Release -/

/-- The variables of the loop of `heap_free`. -/
structure Release where
  block : Nat
  table : HeapTable

def Release.goesOn (r : Release) : Bool :=
  !blockTestFree (r.table.entries r.block) && !blockTestFirst (r.table.entries r.block)

/-- `BLOCK_SET_FREE(entries[block++])` and `--in_use`, before the loop and in it. -/
def Release.next (r : Release) : Release :=
  { block := r.block + 1
    table := { r.table.modify r.block (fun _ => HEAP_MEMORY_BLOCK_FREE) with
      inUse := r.table.inUse - 1 } }

def heapFree (fuel : Nat) (heap : Heap) (ptr : Word) : Option Heap :=
  let block := heapAddrToBlock heap ptr
  let heap := { heap with mem := memset heap.mem ptr 0xFF KERNEL_HEAP_BLOCK_SIZE }
  if !blockTestFirst (heap.table.entries block) then some heap
  else
    (Loop.run Release.goesOn Release.next fuel (Release.next ⟨block, heap.table⟩)).map fun r =>
      { heap with table := r.table }

/-- The indices that `heap_free` reads or writes in the first `fuel` iterations of its loop. -/
def heapFreeAccesses (fuel : Nat) (heap : Heap) (ptr : Word) : List Nat :=
  let block := heapAddrToBlock heap ptr
  block ::
    if !blockTestFirst (heap.table.entries block) then []
    else (Loop.tested Release.goesOn Release.next fuel
      (Release.next ⟨block, heap.table⟩)).map (·.block)

def countUsedBlocks (heap : Heap) : Nat :=
  ((List.range heap.table.len).filter fun i => blockTestTaken (heap.table.entries i)).length

end AvocadOS
