import AvocadOS.Kernel.State

/-!
# Paging (`paging.c`) and the kernel's heap (`kheap.c`)

A page table and a page directory are pages of 1024 entries. A handle has the directory and, for
each of its entries, the virtual address of the page table (`directory_virtual`), through which the
kernel reads and writes it. The MMU is not part of these functions: page tables are objects at their
virtual addresses (see `Kernel/Placement.lean` for when that is what the processor does). What
`paging_map_page` prints is left out.
-/

namespace AvocadOS

/-! ## `paging.h` -/

def PAGING_ACCESS_FROM_ALL : Word := 4
def PAGING_WRITABLE_PAGE : Word := 2
def PAGING_PRESENT : Word := 1
def PSE_BIT : Word := 0x10
def ADDR_MASK : Word := 0xfffff000

/-- `sizeof(struct page_directory_handle)`. -/
def pageDirectoryHandleSize : Nat := 4 + 1024 * 4

def vAddrPagedirIndex (vaddr : Word) : Nat := vaddr.toNat >>> 22
def vAddrPagetblIndex (vaddr : Word) : Nat := (vaddr.toNat >>> 12) &&& 0x3ff
def vAddrPageframeIndex (vaddr : Word) : Word := vaddr &&& 0xfff
def vAddrPageframeIndexPse (vaddr : Word) : Word := vaddr &&& 0x3fffff
def pageEntryPseBit (entry : Word) : Word := entry &&& 0x80
def pageEntryAddr (entry : Word) : Word := entry &&& ADDR_MASK
def pageEntryFlags (entry : Word) : Word := entry &&& ~~~ADDR_MASK

/-- A parameter of type `uint16_t`. -/
def uint16 (flags : Word) : Word := flags &&& 0xffff

/-! ## `paging.c` -/

/-- `panic(msg)`. -/
def panic {α : Type} (msg : String) : K α := fun _ => .error (.panic msg)

/-- An assignment to a global or to a register. -/
def assign (f : Kernel → Kernel) : K Unit := fun s => .ok ((), f s)

theorem bind_assign_eq {β : Type} {g : Kernel → Kernel} {f : Unit → K β} {s : Kernel} :
    (assign g >>= f) s = f () (g s) := rfl

def pagingAddrIsPageAligned (addr : Word) : Bool := addr &&& 0xfff == 0

def pagingAlignAddress (addr : Word) : Word := 4096 * ((addr + 4095) / 4096)

def virtualToPhysicalAddr (handle virtualAddr : Word) : K Word := do
  let h ← handles.load handle
  let directory ← tables.load h.directory
  let entry := directory (vAddrPagedirIndex virtualAddr)
  if pageEntryPseBit entry ≠ 0 then
    if (← get).cr4 &&& PSE_BIT = 0 then panic "PSE directory entry found, but PSE is OFF"
    else pure (pageEntryAddr entry + vAddrPageframeIndexPse virtualAddr)
  else
    let table ← tables.load (h.directoryVirtual (vAddrPagedirIndex virtualAddr))
    pure (pageEntryAddr (table (vAddrPagetblIndex virtualAddr)) + vAddrPageframeIndex virtualAddr)

/-- `paging_load_directory` writes CR3. -/
def pagingLoadDirectory (directory : Word) : K Unit := assign fun s => { s with cr3 := directory }

/-- The physical address of a directory, from its last entry, which maps the directory itself. -/
def directoryPhysicalAddr (handle : Word) : K Word := do
  let h ← handles.load handle
  let directory ← tables.load h.directory
  pure (pageEntryAddr (directory 1023))

def pagingSwitchDirectory (handle : Word) : K Unit := do
  pagingLoadDirectory (← directoryPhysicalAddr handle)
  assign fun s => { s with currentDirectory := handle }

/-- `handle->directory[i] = entry`. -/
def setDirectory (handle : Word) (i : Nat) (entry : Word) : K Unit := do
  let h ← handles.load handle
  tables.modify h.directory fun t => Function.update t i entry

/-- `handle->directory_virtual[i] = table`. -/
def setDirectoryVirtual (handle : Word) (i : Nat) (table : Word) : K Unit :=
  handles.modify handle fun h =>
    { h with directoryVirtual := Function.update h.directoryVirtual i table }

/-- The first `if` of `paging_map_page`: a page table where there is none. The entry of the
directory is written whether or not there was memory for the table. -/
def addPageTable (handle : Word) (i : Nat) (flags : Word) : K Unit := do
  let h ← handles.load handle
  if h.directoryVirtual i = 0 then
    let table ← tables.alloc PAGING_PAGE_SIZE fun _ => 0
    setDirectoryVirtual handle i table
    let phys ← virtualToPhysicalAddr (← get).currentDirectory table
    setDirectory handle i (phys ||| uint16 flags)
  else pure ()

/-- The second `if`: once more, without the entry of the directory. -/
def retryPageTable (handle : Word) (i : Nat) : K Unit := do
  let h ← handles.load handle
  if h.directoryVirtual i = 0 then
    let table ← tables.alloc PAGING_PAGE_SIZE fun _ => 0
    setDirectoryVirtual handle i table
  else pure ()

/-- `handle->directory_virtual[i][j] = entry`. -/
def setPageEntry (handle : Word) (i j : Nat) (entry : Word) : K Unit := do
  let h ← handles.load handle
  tables.modify (h.directoryVirtual i) fun t => Function.update t j entry

def pagingMapPage (handle virtAddr pagePtr flags : Word) : K Int :=
  if !pagingAddrIsPageAligned virtAddr || !pagingAddrIsPageAligned pagePtr then pure (-EINVAL)
  else do
    let directoryIndex := vAddrPagedirIndex virtAddr
    addPageTable handle directoryIndex flags
    retryPageTable handle directoryIndex
    setPageEntry handle directoryIndex (vAddrPagetblIndex virtAddr) (pagePtr ||| uint16 flags)
    pure 0

/-- The loop of `paging_map_range`. -/
def pagingMapPages (handle virtAddr physAddr flags : Word) : Nat → K Int
  | 0 => pure 0
  | count + 1 => do
    let res ← pagingMapPage handle virtAddr physAddr flags
    if res ≠ 0 then pure res
    else pagingMapPages handle (virtAddr + 4096) (physAddr + 4096) flags count

def pagingMapRange (handle virtAddr physAddr : Word) (count : Nat) (flags : Word) : K Int :=
  if !pagingAddrIsPageAligned virtAddr || !pagingAddrIsPageAligned physAddr then pure (-EINVAL)
  else pagingMapPages handle virtAddr physAddr flags count

def pagingMapFromTo (handle virtAddr physBegin physEnd flags : Word) : K Int :=
  if !pagingAddrIsPageAligned virtAddr || !pagingAddrIsPageAligned physBegin then pure (-EINVAL)
  else if !pagingAddrIsPageAligned physEnd then pure (-EINVAL)
  else if physEnd < physBegin then pure (-EINVAL)
  else
    pagingMapRange handle virtAddr physBegin ((physEnd - physBegin).toNat / PAGING_PAGE_SIZE) flags

/-- One iteration of the loop of `paging_clone_directory`. -/
def cloneEntry (source copy : Word) (i : Nat) : K Unit := do
  let src ← handles.load source
  let entry := (← tables.load src.directory) i
  if entry = 0 then pure ()
  else
    let kernel ← handles.load (← get).image.kernelPageDirectory
    let kernelEntry := (← tables.load kernel.directory) i
    if kernelEntry = entry then
      setDirectory copy i kernelEntry
      setDirectoryVirtual copy i (kernel.directoryVirtual i)
    else
      let table ← tables.alloc PAGING_PAGE_SIZE fun _ => 0
      setDirectoryVirtual copy i table
      let contents ← tables.load (src.directoryVirtual i)
      tables.modify table fun _ => contents
      let phys ← virtualToPhysicalAddr (← get).currentDirectory table
      setDirectory copy i (phys ||| pageEntryFlags entry)

/-- The last `n` iterations of the loop, up to entry 1022. -/
def cloneEntries (source copy : Word) : Nat → K Unit
  | 0 => pure ()
  | n + 1 => do
    cloneEntry source copy (1023 - (n + 1))
    cloneEntries source copy n

def pagingCloneDirectory (source : Word) : K Word := do
  let copy ← handles.alloc pageDirectoryHandleSize ⟨0, fun _ => 0⟩
  let directory ← tables.alloc PAGING_PAGE_SIZE fun _ => 0
  handles.modify copy fun _ => ⟨directory, fun _ => 0⟩
  cloneEntries source copy 1023
  setDirectoryVirtual copy 1023 directory
  let phys ← virtualToPhysicalAddr (← get).currentDirectory directory
  setDirectory copy 1023 (phys ||| (PAGING_WRITABLE_PAGE ||| PAGING_PRESENT))
  pure copy

/-- `init_page_bitmap`: of the bitmap, the bytes for its own pages are set. -/
def initPageBitmap (numberOfPages : Nat) : K Unit := do
  let bitmap ← kzalloc numberOfPages
  if !pagingAddrIsPageAligned bitmap then
    panic "early_kmalloc: paging_addr_is_page_aligned: false "
  else if bitmap = 0 then fun _ => .error .nullDeref
  else assign fun s => { s with raw := memset s.raw bitmap 1 (numberOfPages >>> 12) }

/-- The kernel's directory with nothing but the entry for itself. -/
def newKernelDirectory : K Unit := do
  let kernel := (← get).image.kernelPageDirectory
  handles.modify kernel fun _ => ⟨0, fun _ => 0⟩
  let directory ← tables.alloc PAGING_PAGE_SIZE fun _ => 0
  handles.modify kernel fun h => { h with directory := directory }
  let phys ← virtualToPhysicalAddr (← get).currentDirectory directory
  setDirectory kernel 1023 (phys ||| (PAGING_WRITABLE_PAGE ||| PAGING_PRESENT))
  setDirectoryVirtual kernel 1023 directory
  if (← virtualToPhysicalAddr (← get).currentDirectory directory) &&& ~~~ADDR_MASK ≠ 0 then
    panic "Page directory is not 4K aligned"
  else pure ()

/-- The first four megabytes, at `virtAddr`. -/
def mapFirstMegabytes (virtAddr : Word) : K Unit := do
  let kernel := (← get).image.kernelPageDirectory
  let res ← pagingMapFromTo kernel virtAddr 0 0x400000 (PAGING_WRITABLE_PAGE ||| PAGING_PRESENT)
  if res ≠ 0 then panic "BAD ADDRESS" else pure ()

def pagingInit : K Unit := do
  initPageBitmap ((KERNEL_HEAP_SIZE + PAGING_PAGE_SIZE - 1) / PAGING_PAGE_SIZE)
  let boot ← handles.alloc pageDirectoryHandleSize ⟨0, fun _ => 0⟩
  assign fun s => { s with currentDirectory := boot }
  let bootPageDirectory := (← get).image.bootPageDirectory
  handles.modify boot fun h => { h with directory := bootPageDirectory }
  newKernelDirectory
  mapFirstMegabytes 0
  mapFirstMegabytes KERNEL_VIRTUAL_BASE
  let kernel := (← get).image.kernelPageDirectory
  pagingLoadDirectory (← directoryPhysicalAddr kernel)
  assign fun s => { s with cr4 := s.cr4 &&& ~~~PSE_BIT }
  kfree boot
  assign fun s => { s with currentDirectory := kernel }

/-! ## `kheap.c` -/

/-- The next multiple of the page size. -/
def roundUpToPage (addr : Word) : Word :=
  if addr &&& 0xFFF ≠ 0 then (addr &&& ~~~0xFFF) + 0x1000 else addr

/-- Where `kheap_init` puts the heap, for the linker's `_kernel_end`. -/
def kheapBegin (kernelEnd : Word) : Word :=
  let tablePtrBegin := roundUpToPage kernelEnd
  roundUpToPage (tablePtrBegin + BitVec.ofNat 32 (KERNEL_HEAP_SIZE / KERNEL_HEAP_BLOCK_SIZE))

def kheapEnd (kernelEnd : Word) : Word := kheapBegin kernelEnd + BitVec.ofNat 32 KERNEL_HEAP_SIZE

/-- `kheap_init`; `mem` is the memory and `entries` what lies at the end of the kernel. -/
def kheapInit (kernelEnd : Word) (mem : Memory) (entries : Nat → HeapTableEntry) :
    Except Fault Heap :=
  let table := ⟨entries, KERNEL_HEAP_SIZE / KERNEL_HEAP_BLOCK_SIZE, 0⟩
  match heapCreate mem (kheapBegin kernelEnd) (kheapEnd kernelEnd) table with
  | .error _ => .error (.panic "Error creating kheap\n")
  | .ok heap => .ok heap

/-- The heap that `kheap_init` makes. -/
theorem kheapInit_ok {kernelEnd : Word} {mem : Memory} {entries : Nat → HeapTableEntry} {heap : Heap}
    (h : kheapInit kernelEnd mem entries = .ok heap) :
    heap.baseAddr = kheapBegin kernelEnd ∧
      heap.table.len = KERNEL_HEAP_SIZE / KERNEL_HEAP_BLOCK_SIZE := by
  simp only [kheapInit, heapCreate] at h
  split at h
  · cases h
  rename_i hc
  split at hc
  · cases hc
  split at hc
  · cases hc
  cases hc
  cases h
  exact ⟨rfl, rfl⟩

end AvocadOS
