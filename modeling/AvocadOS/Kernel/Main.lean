import AvocadOS.Fs.Registry
import AvocadOS.Kernel.Programs

/-!
# `kernel_main`

The initialisation of the kernel from `paging_init` on, on the heap that `kheap_init` has made: the
file table, the registered file systems, the disk with the volume on it, and the first two processes.
What `kernel_main` does to the terminal, to the interrupt controller and to the descriptor tables is
no part of this state.

`operations` is the address of `fat16_operations`; no other table of operations is in memory.

* `fat16ProbeDisk_ok`: `fat16_probe`, with its allocations, accepts what the pure one accepts;
* `diskInit_ok`: `disk_init` returns with the volume mounted;
* `kernelMain_ok`: what holds when `kernel_main` comes to its end.
-/

namespace AvocadOS

open Kernel

set_option linter.style.nameCheck false

/-! ## The disk -/

/-- `sizeof(struct disk_stream)` and `sizeof(struct fat_private_data_t)`. -/
def diskStreamSize : Nat := 8
def fatPrivateSize : Nat := 124

/-- `diskstream_new`. The stream is written without a check of the `kzalloc`. -/
def diskstreamNew (diskId : Int) : K Word := do
  let (res, _) ← diskGet diskId
  if res ≠ 0 then pure 0
  else
    let stream ← kzalloc diskStreamSize
    if stream = 0 then fun _ => .error .nullDeref else pure stream

/-- `diskstream_close`. -/
def diskstreamClose (stream : Word) : K Unit := kfree stream

/-- `fat16_probe` from the two checks of the header on. -/
def fat16ProbeHeader (header : FatHeader) : K Int := do
  if header.signature ≠ FAT16_SIGNATURE then pure (-EMEDIUMTYPE)
  else if strncmp header.systemIdString FAT16_SYSTEM_ID FAT16_SYSTEM_ID_LEN ≠ 0 then
    pure (-EMEDIUMTYPE)
  else
    let fatPrivate ← kzalloc fatPrivateSize
    if fatPrivate = 0 then pure (-ENOMEM)
    else if header.bytesPerSector = 0 then fun _ => .error .divideByZero
    else
      let dev ← diskstreamNew 0
      if dev = 0 then
        kfree fatPrivate
        pure (-ENOMEM)
      else
        assign fun s => { s with fsPrivate := some (.ofHeader header), dev := ⟨s.dev.disk, 0, []⟩ }
        pure 0

/-- The `diskstream_read` of the header, through a new stream. -/
def readHeader : K (Int × List Byte) := fun s =>
  match diskstreamRead FAT_HEADER_SIZE ⟨s.dev.disk, 0, []⟩ with
  | .error e => .error e
  | .ok (r, _) => .ok (r, s)

/-- `fat16_probe` of the one disk, with its allocations. -/
def fat16ProbeDisk : K Int := do
  let stream ← diskstreamNew 0
  if stream = 0 then pure (-ENOMEM)
  else
    let (res, bytes) ← readHeader
    diskstreamClose stream
    if res < 0 then pure (- EIO) else fat16ProbeHeader (.ofBytes bytes)

/-- The loop of `fs_probe_fs`, from the table at `fsOp` on. It steps through memory: what is behind
the one table is none. -/
def fsProbeTables (operations : Word) : Nat → Word → K Word
  | 0, _ => fun _ => .error .hang
  | fuel + 1, fsOp =>
    if fsOp = 0 then pure 0
    else if fsOp ≠ operations then fun _ => .error .badDeref
    else do
      let res ← fat16ProbeDisk
      if res = 0 then pure fsOp
      else fsProbeTables operations fuel (fsOp + BitVec.ofNat 32 filesystemOperationsSize)

/-- `fs_probe_fs`. The second iteration is the last one. -/
def fsProbeDisk (operations : Word) (registered : Nat → Word) : K Word :=
  fsProbeTables operations 2 (registered 0)

/-- `disk_init`: that `disks[0].fs_operations` is set is said by `fsPrivate`. -/
def diskInit (operations : Word) (registered : Nat → Word) : K Unit := do
  assign fun s => { s with fsPrivate := none }
  let _ ← fsProbeDisk operations registered
  pure ()

/-! ## The files -/

/-- `file_table_init`. -/
def fileTableInit : K Unit := assign fun s => { s with fileTable := fun _ => 0 }

/-- `fs_init`: the returned value and `registered_filesystems`. -/
def fsInit (operations : Word) : Int × (Nat → Word) := fsRegisterFs (fun _ => 0) operations

/-! ## `kernel_main` -/

/-- `kernel_main`, from `paging_init` to `tasking_init`. -/
def kernelMain (operations : Word) : K Unit := do
  pagingInit
  fileTableInit
  let (_, registered) := fsInit operations
  diskInit operations registered
  taskingInit

/-! ## What they leave -/

section

variable {s t k m : Kernel} {a operations : Word} {disk : Disk}

theorem Kernel.erase_vacant (h : s.vacant a = true) : s.erase a = s := by
  simp only [Kernel.vacant, Bool.and_eq_true, Option.isNone_iff_eq_none] at h
  obtain ⟨⟨⟨⟨⟨⟨⟨⟨⟨h₁, h₂⟩, h₃⟩, h₄⟩, h₅⟩, h₆⟩, h₇⟩, h₈⟩, h₉⟩, h₁₀⟩ := h
  rw [Kernel.erase, update_none h₁, update_none h₂, update_none h₃, update_none h₄, update_none h₅,
    update_none h₆, update_none h₇, update_none h₈, update_none h₉, update_none h₁₀]

theorem diskstreamNew_ok (h : diskstreamNew 0 s = .ok (a, t)) :
    a ≠ 0 ∧ s.Fresh a diskStreamSize ∧ t = s.asked.withBlock a diskStreamSize := by
  obtain ⟨⟨res, d⟩, u, hget, h⟩ := bind_ok h
  rw [diskGet_eq] at hget
  cases hget
  obtain ⟨b, u, hk, h⟩ := bind_ok (show (kzalloc diskStreamSize >>= _) s = _ from h)
  split at h
  · cases h
  · rename_i hne
    obtain ⟨rfl, rfl⟩ := pure_ok h
    obtain ⟨h0, -⟩ | ⟨-, -, hfresh, ht⟩ := kzalloc_ok hk
    · exact absurd h0 hne
    · exact ⟨hne, hfresh, ht⟩

theorem diskstreamNew_filed (diskId : Int) : Keeps Filed (diskstreamNew diskId) := by
  refine .bind (.ite (.pure _) (.bind .get fun _ => .pure _)) ?_
  rintro ⟨res, disk⟩
  refine .ite (.pure _) (.bind (kzalloc_filed _) fun stream => .ite ?_ (.pure _))
  exact fun s x t h => by cases h

/-- A volume is mounted: of the rest of the state only the heap differs. -/
structure Mounted (s t : Kernel) (p : FatPrivate) : Prop where
  probe : fat16Probe (fun _ => true) s.dev.disk = .ok (.ok p)
  rest : t = { s with
    requests := t.requests
    blocks := t.blocks
    fsPrivate := some p
    dev := ⟨s.dev.disk, 0, []⟩ }
  tiled : s.Tiled → t.Tiled

/-- What is left of the stream for the header is the request for it. -/
theorem headerStream_closed {size : Nat} {x : Unit} (hfresh : s.Fresh a size)
    (h : kfree a (s.asked.withBlock a size) = .ok (x, t)) :
    t = { s with requests := t.requests, blocks := t.blocks } := by
  obtain ⟨-, rfl⟩ := kfree_ok h
  have herase : (s.asked.withBlock a size).erase a = s.asked.withBlock a size :=
    Kernel.erase_vacant hfresh.2.2.1
  rw [herase]
  rfl

/-- `fat16_probe` returns `0` for what the pure function accepts. -/
theorem fat16ProbeDisk_ok (h : fat16ProbeDisk s = .ok (0, t)) : ∃ p, Mounted s t p := by
  obtain ⟨stream, s₁, hnew, h⟩ := bind_ok h
  obtain ⟨hne, hfresh, rfl⟩ := diskstreamNew_ok hnew
  rw [if_neg hne] at h
  have hread : readHeader (s.asked.withBlock stream diskStreamSize) =
      .ok ((FAT_HEADER_SIZE, s.dev.disk.slice 0 FAT_HEADER_SIZE),
        s.asked.withBlock stream diskStreamSize) := by
    rw [readHeader, diskstreamRead_eq]
    rfl
  rw [bind_eq hread] at h
  obtain ⟨_, s₂, hclose, h⟩ := bind_ok h
  have hs₂ := headerStream_closed hfresh hclose
  have hfiled₂ : Filed s s₂ := Trans.trans (diskstreamNew_filed _ hnew) (kfree_filed _ hclose)
  rw [if_neg (by decide), fat16ProbeHeader] at h
  generalize hheader : FatHeader.ofBytes (s.dev.disk.slice 0 FAT_HEADER_SIZE) = header at h
  by_cases hsig : header.signature = FAT16_SIGNATURE
  case neg =>
    rw [if_pos hsig] at h
    cases h
  by_cases hid : strncmp header.systemIdString FAT16_SYSTEM_ID FAT16_SYSTEM_ID_LEN = 0
  case neg =>
    rw [if_neg (not_not.mpr hsig), if_pos hid] at h
    cases h
  rw [if_neg (not_not.mpr hsig), if_neg (not_not.mpr hid)] at h
  obtain ⟨priv, s₃, hk, h⟩ := bind_ok h
  by_cases hpriv : priv = 0
  · rw [if_pos hpriv] at h
    cases h
  by_cases hbps : header.bytesPerSector = 0
  · rw [if_neg hpriv, if_pos hbps] at h
    cases h
  rw [if_neg hpriv, if_neg hbps] at h
  obtain ⟨dev, s₄, hnew', h⟩ := bind_ok h
  obtain ⟨hdev, -, rfl⟩ := diskstreamNew_ok hnew'
  rw [if_neg hdev] at h
  cases h
  obtain ⟨h0, -⟩ | ⟨-, -, -, hs₃⟩ := kzalloc_ok hk
  · exact absurd h0 hpriv
  refine ⟨.ofHeader header, ?_, ?_, fun ht => ?_⟩
  · rw [← hheader]
    exact fat16Probe_accepts (by rw [hheader]; exact hsig) (by rw [hheader]; exact hid)
      (by rw [hheader]; exact hbps)
  · rw [hs₃, hs₂]
    rfl
  · have hfiled : Filed s (s₃.asked.withBlock dev diskStreamSize) :=
      Trans.trans hfiled₂ (Trans.trans (kzalloc_filed _ hk) (diskstreamNew_filed _ hnew'))
    exact (hfiled.tiled ht).of_blocks rfl

/-- `disk_init` returns only with a volume that is mounted. -/
theorem diskInit_ok {x : Unit} (hne : operations ≠ 0)
    (hbehind : operations + BitVec.ofNat 32 filesystemOperationsSize ≠ 0)
    (h : diskInit operations (fsInit operations).2 s = .ok (x, t)) : ∃ p, Mounted s t p := by
  have hfirst : (fsInit operations).2 0 = operations := rfl
  obtain ⟨_, s₁, hclear, h⟩ := bind_ok h
  cases hclear
  obtain ⟨op, s₂, hprobe, h⟩ := bind_ok h
  obtain ⟨-, rfl⟩ := pure_ok h
  rw [fsProbeDisk, hfirst, fsProbeTables, if_neg hne, if_neg (by simp)] at hprobe
  obtain ⟨res, s₃, hfat, hprobe⟩ := bind_ok hprobe
  split at hprobe
  · rename_i hzero
    obtain ⟨-, rfl⟩ := pure_ok hprobe
    rw [hzero] at hfat
    obtain ⟨p, hm⟩ := fat16ProbeDisk_ok hfat
    refine ⟨p, hm.probe, ?_, fun ht => hm.tiled (ht.of_blocks rfl)⟩
    rw [hm.rest]
  · -- behind the table there is none
    rw [fsProbeTables, if_neg hbehind, if_pos] at hprobe
    · cases hprobe
    · intro heq
      have hnat := congrArg BitVec.toNat heq
      rw [BitVec.toNat_add, BitVec.toNat_ofNat] at hnat
      unfold filesystemOperationsSize at hnat
      have := operations.isLt
      omega

/-! ## `paging_init` on an empty heap -/

/-- The blocks still do not overlap. -/
def StaysTiled (s t : Kernel) : Prop := s.Tiled → t.Tiled

instance : Std.Refl StaysTiled := ⟨fun _ => id⟩

instance : Trans StaysTiled StaysTiled StaysTiled := ⟨fun h h' ht => h' (h ht)⟩

theorem Added.staysTiled (h : Added s t) : StaysTiled s t := fun ht => (h ht).1

theorem Filed.staysTiled (h : Filed s t) : StaysTiled s t := h.tiled

theorem assign_staysTiled {f : Kernel → Kernel} (hf : ∀ u, (f u).blocks = u.blocks) :
    Keeps StaysTiled (assign f) := by
  intro s x t h
  cases h
  exact fun ht => ht.of_blocks (hf s)

theorem paging_staysTiled : PagingKeeps StaysTiled where
  tables_modify p f := (paging_added.tables_modify p f).mono fun _ _ => Added.staysTiled
  handles_modify p f := (paging_added.handles_modify p f).mono fun _ _ => Added.staysTiled
  tables_alloc n x := (paging_added.tables_alloc n x).mono fun _ _ => Added.staysTiled
  handles_alloc n x := (paging_added.handles_alloc n x).mono fun _ _ => Added.staysTiled

theorem initPageBitmap_staysTiled (n : Nat) : Keeps StaysTiled (initPageBitmap n) := by
  refine .bind ((kzalloc_added _).mono fun _ _ => Added.staysTiled) fun bitmap => ?_
  refine .ite (keeps_panic _) (.ite ?_ (assign_staysTiled fun _ => rfl))
  exact fun s x t h => by cases h

theorem newKernelDirectory_staysTiled : Keeps StaysTiled newKernelDirectory := by
  have hp := paging_staysTiled
  refine .bind .get fun s => .bind (hp.handles_modify _ _) fun _ => ?_
  refine .bind (hp.tables_alloc _ _) fun directory => .bind (hp.handles_modify _ _) fun _ => ?_
  refine .bind .get fun s => .bind (virtualToPhysicalAddr_keeps _ _) fun phys => ?_
  refine .bind (hp.setDirectory _ _ _) fun _ => .bind (hp.setDirectoryVirtual _ _ _) fun _ => ?_
  refine .bind .get fun s => .bind (virtualToPhysicalAddr_keeps _ _) fun phys => ?_
  exact .ite (keeps_panic _) (.pure _)

theorem mapFirstMegabytes_staysTiled (virtAddr : Word) :
    Keeps StaysTiled (mapFirstMegabytes virtAddr) := by
  refine .bind .get fun s => .bind (paging_staysTiled.pagingMapFromTo _ _ _ _ _) fun res => ?_
  exact .ite (keeps_panic _) (.pure _)

theorem pagingInit_staysTiled : Keeps StaysTiled pagingInit := by
  have hp := paging_staysTiled
  refine .bind (initPageBitmap_staysTiled _) fun _ => .bind (hp.handles_alloc _ _) fun boot => ?_
  refine .bind (assign_staysTiled fun _ => rfl) fun _ => .bind .get fun s => ?_
  refine .bind (hp.handles_modify _ _) fun _ => .bind newKernelDirectory_staysTiled fun _ => ?_
  refine .bind (mapFirstMegabytes_staysTiled _) fun _ => ?_
  refine .bind (mapFirstMegabytes_staysTiled _) fun _ => .bind .get fun s => ?_
  refine .bind (.bind (keeps_load _) fun h => .bind (keeps_load _) fun _ => .pure _) fun phys => ?_
  refine .bind (assign_staysTiled fun _ => rfl) fun _ => ?_
  refine .bind (assign_staysTiled fun _ => rfl) fun _ => ?_
  refine .bind ((kfree_filed _).mono fun _ _ => Filed.staysTiled) fun _ => ?_
  exact assign_staysTiled fun _ => rfl

/-! ## The end of `kernel_main` -/

/-- What holds before `tasking_init`, with `k` the state after `paging_init`. -/
structure FilesReady (k k' : Kernel) (p : FatPrivate) : Prop where
  probe : fat16Probe (fun _ => true) k.dev.disk = .ok (.ok p)
  other : OtherWork k k'
  mounted : k'.fsPrivate = some p
  disk : k'.dev.disk = k.dev.disk
  closed : ∀ i, k'.fileTable i = 0
  tiled : k.Tiled → k'.Tiled

/-- If `kernel_main` comes to its end, the volume of the disk was mounted before `tasking_init`. -/
theorem kernelMain_ok {x : Unit} (hne : operations ≠ 0)
    (hbehind : operations + BitVec.ofNat 32 filesystemOperationsSize ≠ 0)
    (h : kernelMain operations s = .ok (x, m)) :
    ∃ k k' p, pagingInit s = .ok ((), k) ∧ FilesReady k k' p ∧ taskingInit k' = .ok ((), m) := by
  obtain ⟨_, k, hpaging, h⟩ := bind_ok h
  obtain ⟨_, k₁, hinit, h⟩ := bind_ok h
  cases hinit
  obtain ⟨_, k', hdisk, htasking⟩ := bind_ok h
  obtain ⟨p, hm⟩ := diskInit_ok hne hbehind hdisk
  refine ⟨k, k', p, hpaging, ⟨hm.probe, ?_, ?_, ?_, fun i => ?_, fun ht => ?_⟩, htasking⟩
  · rw [OtherWork, hm.rest]
  · rw [hm.rest]
  · rw [hm.rest]
  · rw [hm.rest]
  · exact hm.tiled (ht.of_blocks rfl)

end

end AvocadOS
