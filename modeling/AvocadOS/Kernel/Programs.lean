import AvocadOS.Fs.Contents
import AvocadOS.Kernel.Current
import AvocadOS.Kernel.LoadFails
import AvocadOS.Kernel.ReadBack
import AvocadOS.Kernel.Separate

/-!
# The programs in memory

`process_load` from the disk to the page tables: what a process has at `PROGRAM_BASE_VIRT_ADDR` is
the content of its file, and stays it.

* `ReadsWhole.content`: what `process_load_binary` leaves in memory;
* `Spaces.retains`: rings and page tables while a file is read;
* `LoadSession.Inv`: what holds of the programs that are loaded;
* `Inv.load`, `Inv.timer`, `Inv.other`: it holds after `process_load`, after the timer interrupt and
  after work that touches neither tasks nor page tables;
* `Inv.start`: it holds after `tasking_init`.
-/

namespace AvocadOS

open Kernel

section

variable {disk : Disk} {p : FatPrivate} {ok : Nat → Bool} {s t u : Kernel} {fuel : Nat}
  {filename : List Byte} {memory : Word} {size : Nat} {own : List Block} {created : List Word}

/-! ## The file in memory -/

/-- What `process_load_binary` leaves: the content of the file from `memory` on, in a new block. -/
structure HasContent (s t : Kernel) (memory : Word) (content : List Byte) : Prop where
  raw : t.raw = fun x => if (x - memory).toNat < content.length then
    content.getD (x - memory).toNat 0 else s.raw x
  disk : SameDisk s t
  table : t.fileTable = s.fileTable
  fresh : ∀ b ∈ s.blocks, memory.toNat + sizeToNblocks content.length * KERNEL_HEAP_BLOCK_SIZE ≤
    b.ptr.toNat ∨ b.ptr.toNat + sizeToNblocks b.size * KERNEL_HEAP_BLOCK_SIZE ≤ memory.toNat

/-- A file that `fopen` has opened. -/
structure Opens (s u : Kernel) (file : RegularFile disk p) (h : Handle) : Prop where
  reading : Reading s u h []
  openFile : OpenFile file u h.file 0
  raw : u.raw = s.raw
  disk : SameDisk s u
  table : Function.update u.fileTable h.fileno 0 = s.fileTable
  blocks : ∀ b ∈ s.blocks, b ∈ u.blocks

theorem opens_of_fopen (hp : fat16Probe ok disk = .ok (.ok p)) (hbpc : 0 < p.bytesPerCluster)
    (hwhole : p.bytesPerCluster % FAT_ENTRY_SIZE = 0) (hready : Ready disk p s) (hok : s.HeapOk)
    {file : RegularFile disk p} {mode : List Byte} (hnames : Names disk p filename mode (some file.item))
    {fd : Word} (hopen : fopen fuel filename mode s = .ok (fd, u)) (hfd : fd ≠ 0) :
    ∃ h, h.file = fd ∧ Opens s u file h := by
  -- with more fuel the same is found
  obtain ⟨M, hM⟩ := hnames.fuel hp hbpc hwhole
  have hopen' : fopen (max fuel M) filename mode s = .ok (fd, u) :=
    (Below.le (fun n => below_fopen n _ _) (Nat.le_max_left fuel M)).ok hopen
  have hdoes : Does (fun _ => True) (fopen (max fuel M) filename mode) s _ :=
    fopen_finds trivial hok.sizes hready.disk_ne (fun _ => trivial) (fun _ => .inr trivial)
      fun _ _ _ _ => .inr fun _ => trivial
  obtain ⟨rfl, -⟩ | ⟨h, t₀, rfl, hreaches, hmounted, hslot, hat, hfinds, hg, rfl⟩ :=
    hdoes.post hopen'
  · exact absurd rfl hfd
  obtain ⟨hpriv, p', y, hp', hd, hres⟩ := hfinds
  cases hready.mounted.symm.trans hp'
  obtain rfl : file.item = y :=
    Option.some.inj (hready.lookupResult (hM _ (Nat.le_max_right fuel M) hreaches) hres)
  obtain ⟨-, hlt, hzero⟩ := findFreeSlot_some hslot
  have hdisk := SameDisk.grown hg
  refine ⟨h, rfl, .of_handle hok hready.disk_ne hmounted hslot hat hg, ?_,
    (congrArg Kernel.raw hg.still :), ⟨hdisk.1, hdisk.2, hdisk.3, hdisk.4⟩, ?_,
    fun b hb => hg.mem_blocks.mpr (.inr hb)⟩
  swap
  · dsimp only
    rw [Function.update_idem, ← hzero, Function.update_eq_self]
  refine ⟨hg.fsPrivate_eq.trans hready.mounted, hg.disk_eq.trans hready.disk_eq, hat.file_ne, _,
    hat.file, ?_, Int.natCast_nonneg _, Int.ofNat_lt.mpr (by omega), ?_, hpriv, _, hd,
    RegularFile.open_item, rfl, Nat.zero_le _, nofun⟩
  · exact hg.image_eq.symm ▸ hready.disk_ne
  · exact Function.update_self ..

theorem Kernel.closed_still (s : Kernel) (h : Handle) : (s.closed h).still =
    { s.still with fileTable := Function.update s.fileTable h.fileno 0 } :=
  congrArg (fun k : Kernel => { k with fileTable := Function.update s.fileTable h.fileno 0 })
    (foldl_erase_still h.blocks s)

/-- What `fclose` leaves as it is. -/
theorem Reading.fclose_still {h : Handle} {r : Int} (hr : Reading s u h own)
    (hclose : fclose h.file u = .ok (r, t)) :
    t.raw = u.raw ∧ SameDisk u t ∧ t.fileTable = Function.update u.fileTable h.fileno 0 := by
  obtain ⟨w, hclose', hgrown⟩ := hr.closes_grown
  rw [hclose] at hclose'
  obtain ⟨-, rfl⟩ := Prod.mk.inj (Except.ok.inj hclose')
  have hstill := hgrown.still.trans (u.closed_still h)
  exact ⟨(congrArg Kernel.raw hstill :), ⟨(congrArg Kernel.answers hstill :),
    (congrArg Kernel.fsPrivate hstill :), (congrArg (fun k : Kernel => k.dev.disk) hstill :),
    (congrArg Kernel.image hstill :)⟩, (congrArg Kernel.fileTable hstill :)⟩

theorem ReadsWhole.content (hp : fat16Probe ok disk = .ok (.ok p)) (hbpc : 0 < p.bytesPerCluster)
    (hwhole : p.bytesPerCluster % FAT_ENTRY_SIZE = 0) (hready : Ready disk p s) (hok : s.HeapOk)
    {file : RegularFile disk p} (hnames : Names disk p filename (ascii "r") (some file.item))
    (hr : ReadsWhole fuel filename s memory size t) :
    size = file.content.length ∧ HasContent s t memory file.content := by
  obtain ⟨hopen, hfd, hload, hstat, hk, hne, hread, hwrite, hclose⟩ := hr
  rename_i fd f bytes res s₁ s₂ s₃ s₄ s₅
  obtain ⟨h, rfl, ho⟩ := opens_of_fopen hp hbpc hwhole hready hok hnames hopen hfd
  -- its size is the number of bytes that are read
  have hstat' := ho.openFile.fstat
  rw [bind_eq hload, hstat] at hstat'
  obtain ⟨hsize, rfl⟩ := Prod.mk.inj (Except.ok.inj hstat')
  obtain ⟨-, rfl⟩ := Prod.mk.inj hsize
  obtain ⟨hzero, -⟩ | ⟨-, hpos, hfresh, rfl⟩ := kzalloc_ok hk
  · exact absurd hzero hne
  have hopen₃ : OpenFile file (s₂.asked.withBlock memory file.content.length) h.file 0 :=
    ⟨ho.openFile.mounted, ho.openFile.disk_eq, ho.openFile.ne_null, ho.openFile.file⟩
  have hr₃ : Reading s _ h [⟨memory, file.content.length⟩] :=
    ((ho.reading.of_kzalloc hk).resolve_left fun h => hne h.1).2.2
  have hlen : file.content.length * 1 < 2 ^ 32 := by
    have hpos : 0 < memory.toNat := Nat.pos_of_ne_zero fun h0 => hne (BitVec.eq_of_toNat_eq h0)
    have := hfresh.2.1
    omega
  have hs : p.header.sectorsPerCluster ≠ 0 :=
    (fat16Probe_geometry hp).sectorsPerCluster_ne_zero hbpc
  obtain ⟨x, d, dev, -, -, hdev, hread'⟩ := hopen₃.fread_eq (fat16Probe_geometry hp) hs hlen
  rw [Nat.sub_zero, Nat.mul_one, Nat.min_self, List.drop_zero, List.take_length] at hread'
  have hr₄ := hr₃.of_fread hread
  have hr₅ : Reading s s₅ h [⟨memory, file.content.length⟩] := by
    cases hwrite
    exact hr₄.work rfl
  obtain ⟨hraw, hdisk, htable⟩ := hr₅.fclose_still hclose
  obtain ⟨-, hwritten⟩ := writeRaw_ok hwrite
  cases hwrite
  obtain ⟨hbytes, rfl⟩ := Prod.mk.inj (Except.ok.inj (hread.symm.trans hread'))
  obtain ⟨-, rfl⟩ := Prod.mk.inj hbytes
  refine ⟨rfl, ?_, ?_, htable.trans ho.table, ?_⟩
  · rw [hraw, ← ho.raw]
    exact funext hwritten
  · exact ho.disk.trans ⟨hdisk.answers, hdisk.fsPrivate,
      hdisk.dev.trans (hdev.trans ho.openFile.disk_eq.symm), hdisk.image⟩
  · exact fun b hb => hfresh.2.2.2 b (ho.blocks b hb)

theorem ReadsWhole.filed (hr : ReadsWhole fuel filename s memory size t) : Filed s t := by
  obtain ⟨hopen, -, -, hstat, hk, -, hread, hwrite, hclose⟩ := hr
  rename_i s₁ s₂ s₃ s₄ s₅
  have h₃ : Filed s s₃ :=
    Trans.trans (fopen_filed _ _ _ hopen) (Trans.trans (fstat_filed _ hstat) (kzalloc_filed _ hk))
  have h₄ : Filed s s₄ := Trans.trans h₃ (fread_filed _ _ _ hread)
  have h₅ : Filed s₄ s₅ := by
    cases hwrite
    exact ⟨fun ht => ht.of_blocks rfl, fun _ => .inr rfl, fun _ => .inr rfl, fun _ => .inr rfl,
      fun _ => .inr rfl⟩
  exact Trans.trans h₄ (Trans.trans h₅ (fclose_filed _ hclose))

/-! ## Rings and page tables while the file is read -/

theorem Retains.extends (hu : Retains s u own) : Extends s u := by
  have hkeep : ∀ a, s.vacant a = false → u.cell a = s.cell a := fun a ha =>
    hu.cells a fun hnew => by
      have hvacant : s.vacant a = true := hnew.1
      rw [ha] at hvacant
      cases hvacant
  refine ⟨fun a x hx => ?_, fun a x hx => ?_⟩
  · exact (congrArg Cell.table (hkeep a (by simp [vacant, hx]))).trans hx
  · exact (congrArg Cell.handle (hkeep a (by simp [vacant, hx]))).trans hx

theorem Retains.rings (hu : Retains s u own) (h : s.Rings created) : u.Rings created := by
  have hprocs : ∀ p ∈ created, u.procs p = s.procs p := fun p hp => hu.procs_eq (h.ne_none hp)
  have htaskOf : ∀ p ∈ created, u.taskOf p = s.taskOf p := fun p hp => by
    rw [Kernel.taskOf, hprocs p hp, Kernel.taskOf]
  have hpidOf : ∀ p ∈ created, u.pidOf p = s.pidOf p := fun p hp => by
    rw [Kernel.pidOf, hprocs p hp, Kernel.pidOf]
  have hslots : u.processes = s.processes := (congrArg Kernel.processes hu.still :)
  obtain ⟨l, hring, hperm⟩ := h.tasks
  obtain ⟨sys, ps, rfl, hsys, hprocRing⟩ := h.procs
  refine ⟨⟨l, hu.taskRing hring, ?_⟩, ⟨sys, ps, rfl, hu.systemProcess_eq hsys,
    hu.procRing hprocRing⟩, h.ne_null, fun p hp => ?_, fun p hp => ?_, fun pid hpid => ?_, ?_⟩
  · rw [hu.currentTask_eq, List.map_congr_left htaskOf]
    exact hperm
  · have hback := h.back p hp
    have hne : s.tasks (s.taskOf p) ≠ none := fun hnone => by
      rw [Kernel.processOf, hnone] at hback
      cases hback
    rw [htaskOf p hp, ← hback, Kernel.processOf, hu.tasks_eq hne, Kernel.processOf]
  · rw [hslots, hpidOf p hp]
    exact h.slot p hp
  · rw [hslots] at hpid ⊢
    obtain ⟨hmem, heq⟩ := h.used pid hpid
    exact ⟨hmem, (hpidOf _ hmem).trans heq⟩
  · rw [List.map_congr_left hpidOf]
    exact h.pids

theorem Session.Spaces.retains (hs : Session.Spaces ⟨s, created⟩) (hne : created ≠ [])
    (hu : Retains s u own) : Session.Spaces ⟨u, created⟩ := by
  have hrings := hs.inv.rings hne
  have hprocs : ∀ p ∈ created, u.procs p = s.procs p := fun p hp => hu.procs_eq (hrings.ne_none hp)
  have himage : u.image = s.image := (congrArg Kernel.image hu.still :)
  have hcur : u.currentDirectory = s.currentDirectory :=
    (congrArg Kernel.currentDirectory hu.still :)
  refine ⟨⟨fun h => absurd h hne, fun _ => ?_, fun _ => hu.rings hrings, fun p hp => ?_⟩,
    hs.on.extend hu.extends himage hcur, fun p hp => ?_⟩
  · change u.currentTask ≠ 0
    rw [hu.currentTask_eq]
    exact hs.inv.current hne
  · have hmem : p ∈ created := by
      rw [show created = [p] from hp]
      exact List.mem_cons_self
    change u.pidOf p = 0
    rw [Kernel.pidOf, hprocs p hmem]
    exact hs.inv.first p hp
  · obtain ⟨hd, dir, hdir⟩ := hs.directories p hp
    have hsame : u.directoryOf p = s.directoryOf p := by
      rw [Kernel.directoryOf, hprocs p hp, Kernel.directoryOf]
    change ∃ hd dir, DirInv _ u (u.directoryOf p) hd dir
    rw [hsame]
    exact ⟨hd, dir, (hdir.extend hu.extends).1⟩

end

/-! ## Loaded programs -/

/-- A process, and the file that it was loaded from. -/
structure Program (disk : Disk) (p : FatPrivate) where
  process : Word
  file : RegularFile disk p

structure LoadSession (disk : Disk) (p : FatPrivate) where
  kernel : Kernel
  created : List Word
  programs : List (Program disk p)

inductive LoadCall
  | load (filename : List Byte)
  | timer (frame : Word)

/-- `process->memory`. -/
def Kernel.memoryOf (s : Kernel) (process : Word) : Word := (s.procs process).elim 0 Process.memory

/-- In the first four megabytes of the kernel's range. -/
def InKernelRange (memory : Word) (size : Nat) : Prop :=
  KERNEL_VIRTUAL_BASE.toNat ≤ memory.toNat ∧ memory.toNat + size ≤ 0xC0400000

instance (memory : Word) (size : Nat) : Decidable (InKernelRange memory size) :=
  inferInstanceAs (Decidable (_ ∧ _))

theorem InKernelRange.within {memory : Word} {size : Nat} (h : InKernelRange memory size) :
    memory.toNat + size ≤ 2 ^ 32 := h.2.trans (by decide)

theorem InKernelRange.le_heapSize {memory : Word} {size : Nat} (h : InKernelRange memory size) :
    size ≤ KERNEL_HEAP_SIZE := by
  obtain ⟨hlo, hhi⟩ := h
  replace hlo : 0xC0000000 ≤ memory.toNat := hlo
  unfold KERNEL_HEAP_SIZE
  omega

/-- The process has the content of its file at `PROGRAM_BASE_VIRT_ADDR`. -/
def Program.InMemory {disk : Disk} {p : FatPrivate} (g : Program disk p) (s : Kernel) : Prop :=
  ∀ i < g.file.content.length, ∃ va phys,
    s.translation s.image.kernelPageDirectory va = .ok phys ∧
    s.translation (s.directoryOf g.process) (PROGRAM_BASE_VIRT_ADDR + BitVec.ofNat 32 i) = .ok phys ∧
    s.raw va = g.file.content.getD i 0

/-- No byte of memory is in both programs. -/
def Program.Apart {disk : Disk} {p : FatPrivate} (s : Kernel) (g g' : Program disk p) : Prop :=
  ∀ i < g.file.content.length, ∀ j < g'.file.content.length,
    s.translation (s.directoryOf g.process) (PROGRAM_BASE_VIRT_ADDR + BitVec.ofNat 32 i) ≠
      s.translation (s.directoryOf g'.process) (PROGRAM_BASE_VIRT_ADDR + BitVec.ofNat 32 j)

namespace LoadSession

variable {disk : Disk} {p : FatPrivate} {ok : Nat → Bool}

/-- `process_load` returns `0`; the path names a regular file, and the memory that it gets for its
content is where the kernel has mapped its heap. The timer interrupts. -/
inductive Step : LoadSession disk p → LoadCall → LoadSession disk p → Prop
  | load {s : LoadSession disk p} {filename : List Byte} {fuel slot : Nat} {k : Kernel}
      {file : RegularFile disk p} (hnames : Names disk p filename (ascii "r") (some file.item))
      (hslot : findFreeSlot s.kernel.processes MAX_PROCESSES 0 = some slot)
      (hrun : processLoad fuel filename s.kernel = .ok (0, k))
      (hrange : InKernelRange (k.memoryOf (k.processes slot)) file.content.length) :
      Step s (.load filename)
        ⟨k, s.created ++ [k.processes slot], ⟨k.processes slot, file⟩ :: s.programs⟩
  | timer {s : LoadSession disk p} {frame r : Word} {k : Kernel}
      (hrun : int0x20Handler frame s.kernel = .ok (r, k)) :
      Step s (.timer frame) ⟨k, s.created, s.programs⟩

/-- Where a loaded program is. -/
structure Loaded (s : Kernel) (g : Program disk p) : Prop where
  range : InKernelRange (s.memoryOf g.process) g.file.content.length
  block : ⟨s.memoryOf g.process, g.file.content.length⟩ ∈ s.blocks
  raw : ∀ i < g.file.content.length,
    s.raw (s.memoryOf g.process + BitVec.ofNat 32 i) = g.file.content.getD i 0
  mapped : ∀ i < g.file.content.length,
    s.translation (s.directoryOf g.process) (PROGRAM_BASE_VIRT_ADDR + BitVec.ofNat 32 i) =
      s.translation s.image.kernelPageDirectory (s.memoryOf g.process + BitVec.ofNat 32 i)

/-- The first four megabytes are mapped at the kernel's range. -/
def LowMapped (s : Kernel) : Prop := ∀ va, vAddrPagedirIndex va = 768 →
  s.translation s.image.kernelPageDirectory va = .ok (vAddrPageframeIndexPse va)

structure Inv (s : LoadSession disk p) : Prop where
  spaces : Session.Spaces ⟨s.kernel, s.created⟩
  two : 2 ≤ s.created.length
  ready : Ready disk p s.kernel
  tiled : s.kernel.Tiled
  low : LowMapped s.kernel
  programs : ∀ g ∈ s.programs, g.process ∈ s.created ∧ Loaded s.kernel g
  apart : s.programs.Pairwise fun g g' =>
    (s.kernel.memoryOf g.process).toNat + g.file.content.length ≤
        (s.kernel.memoryOf g'.process).toNat ∨
      (s.kernel.memoryOf g'.process).toNat + g'.file.content.length ≤
        (s.kernel.memoryOf g.process).toNat

/-- The address in the kernel's range of a byte, and the frame that it is in. -/
theorem LowMapped.translation {s : Kernel} (h : LowMapped s) {memory : Word} {size i : Nat}
    (hrange : InKernelRange memory size) (hi : i < size) :
    s.translation s.image.kernelPageDirectory (memory + BitVec.ofNat 32 i) =
      .ok (BitVec.ofNat 32 (memory.toNat - 0xC0000000 + i)) := by
  have hnat := toNat_add_ofNat hrange.within hi
  obtain ⟨hlo, hhi⟩ := hrange
  replace hlo : 0xC0000000 ≤ memory.toNat := hlo
  rw [h _ (by rw [vAddrPagedirIndex_eq, hnat]; omega)]
  refine congrArg _ (BitVec.eq_of_toNat_eq ?_)
  rw [vAddrPageframeIndexPse_toNat, hnat, BitVec.toNat_ofNat]
  omega

/-- A program stays where it is while others are loaded. -/
theorem Loaded.stays {s t : Kernel} {g : Program disk p} (h : Loaded s g)
    (hmemory : t.memoryOf g.process = s.memoryOf g.process)
    (hdir : t.directoryOf g.process = s.directoryOf g.process) (himage : t.image = s.image)
    (hblocks : ∀ b ∈ s.blocks, b ∈ t.blocks)
    (hraw : ∀ i < g.file.content.length, t.raw (s.memoryOf g.process + BitVec.ofNat 32 i) =
      s.raw (s.memoryOf g.process + BitVec.ofNat 32 i))
    (hkernel : ∀ va, t.translation s.image.kernelPageDirectory va =
      s.translation s.image.kernelPageDirectory va)
    (hown : ∀ va, t.translation (s.directoryOf g.process) va =
      s.translation (s.directoryOf g.process) va) : Loaded t g where
  range := hmemory ▸ h.range
  block := hmemory ▸ hblocks _ h.block
  raw i hi := by rw [hmemory, hraw i hi, h.raw i hi]
  mapped i hi := by rw [hmemory, hdir, himage, hkernel, hown, h.mapped i hi]

theorem Loaded.inMemory {s : Kernel} {g : Program disk p} (h : Loaded s g) (hlow : LowMapped s) :
    g.InMemory s := fun i hi =>
  ⟨_, _, hlow.translation h.range hi, (h.mapped i hi).trans (hlow.translation h.range hi), h.raw i hi⟩

/-- Programs in two blocks have no byte in common. -/
theorem Loaded.apart {s : Kernel} {g g' : Program disk p} (h : Loaded s g) (h' : Loaded s g')
    (hlow : LowMapped s) (hapart : (s.memoryOf g.process).toNat + g.file.content.length ≤
        (s.memoryOf g'.process).toNat ∨
      (s.memoryOf g'.process).toNat + g'.file.content.length ≤ (s.memoryOf g.process).toNat) :
    g.Apart s g' := by
  intro i hi j hj heq
  rw [h.mapped i hi, h'.mapped j hj, hlow.translation h.range hi, hlow.translation h'.range hj] at heq
  have hnat := congrArg BitVec.toNat (Except.ok.inj heq)
  rw [BitVec.toNat_ofNat, BitVec.toNat_ofNat] at hnat
  obtain ⟨hlo, hhi⟩ := h.range
  obtain ⟨hlo', hhi'⟩ := h'.range
  replace hlo : 0xC0000000 ≤ (s.memoryOf g.process).toNat := hlo
  replace hlo' : 0xC0000000 ≤ (s.memoryOf g'.process).toNat := hlo'
  omega

variable {s t : LoadSession disk p}

/-- A call that adds page tables and blocks, and writes only to what it has added. -/
structure Keeping (s t : Kernel) (created : List Word) : Prop where
  kept : Extends s t
  image : t.image = s.image
  memoryOf : ∀ q ∈ created, t.memoryOf q = s.memoryOf q
  directoryOf : ∀ q ∈ created, t.directoryOf q = s.directoryOf q
  blocks : ∀ b ∈ s.blocks, b ∈ t.blocks
  raw : ∀ b ∈ s.blocks, ∀ x : Word, b.ptr.toNat ≤ x.toNat → x.toNat < b.ptr.toNat + b.size →
    t.raw x = s.raw x

/-- The parts of the invariant that such a call keeps. -/
theorem Inv.keeping (h : s.Inv) {k : Kernel} (hk : Keeping s.kernel k s.created) :
    LowMapped k ∧ (∀ g ∈ s.programs, g.process ∈ s.created ∧ Loaded k g) ∧
      s.programs.Pairwise fun g g' =>
        (k.memoryOf g.process).toNat + g.file.content.length ≤ (k.memoryOf g'.process).toNat ∨
          (k.memoryOf g'.process).toNat + g'.file.content.length ≤ (k.memoryOf g.process).toNat := by
  obtain ⟨hd, dir, hker⟩ := h.spaces.on.directory
  have hkernel : ∀ va, k.translation s.kernel.image.kernelPageDirectory va =
      s.kernel.translation s.kernel.image.kernelPageDirectory va :=
    fun va => hker.translation_extend hk.kept
  refine ⟨fun va hva => ?_, fun g hg => ?_, h.apart.imp_of_mem fun {g g'} hg hg' happ => ?_⟩
  · rw [hk.image, hkernel]
    exact h.low va hva
  · obtain ⟨hmem, hl⟩ := h.programs g hg
    obtain ⟨hd', dir', hown⟩ := h.spaces.directories g.process hmem
    refine ⟨hmem, hl.stays (hk.memoryOf _ hmem) (hk.directoryOf _ hmem) hk.image hk.blocks
      (fun i hi => ?_) hkernel fun va => hown.translation_extend hk.kept⟩
    have hnat := toNat_add_ofNat hl.range.within hi
    refine hk.raw _ hl.block _ ?_ ?_ <;> rw [hnat]
    · exact Nat.le_add_right _ _
    · exact Nat.add_lt_add_left hi _
  · rw [hk.memoryOf _ (h.programs g hg).1, hk.memoryOf _ (h.programs g' hg').1]
    exact happ

/-- Work that touches neither tasks nor page tables, and none of the bytes of a program. -/
theorem Inv.other (h : s.Inv) {k : Kernel} (hother : OtherWork s.kernel k) (hready : Ready disk p k)
    (htiled : k.Tiled)
    (hblocks : ∀ g ∈ s.programs, ⟨s.kernel.memoryOf g.process, g.file.content.length⟩ ∈ k.blocks)
    (hraw : ∀ g ∈ s.programs, ∀ i < g.file.content.length,
      k.raw (s.kernel.memoryOf g.process + BitVec.ofNat 32 i) =
        s.kernel.raw (s.kernel.memoryOf g.process + BitVec.ofNat 32 i)) :
    Inv ⟨k, s.created, s.programs⟩ := by
  have hspaces : Session.Spaces ⟨k, s.created⟩ :=
    Session.step_spaces h.spaces ⟨.other hother, trivial⟩
  rw [OtherWork] at hother
  have hprocs : k.procs = s.kernel.procs := by rw [hother]
  have himage : k.image = s.kernel.image := by rw [hother]
  have hmemory : ∀ q, k.memoryOf q = s.kernel.memoryOf q := fun q => by
    rw [Kernel.memoryOf, hprocs, Kernel.memoryOf]
  have hdirectory : ∀ q, k.directoryOf q = s.kernel.directoryOf q := fun q => by
    rw [Kernel.directoryOf, hprocs, Kernel.directoryOf]
  have hkept : Extends s.kernel k := .of_eq (by rw [hother]) (by rw [hother])
  obtain ⟨hd, dir, hker⟩ := h.spaces.on.directory
  refine ⟨hspaces, h.two, hready, htiled, fun va hva => ?_, fun g hg => ?_, ?_⟩
  · change k.translation k.image.kernelPageDirectory va = _
    rw [himage, hker.translation_extend hkept]
    exact h.low va hva
  · obtain ⟨hmem, hl⟩ := h.programs g hg
    obtain ⟨hd', dir', hown⟩ := h.spaces.directories g.process hmem
    refine ⟨hmem, ?_, ?_, fun i hi => ?_, fun i hi => ?_⟩ <;> dsimp only <;> rw [hmemory]
    · exact hl.range
    · exact hblocks g hg
    · rw [hraw g hg i hi, hl.raw i hi]
    · rw [hdirectory, himage, hown.translation_extend hkept, hker.translation_extend hkept]
      exact hl.mapped i hi
  · simp only [hmemory]
    exact h.apart

/-- The timer interrupt. -/
theorem Inv.timer (h : s.Inv) {frame r : Word} {k : Kernel}
    (hrun : int0x20Handler frame s.kernel = .ok (r, k)) : Inv ⟨k, s.created, s.programs⟩ := by
  have hne : s.created ≠ [] := List.ne_nil_of_length_pos (by have := h.two; omega)
  have hrest := (int0x20Handler_ok hrun (h.spaces.inv.current hne)).rest
  have hprocs : k.procs = s.kernel.procs := by rw [hrest]
  have hkeep : Keeping s.kernel k s.created := by
    refine ⟨.of_eq (by rw [hrest]) (by rw [hrest]), by rw [hrest], fun q _ => ?_, fun q _ => ?_,
      by rw [hrest]; exact fun _ => id, by rw [hrest]; exact fun _ _ _ _ _ => rfl⟩
    · rw [Kernel.memoryOf, hprocs, Kernel.memoryOf]
    · rw [Kernel.directoryOf, hprocs, Kernel.directoryOf]
  obtain ⟨hlow, hprograms, hapart⟩ := h.keeping hkeep
  have hspaces : Session.Spaces ⟨k, s.created⟩ := (Session.step_tasking
    (⟨h.spaces, h.two⟩ : Session.Tasking ⟨s.kernel, s.created⟩) (.timer hrun)).spaces
  refine ⟨hspaces, h.two, ?_, ?_, hlow, hprograms, hapart⟩
  · have hsame : SameDisk s.kernel k := by rw [hrest]; exact ⟨rfl, rfl, rfl, rfl⟩
    exact hsame.ready h.ready
  · exact h.tiled.of_blocks (by rw [hrest])

theorem Keeping.trans {s t u : Kernel} {created : List Word} (h : Keeping s t created)
    (h' : Keeping t u created) : Keeping s u created where
  kept := h.kept.trans h'.kept
  image := h'.image.trans h.image
  memoryOf q hq := (h'.memoryOf q hq).trans (h.memoryOf q hq)
  directoryOf q hq := (h'.directoryOf q hq).trans (h.directoryOf q hq)
  blocks b hb := h'.blocks b (h.blocks b hb)
  raw b hb x h₁ h₂ := (h'.raw b (h.blocks b hb) x h₁ h₂).trans (h.raw b hb x h₁ h₂)

theorem le_blocks (size : Nat) : size ≤ sizeToNblocks size * KERNEL_HEAP_BLOCK_SIZE := by
  unfold sizeToNblocks KERNEL_HEAP_BLOCK_SIZE
  split <;> omega

/-- `process_load_binary`. -/
theorem Inv.reads (h : s.Inv) (hne : s.created ≠ []) {u : Kernel} {memory : Word}
    {content : List Byte} (hholds : Retains s.kernel u [⟨memory, content.length⟩])
    (hcontent : HasContent s.kernel u memory content) (hrange : memory.toNat + content.length ≤ 2 ^ 32) :
    Keeping s.kernel u s.created := by
  have hrings := h.spaces.inv.rings hne
  have hprocs : ∀ q ∈ s.created, u.procs q = s.kernel.procs q := fun q hq =>
    hholds.procs_eq (hrings.ne_none hq)
  refine ⟨hholds.extends, hcontent.disk.image, fun q hq => ?_, fun q hq => ?_, fun b hb => ?_,
    fun b hb x h₁ h₂ => ?_⟩
  · rw [Kernel.memoryOf, hprocs q hq, Kernel.memoryOf]
  · rw [Kernel.directoryOf, hprocs q hq, Kernel.directoryOf]
  · exact hholds.blocks.mem_iff.mpr (List.mem_append_right _ hb)
  · rw [hcontent.raw]
    refine if_neg fun hlt => ?_
    rw [BitVec.toNat_sub] at hlt
    have hapart := hcontent.fresh b hb
    have hle := le_blocks content.length
    have hle' := le_blocks b.size
    have := x.isLt
    omega

/-- `process_init`. -/
theorem keeping_created {s t : Kernel} {slot : Nat} {sys process task : Word} {l ps created : List Word}
    {x : Process} (hc : Created s t slot sys l ps process task x) (hkept : Extends s t)
    (hnew : process ∉ created) : Keeping s t created := by
  have hother : ∀ q ∈ created, q ≠ process := fun q hq heq => hnew (heq ▸ hq)
  have hrest := hc.rest
  refine ⟨hkept, by rw [hrest], fun q hq => ?_, fun q hq => ?_, fun b hb => hc.blocks.subset hb,
    fun _ _ _ _ _ => by rw [hrest]⟩
  · exact (hc.toProcessAdded.elim_eq 0 (f := Process.memory) fun _ => rfl).2 q (hother q hq)
  · exact hc.toProcessAdded.directoryOf.2 q (hother q hq)

/-- The two halves of a `process_load` that returns `0`: the file is read from `s` to `u`, and the
process is created from `u` to `k`. -/
structure LoadParts (s u k : Kernel) (fuel : Nat) (filename : List Byte) (slot : Nat) (memory : Word)
    (content : List Byte) : Prop where
  read : ReadsWhole fuel filename s memory content.length u
  retains : Retains s u [⟨memory, content.length⟩]
  holds : HasContent s u memory content
  pos : 0 < content.length
  init : processInit filename memory content.length false slot u = .ok (0, k)
  created : ∃ sys l ps task x, Created u k slot sys l ps (k.processes slot) task x ∧
    x.memory = memory ∧ ProcessSpace u k x.pageDirectory memory x.stack content.length

theorem LoadParts.memoryOf {u k : Kernel} {fuel slot : Nat} {filename content : List Byte}
    {memory : Word} {s₀ : Kernel} (h : LoadParts s₀ u k fuel filename slot memory content) :
    k.memoryOf (k.processes slot) = memory := by
  obtain ⟨sys, l, ps, task, x, hc, rfl, -⟩ := h.created
  exact (hc.toProcessAdded.elim_eq 0 (f := Process.memory) fun _ => rfl).1

/-- The program that has been loaded is in memory. -/
theorem LoadParts.loaded {u k s₀ : Kernel} {fuel slot : Nat} {filename : List Byte} {memory : Word}
    {file : RegularFile disk p} (h : LoadParts s₀ u k fuel filename slot memory file.content)
    (hrange : InKernelRange memory file.content.length) (hlow : LowMapped u) (hon : u.OnKernel) :
    Loaded k ⟨k.processes slot, file⟩ := by
  have hmemory := h.memoryOf
  obtain ⟨-, hholds, hcontent, -, -, sys, l, ps, task, x, hc, rfl, hspace⟩ := h
  have hblock : ⟨x.memory, file.content.length⟩ ∈ k.blocks :=
    hc.blocks.subset (hholds.blocks.mem_iff.mpr List.mem_cons_self)
  refine ⟨by rw [hmemory]; exact hrange, by rw [hmemory]; exact hblock, fun i hi => ?_,
    fun i hi => ?_⟩ <;> rw [hmemory]
  · have hraw : k.raw = u.raw := by rw [hc.rest]
    replace hi : i < file.content.length := hi
    have hlen := Nat.le_trans (Nat.le_add_left ..) hrange.within
    have hnat := offset_toNat x.memory (Nat.lt_of_lt_of_le hi hlen)
    rw [hraw, hcontent.raw]
    dsimp only
    rw [hnat, if_pos hi]
  · have hcontiguous : u.Contiguous x.memory file.content.length := by
      refine ⟨BitVec.ofNat 32 (x.memory.toNat - 0xC0000000), fun i hi => ?_⟩
      rw [hlow.translation hrange hi, BitVec.ofNat_add]
    have himage : k.image = u.image := by rw [hc.rest]
    obtain ⟨phys, hkernel, hprogram⟩ :=
      hspace.translates_program hon himage hrange.le_heapSize hcontiguous hi
    rw [hc.toProcessAdded.directoryOf.1, hkernel, hprogram]

theorem Inv.load_parts (h : s.Inv) (hp : fat16Probe ok disk = .ok (.ok p))
    (hbpc : 0 < p.bytesPerCluster) (hwhole : p.bytesPerCluster % FAT_ENTRY_SIZE = 0)
    {filename : List Byte} {fuel slot : Nat} {k : Kernel} {file : RegularFile disk p}
    (hnames : Names disk p filename (ascii "r") (some file.item))
    (hslot : findFreeSlot s.kernel.processes MAX_PROCESSES 0 = some slot)
    (hrun : processLoad fuel filename s.kernel = .ok (0, k))
    (hrange : InKernelRange (k.memoryOf (k.processes slot)) file.content.length) :
    ∃ u memory, LoadParts s.kernel u k fuel filename slot memory file.content := by
  have hne : s.created ≠ [] := List.ne_nil_of_length_pos (by have := h.two; omega)
  replace hrun := bind_get_ok hrun
  rw [hslot] at hrun
  obtain ⟨⟨res, memory, size⟩, u, hbinary, hinit⟩ := bind_ok hrun
  obtain ⟨rfl, hread⟩ := (processLoadBinary_iff h.tiled.heapOk h.ready.disk_ne).mp hbinary
  obtain ⟨hholds, hpos⟩ := hread.holds h.tiled.heapOk h.ready.disk_ne
  obtain ⟨rfl, hcontent⟩ := hread.content hp hbpc hwhole h.ready h.tiled.heapOk hnames
  have hspaces : Session.Spaces ⟨u, s.created⟩ := h.spaces.retains hne hholds
  have hsize : file.content.length ≤ KERNEL_HEAP_SIZE := by
    have := hrange.2
    have hlo : 0xC0000000 ≤ (k.memoryOf (k.processes slot)).toNat := hrange.1
    unfold KERNEL_HEAP_SIZE
    omega
  replace hinit : processInit filename memory file.content.length false slot u = .ok (0, k) := hinit
  obtain ⟨sys, l, ps, process, task, x, hc, hmemory, -, hspace⟩ := hspaces.create hne hsize hinit
  obtain rfl : k.processes slot = process := by rw [hc.processes, Function.update_self]
  exact ⟨u, memory, hread, hholds, hcontent, hpos, hinit, sys, l, ps, task, x, hc, hmemory, hspace⟩

/-- Neither half touches the programs that are loaded. -/
theorem Inv.keeping_parts (h : s.Inv) {u k : Kernel} {fuel slot : Nat} {filename content : List Byte}
    {memory : Word} (hparts : LoadParts s.kernel u k fuel filename slot memory content)
    (hrange : memory.toNat + content.length ≤ 2 ^ 32) :
    Keeping s.kernel u s.created ∧ Keeping u k s.created := by
  have hne : s.created ≠ [] := List.ne_nil_of_length_pos (by have := h.two; omega)
  obtain ⟨sys, l, ps, task, x, hc, -, hspace⟩ := hparts.created
  have hspaces : Session.Spaces ⟨u, s.created⟩ := h.spaces.retains hne hparts.retains
  refine ⟨h.reads hne hparts.retains hparts.holds hrange, keeping_created hc hspace.kept fun hmem => ?_⟩
  exact (hspaces.inv.rings hne).ne_none hmem hc.fresh

/-- A program is loaded. -/
theorem Inv.load (h : s.Inv) (hp : fat16Probe ok disk = .ok (.ok p)) (hbpc : 0 < p.bytesPerCluster)
    (hwhole : p.bytesPerCluster % FAT_ENTRY_SIZE = 0) {filename : List Byte} {fuel slot : Nat}
    {k : Kernel} {file : RegularFile disk p}
    (hnames : Names disk p filename (ascii "r") (some file.item))
    (hslot : findFreeSlot s.kernel.processes MAX_PROCESSES 0 = some slot)
    (hrun : processLoad fuel filename s.kernel = .ok (0, k))
    (hrange : InKernelRange (k.memoryOf (k.processes slot)) file.content.length) :
    Inv ⟨k, s.created ++ [k.processes slot], ⟨k.processes slot, file⟩ :: s.programs⟩ := by
  have hne : s.created ≠ [] := List.ne_nil_of_length_pos (by have := h.two; omega)
  obtain ⟨u, memory, hload⟩ := h.load_parts hp hbpc hwhole hnames hslot hrun hrange
  have hmemory := hload.memoryOf
  rw [hmemory] at hrange
  obtain ⟨hku, huk⟩ := h.keeping_parts hload (by have := hrange.2; omega)
  have hspaces : Session.Spaces ⟨u, s.created⟩ := h.spaces.retains hne hload.retains
  have hloaded : Loaded k ⟨k.processes slot, file⟩ :=
    hload.loaded hrange (h.keeping hku).1 hspaces.on
  obtain ⟨hread, hholds, hcontent, hpos, hinit, sys, l, ps, task, x, hc, rfl, hspace⟩ := hload
  obtain ⟨hlow, hprograms, hapart⟩ := h.keeping (hku.trans huk)
  have hrest := hc.rest
  refine ⟨?_, ?_, ?_, ?_, hlow, ?_, ?_⟩
  · have hslots : u.processes = s.kernel.processes := (congrArg Kernel.processes hholds.still :)
    have hfree : u.processes slot = 0 := by
      rw [hslots]
      exact (findFreeSlot_some hslot).2.2
    exact Session.step_spaces hspaces
      ⟨.create h.two (by have := (findFreeSlot_some hslot).2.1; omega) hfree hinit,
        hrange.le_heapSize⟩
  · have := h.two
    simp only [List.length_append]
    omega
  · have hsame : SameDisk u k := by rw [hrest]; exact ⟨rfl, rfl, rfl, rfl⟩
    exact (hcontent.disk.trans hsame).ready h.ready
  · exact (processInit_added hinit (hread.filed.tiled h.tiled)).1
  · intro g hg
    rcases List.mem_cons.mp hg with rfl | hg
    · exact ⟨List.mem_append_right _ List.mem_cons_self, hloaded⟩
    · exact ⟨List.mem_append_left _ (hprograms g hg).1, (hprograms g hg).2⟩
  · refine List.pairwise_cons.mpr ⟨fun g hg => ?_, hapart⟩
    have hfresh := hcontent.fresh _ (h.programs g hg).2.block
    have hsame := (hku.trans huk).memoryOf _ (h.programs g hg).1
    rw [hmemory, hsame]
    have h₁ := le_blocks file.content.length
    have h₂ := le_blocks g.file.content.length
    dsimp only at hfresh ⊢
    omega

/-- What `tasking_init` leaves as it is. -/
theorem taskingInit_rest {k₀ k k' m : Kernel} {y : Unit} (hp : Paged k₀ k)
    (hcur : k₀.currentTask = 0) (hslots : ∀ pid, k₀.processes pid = 0) (hother : OtherWork k k')
    (h : taskingInit k' = .ok (y, m)) (htask : (m.procs (m.processes 1)).map Process.task ≠ some 0) :
    m.tables = k'.tables ∧ m.handles = k'.handles ∧ SameDisk k' m ∧ m.fileTable = k'.fileTable := by
  obtain ⟨_, u, hsystem, hidle⟩ := bind_ok h
  have hspaces : Session.Spaces ⟨u, [u.processes 0]⟩ := Session.step_spaces
    (Session.step_spaces (.start hp hcur hslots) ⟨.other hother, trivial⟩)
    ⟨.system rfl hsystem, trivial⟩
  obtain ⟨process, hc⟩ := initSystemProcess_ok hsystem
  obtain ⟨l, hring, -⟩ := (hspaces.inv.rings (List.cons_ne_nil _ _)).tasks
  obtain ⟨sys, ps, -, hsys, hprocs⟩ := (hspaces.inv.rings (List.cons_ne_nil _ _)).procs
  obtain ⟨htables, hhandles, process', task, z, hc', -⟩ :=
    initIdleProcess_ok hring hsys hprocs hidle htask
  have hrest := hc.rest
  have hrest' := hc'.rest
  have hsystem' : SameDisk k' u := by
    rw [hrest]
    exact ⟨rfl, rfl, rfl, rfl⟩
  refine ⟨htables.trans (by rw [hrest]), hhandles.trans (by rw [hrest]), hsystem'.trans ?_, ?_⟩
  · rw [hrest']
    exact ⟨rfl, rfl, rfl, rfl⟩
  · rw [hrest', hrest]

/-- After `tasking_init` no program is loaded. -/
theorem Inv.start {k₀ k k' m : Kernel} {x y : Unit} (hboot : k₀.Boot)
    (hpaging : pagingInit k₀ = .ok (x, k)) (hcur : k₀.currentTask = 0)
    (hslots : ∀ pid, k₀.processes pid = 0) (hother : OtherWork k k') (hready : Ready disk p k')
    (htiled : k'.Tiled) (htasking : taskingInit k' = .ok (y, m))
    (htask : (m.procs (m.processes 1)).map Process.task ≠ some 0) :
    Inv (⟨m, [m.processes 0, m.processes 1], []⟩ : LoadSession disk p) := by
  have hpaged := pagingInit_ok hboot hpaging
  obtain ⟨htasks, -⟩ := taskingInit_ok hpaged hcur hslots hother htasking htask
  obtain ⟨htables, hhandles, hdisk, -⟩ := taskingInit_rest hpaged hcur hslots hother htasking htask
  refine ⟨htasks.spaces, htasks.two, hdisk.ready hready, (taskingInit_added htasking htiled).1,
    fun va hva => ?_, by simp, .nil⟩
  obtain ⟨hd, dir, hker, -⟩ := hpaged.directory
  have hwork := hother
  rw [OtherWork] at hwork
  have himage : m.image = k₀.image := by rw [hdisk.image, hwork, hpaged.rest]
  have hkept : Extends k m := .of_eq (by rw [htables, hwork]) (by rw [hhandles, hwork])
  change m.translation m.image.kernelPageDirectory va = _
  rw [himage, hker.translation_extend hkept]
  exact hpaged.translation_low (.inr hva)

/-- Every loaded program is in memory, and no two of them share a byte. -/
theorem Inv.inMemory (h : s.Inv) :
    (∀ g ∈ s.programs, g.InMemory s.kernel) ∧ s.programs.Pairwise (Program.Apart s.kernel) := by
  refine ⟨fun g hg => (h.programs g hg).2.inMemory h.low, ?_⟩
  exact h.apart.imp_of_mem fun hg hg' happ =>
    (h.programs _ hg).2.apart (h.programs _ hg').2 h.low happ

end LoadSession

end AvocadOS
