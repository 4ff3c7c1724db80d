import AvocadOS.Kernel.Main

/-!
# The kernel and its clients

From `kernel_main` on, code of the kernel opens, reads and closes files, allocates buffers and frees
them, and loads programs, while the timer interrupts. All of it shares one heap and one memory.

* `FileWork`, `ContentsInv.fileWork`: what a call on files is for the rest of the kernel;
* `ContentsInv.moved`: the open files while the rest of the kernel works;
* `ClientSession.Step`: one call of a client;
* `ClientSession.step_inv`: what every call keeps;
* `ClientSession.kernelMain_serves`: files, buffers and programs after every sequence of calls.
-/

namespace AvocadOS

open Kernel

set_option linter.style.nameCheck false

/-! ## A call on files, for the rest of the kernel -/

/-- No task and no page table is touched, no byte of memory is written, and new blocks are at new
addresses. -/
structure FileWork (s t : Kernel) : Prop where
  other : OtherWork s t
  raw : t.raw = s.raw
  tiled : t.Tiled
  blocks : ∀ b ∈ t.blocks, b ∈ s.blocks ∨ s.New b.ptr

section

variable {s t u : Kernel} {own : List Block} {a : Word}

theorem Kernel.bare_congr (hcell : t.cell a = s.cell a) (h : s.Bare a) : t.Bare a :=
  ⟨(congrArg Cell.table hcell).trans h.tables, (congrArg Cell.handle hcell).trans h.handles,
    (congrArg Cell.task hcell).trans h.tasks, (congrArg Cell.proc hcell).trans h.procs⟩

theorem Kernel.cell_of_bare (hs : s.Bare a) (ht : t.Bare a)
    (hcell : t.cell a = { s.cell a with
      table := t.tables a, handle := t.handles a, task := t.tasks a, proc := t.procs a }) :
    t.cell a = s.cell a := by
  rw [hcell, ht.tables, ht.handles, ht.tasks, ht.procs, cell, hs.tables, hs.handles, hs.tasks,
    hs.procs]

/-- The timer interrupt leaves the address bare. -/
theorem Kernel.Interrupted.bare {frame r : Word} (h : Interrupted s t frame r) (hb : s.Bare a) :
    t.Bare a := by
  have hnext : (t.tasks a).map Task.next = (s.tasks a).map Task.next := congrFun h.nextTask a
  rw [hb.tasks, Option.map_none, Option.map_eq_none_iff] at hnext
  refine ⟨?_, ?_, hnext, ?_⟩ <;> rw [h.rest]
  · exact hb.tables
  · exact hb.handles
  · exact hb.procs

theorem SameObjects.otherWork (h : SameObjects s t)
    (hstill : t.still = { s.still with fileTable := t.fileTable }) : OtherWork s t := by
  obtain ⟨htables, hhandles, htasks, hprocs⟩ := h
  cases s
  cases t
  simp only [OtherWork, still, Kernel.blank, Kernel.mk.injEq] at *
  grind

theorem Kernel.OtherWork.bare (h : OtherWork s t) (hb : s.Bare a) : t.Bare a := by
  rw [OtherWork] at h
  rw [h]
  exact ⟨hb.tables, hb.handles, hb.tasks, hb.procs⟩

/-- A block without an object of the tasking layer is freed. -/
theorem Kernel.Bare.otherWork_erase (h : s.Bare a) (blocks : List Block) :
    OtherWork s { s.erase a with blocks := blocks } := by
  obtain ⟨htables, hhandles, htasks, hprocs⟩ := h
  rw [OtherWork, Kernel.erase]
  dsimp only
  rw [update_none htables, update_none hhandles, update_none htasks, update_none hprocs]

/-- While a program is loaded, a block without an object of the tasking layer stays as it is. -/
theorem LoadSession.LoadParts.bare_cell {k : Kernel} {fuel slot : Nat} {filename content : List Byte}
    {memory : Word} (h : LoadSession.LoadParts s u k fuel filename slot memory content)
    (ht : s.Tiled) {b : Block} (hb : b ∈ s.blocks) (hbare : s.Bare b.ptr) :
    k.Bare b.ptr ∧ k.cell b.ptr = s.cell b.ptr := by
  obtain ⟨hread, hholds, -, -, hinit, sys, l, ps, task, x, hc, rfl, -⟩ := h
  obtain ⟨-, -, hadded⟩ := processInit_added hinit (hread.filed.tiled ht)
  have hcell : u.cell b.ptr = s.cell b.ptr := hholds.cells b.ptr fun hnew => hnew.2 b hb rfl
  have hu : u.Bare b.ptr := bare_congr hcell hbare
  have hk : k.Bare b.ptr := hadded b (hholds.blocks.mem_iff.mpr (List.mem_cons_of_mem _ hb)) hu
  refine ⟨hk, (cell_of_bare hu hk ?_).trans hcell⟩
  rw [hc.rest]
  rfl

/-- What a call has allocated, with a change of the file table. -/
theorem FileWork.of_grown (hfiled : Filed s t) (ht : s.Tiled) (hg : Grown s u own)
    (hu : t = { u with fileTable := t.fileTable }) : FileWork s t := by
  have hobjects : SameObjects s t := hfiled.sameObjects fun a ha => by
    rw [hu]
    exact hg.cells a fun hnew => ha hnew.bare
  refine ⟨hobjects.otherWork ?_, ?_, hfiled.tiled ht, fun b hb => ?_⟩
  · rw [hu, ← hg.still]
    rfl
  · rw [hu]
    exact (congrArg Kernel.raw hg.still :)
  · rw [hu] at hb
    exact (hg.mem_blocks.mp hb).symm.imp id (hg.fresh b)

end

section

variable {disk : Disk} {p : FatPrivate} {ok : Nat → Bool} {base : Kernel} {s t : FileClient}
  {σ : List (OpenStream disk p)} {opened : List Opened} {handle : Word → Handle} {event : FileEvent}

/-- The blocks of an open file are its own. -/
theorem Held.own_blocks {k : Kernel} (h : Held base ⟨k, opened⟩ handle) {o : Opened}
    (ho : o ∈ opened) {b : Block} (hb : b ∈ o.own) :
    b ∈ k.blocks ∧ ∀ c ∈ base.blocks, c.ptr ≠ b.ptr := by
  have hmem : b ∈ opened.flatMap Opened.own := List.mem_flatMap.mpr ⟨o, ho, hb⟩
  refine ⟨h.blocks.mem_iff.mpr (List.mem_append_left _ hmem), fun c hc heq => ?_⟩
  have hnodup := (h.blocks.map Block.ptr).nodup_iff.mp h.heap.nodup
  rw [List.map_append, List.nodup_append] at hnodup
  exact hnodup.2.2 _ (List.mem_map_of_mem hmem) _ (List.mem_map_of_mem hc) heq.symm

namespace ContentsInv

theorem fileWork_fopen (h : ContentsInv base s σ opened handle) (ht : s.kernel.Tiled)
    {fuel : Nat} {filename mode : List Byte} {r : Word} {k : Kernel}
    (hrun : AvocadOS.fopen fuel filename mode s.kernel = .ok (r, k)) : FileWork s.kernel k := by
  have hfiled : Filed s.kernel k := fopen_filed _ _ _ hrun
  have hdoes : Does (fun _ => True) (AvocadOS.fopen fuel filename mode) s.kernel _ :=
    fopen_does trivial h.held.heap.sizes h.held.disk_ne (fun _ => trivial) (fun _ => .inr trivial)
      fun _ _ _ _ => .inr fun _ => trivial
  rcases hdoes.post hrun with ⟨-, hg⟩ | ⟨new, t₀, -, -, -, -, hg, hk⟩
  · exact .of_grown hfiled ht hg rfl
  · exact .of_grown hfiled ht hg (by rw [hk])

/-- What is freed has no object of the tasking layer. -/
theorem fileWork_fclose (h : ContentsInv base s σ opened handle) (ht : s.kernel.Tiled)
    (hbare : ∀ b ∈ s.kernel.blocks, b ∉ base.blocks → s.kernel.Bare b.ptr) {o : OpenStream disk p}
    (ho : o ∈ σ) {res : Int} {k : Kernel} (hrun : AvocadOS.fclose o.stream s.kernel = .ok (res, k)) :
    FileWork s.kernel k := by
  have hfiled : Filed s.kernel k := fclose_filed _ hrun
  obtain ⟨x, hx, heq⟩ := h.opened_of_mem ho
  obtain ⟨l₁, l₂, hl⟩ := List.append_of_mem hx
  obtain ⟨hblocks, -, -, -⟩ := h.held.closed hl
  obtain ⟨hno, hslot⟩ := h.held.slot x hx
  have hdoes := fclose_does (E := fun _ => False) h.held.heap h.ready.mounted h.held.disk_ne
    (h.held.inMemory x hx) hno (by rw [hslot, h.held.file x hx]) hblocks
  rw [h.held.file x hx, heq] at hdoes
  obtain ⟨-, hg⟩ := hdoes.post hrun
  have hcells : ∀ a, ¬ s.kernel.Bare a → k.cell a = s.kernel.cell a := fun a ha => by
    have hkept : (s.kernel.closed (handle o.stream)).cell a = s.kernel.cell a := by
      refine (s.kernel.without_cell _ _).trans (if_neg fun hmem => ?_)
      obtain ⟨b, hb, rfl⟩ := List.mem_map.mp hmem
      rw [← heq, ← (h.held.own x hx).mem_iff] at hb
      obtain ⟨hmem, hout⟩ := h.held.own_blocks hx hb
      exact ha (hbare b hmem fun hbase => hout b hbase rfl)
    refine (hg.cells a fun hnew => ha ?_).trans hkept
    exact bare_congr hkept.symm hnew.bare
  have hsub : (s.kernel.closed (handle o.stream)).blocks ⊆ s.kernel.blocks :=
    List.filter_sublist.subset
  refine ⟨(hfiled.sameObjects hcells).otherWork ?_, ?_, hfiled.tiled ht, fun b hb => .inl ?_⟩
  · have hstill := hg.still.trans (s.kernel.closed_still (handle o.stream))
    rw [hstill, hg.fileTable_eq]
    rfl
  · exact (congrArg Kernel.raw (hg.still.trans (s.kernel.closed_still (handle o.stream))) :)
  · exact hsub (hg.blocks.mem_iff.mp hb)

/-- A call on files. -/
theorem fileWork (h : ContentsInv base s σ opened handle) (hp : fat16Probe ok disk = .ok (.ok p))
    (hbpc : 0 < p.bytesPerCluster) (ht : s.kernel.Tiled)
    (hbare : ∀ b ∈ s.kernel.blocks, b ∉ base.blocks → s.kernel.Bare b.ptr)
    (hstep : FileClient.Step s event t) : FileWork s.kernel t.kernel := by
  cases hstep with
  | fopen hrun => exact h.fileWork_fopen ht (hrun _ (Nat.le_refl _))
  | fread hmem hlen hrun =>
    obtain ⟨o, ho, rfl⟩ := h.mem_streams hmem
    have hg := fat16Probe_geometry hp
    obtain ⟨x, d, dev, -, -, -, hread⟩ :=
      (h.openFile ho).fread_eq hg (hg.sectorsPerCluster_ne_zero hbpc) hlen
    cases hrun.symm.trans hread
    exact ⟨rfl, rfl, ht.of_blocks rfl, fun b => .inl⟩
  | fstat hmem hrun =>
    obtain ⟨o, ho, rfl⟩ := h.mem_streams hmem
    cases (h.fstat ho).symm.trans hrun
    exact ⟨rfl, rfl, ht, fun b => .inl⟩
  | fclose hmem hrun =>
    obtain ⟨o, ho, rfl⟩ := h.mem_streams hmem
    exact h.fileWork_fclose ht hbare ho hrun

/-- The rest of the kernel works: the objects of the open files are as before. -/
theorem moved (h : ContentsInv base s σ opened handle) {k : Kernel} {rest : List Block}
    (hdisk : SameDisk s.kernel k) (htable : k.fileTable = s.kernel.fileTable) (ht : k.Tiled)
    (hcells : ∀ b ∈ opened.flatMap Opened.own, k.cell b.ptr = s.kernel.cell b.ptr)
    (hblocks : k.blocks.Perm (opened.flatMap Opened.own ++ rest)) :
    ContentsInv { base with blocks := rest } ⟨k, s.streams⟩ σ opened handle := by
  have hown : ∀ o ∈ opened, ∀ b ∈ (handle o.file).blocks, k.cell b.ptr = s.kernel.cell b.ptr :=
    fun o ho b hb => hcells b (List.mem_flatMap.mpr ⟨o, ho, (h.held.own o ho).mem_iff.mpr hb⟩)
  have hheld : Held { base with blocks := rest } ⟨k, opened⟩ handle :=
    { disk_ne := by
        rw [hdisk.image]
        exact h.held.disk_ne
      mounted := fun hne => by
        rw [hdisk.fsPrivate]
        exact h.held.mounted hne
      heap := ht.heapOk
      file := h.held.file
      own := h.held.own
      inMemory := fun o ho => (h.held.inMemory o ho).congr hdisk.image (hown o ho)
      slot := by
        rw [htable]
        exact h.held.slot
      nodup := h.held.nodup
      others := by
        rw [htable]
        exact h.held.others
      blocks := hblocks }
  refine ⟨hheld, hdisk.ready h.ready, h.files, h.streams, fun o ho => ?_⟩
  obtain ⟨x, hx, heq⟩ := h.opened_of_mem ho
  obtain ⟨d, hd, hat⟩ := h.descriptor o ho
  rw [← heq] at hd ⊢
  exact ⟨d, (descriptors_local.get_congr (hown x hx _ List.mem_cons_self)).trans hd, hat⟩

end ContentsInv

end

/-! ## Clients -/

/-- A block that a client holds, and what it has read into it. -/
structure ClientBuffer where
  block : Block
  bytes : List Byte

/-- The bytes are in memory, from the beginning of the block on. -/
structure ClientBuffer.Holds (b : ClientBuffer) (s : Kernel) : Prop where
  length_le : b.bytes.length ≤ b.block.size
  raw : ∀ i < b.bytes.length, s.raw (b.block.ptr + BitVec.ofNat 32 i) = b.bytes.getD i 0

/-- Bytes are written to the beginning of the block. -/
def ClientBuffer.fill (b : ClientBuffer) (bytes : List Byte) : ClientBuffer :=
  { b with bytes := bytes ++ b.bytes.drop bytes.length }

structure ClientSession (disk : Disk) (p : FatPrivate) extends LoadSession disk p where
  streams : List Word
  buffers : List ClientBuffer

inductive ClientCall
  | file (event : FileEvent)
  | kzalloc (size : Nat)
  | kfree (ptr : Word)
  | program (call : LoadCall)

/-- The calls on files. -/
def ClientCall.events : ClientCall → List FileEvent
  | .file event => [event]
  | _ => []

def FileEvent.isFread : FileEvent → Bool
  | .fread .. => true
  | _ => false

namespace ClientSession

variable {disk : Disk} {p : FatPrivate}

/-- `fread` writes to a buffer that has room for what is asked for. -/
inductive Step : ClientSession disk p → ClientCall → ClientSession disk p → Prop
  | file {s : ClientSession disk p} {event : FileEvent} {k : Kernel} {streams : List Word}
      (hfread : event.isFread = false) (hscope : event.InScope disk p)
      (h : FileClient.Step ⟨s.kernel, s.streams⟩ event ⟨k, streams⟩) :
      Step s (.file event) { s with kernel := k, streams := streams }
  | fread {s : ClientSession disk p} {b : ClientBuffer} {stream : Word} {size nmemb n : Nat}
      {bytes : List Byte} {k k' : Kernel} (hb : b ∈ s.buffers) (hsize : size * nmemb ≤ b.block.size)
      (h : FileClient.Step ⟨s.kernel, s.streams⟩ (.fread stream size nmemb n bytes) ⟨k, s.streams⟩)
      (hwrite : writeRaw b.block.ptr bytes k = .ok ((), k')) :
      Step s (.file (.fread stream size nmemb n bytes)) { s with
        kernel := k'
        buffers := s.buffers.map fun b' => if b'.block = b.block then b'.fill bytes else b' }
  | kzalloc {s : ClientSession disk p} {size : Nat} {ptr : Word} {k : Kernel}
      (h : AvocadOS.kzalloc size s.kernel = .ok (ptr, k)) :
      Step s (.kzalloc size) { s with
        kernel := k
        buffers := if ptr = 0 then s.buffers else ⟨⟨ptr, size⟩, []⟩ :: s.buffers }
  | kfree {s : ClientSession disk p} {b : ClientBuffer} {k : Kernel} (hb : b ∈ s.buffers)
      (h : AvocadOS.kfree b.block.ptr s.kernel = .ok ((), k)) :
      Step s (.kfree b.block.ptr) { s with
        kernel := k
        buffers := s.buffers.filter (·.block ≠ b.block) }
  | program {s : ClientSession disk p} {call : LoadCall} {t : LoadSession disk p}
      (h : LoadSession.Step s.toLoadSession call t) :
      Step s (.program call) ⟨t, s.streams, s.buffers⟩

end ClientSession

/-- The memory of a program. -/
def Program.block {disk : Disk} {p : FatPrivate} (s : Kernel) (g : Program disk p) : Block :=
  ⟨s.memoryOf g.process, g.file.content.length⟩

/-- The blocks that programs and clients hold. -/
def ClientSession.held {disk : Disk} {p : FatPrivate} (s : ClientSession disk p) : List Block :=
  s.programs.map (Program.block s.kernel) ++ s.buffers.map ClientBuffer.block

/-! ## What every call keeps -/

/-- What has been written is in memory. -/
theorem ClientBuffer.Holds.fill {b : ClientBuffer} {s t : Kernel} (h : b.Holds s) {bytes : List Byte}
    (hb : b.block.ptr.toNat + b.block.size ≤ 2 ^ 32) (hlen : bytes.length ≤ b.block.size)
    (hraw : ∀ a, t.raw a = if (a - b.block.ptr).toNat < bytes.length then
      bytes.getD (a - b.block.ptr).toNat 0 else s.raw a) : (b.fill bytes).Holds t := by
  have hsize : (b.fill bytes).bytes.length ≤ b.block.size := by
    have := h.length_le
    rw [ClientBuffer.fill, List.length_append, List.length_drop]
    omega
  refine ⟨hsize, fun i hi => ?_⟩
  have hnat := offset_toNat b.block.ptr (k := i) (by omega)
  have hbytes := hraw (b.block.ptr + BitVec.ofNat 32 i)
  rw [hnat] at hbytes
  refine hbytes.trans ?_
  simp only [ClientBuffer.fill, List.length_append, List.length_drop] at hi
  simp only [ClientBuffer.fill, List.getD_eq_getElem?_getD, List.getElem?_append, List.getElem?_drop]
  split
  · rfl
  · rename_i hge
    have heq : bytes.length + (i - bytes.length) = i := by omega
    rw [heq, h.raw i (by omega), List.getD_eq_getElem?_getD]

theorem ClientBuffer.Holds.of_raw {b : ClientBuffer} {s t : Kernel} (h : b.Holds s)
    (hraw : t.raw = s.raw) : b.Holds t :=
  ⟨h.length_le, fun i hi => by rw [hraw, h.raw i hi]⟩

/-- A byte of one block is not among the first `n` of another. -/
theorem Block.Apart.not_lt {b c : Block} (h : c.Apart b) (hb : b.ptr.toNat + b.size ≤ 2 ^ 32)
    (hc : c.ptr.toNat + c.size ≤ 2 ^ 32) {i n : Nat} (hi : i < c.size) (hn : n ≤ b.size) :
    ¬ (c.ptr + BitVec.ofNat 32 i - b.ptr).toNat < n := by
  have hnat := toNat_add_ofNat hc hi
  have h₁ := LoadSession.le_blocks b.size
  have h₂ := LoadSession.le_blocks c.size
  rw [BitVec.toNat_sub, hnat]
  unfold Block.Apart at h
  omega

section

variable {disk : Disk} {p : FatPrivate} {ok : Nat → Bool} {base : Kernel} {s t : ClientSession disk p}
  {σ : List (OpenStream disk p)} {opened : List Opened} {handle : Word → Handle}

/-- The blocks of the heap are those of the open files and `base.blocks`. Among these are what
programs and clients hold. -/
structure ClientInv (base : Kernel) (s : ClientSession disk p) (σ : List (OpenStream disk p))
    (opened : List Opened) (handle : Word → Handle) : Prop where
  load : s.toLoadSession.Inv
  contents : ContentsInv base ⟨s.kernel, s.streams⟩ σ opened handle
  bare : ∀ b ∈ s.kernel.blocks, b ∉ base.blocks → s.kernel.Bare b.ptr
  held : ∀ b ∈ s.held, b ∈ base.blocks
  nodup : s.held.Nodup
  buffers : ∀ b ∈ s.buffers, s.kernel.Bare b.block.ptr ∧ b.Holds s.kernel

namespace ClientInv

theorem mem_blocks (h : ClientInv base s σ opened handle) {b : Block} (hb : b ∈ base.blocks) :
    b ∈ s.kernel.blocks :=
  h.contents.held.blocks.mem_iff.mpr (List.mem_append_right _ hb)

theorem held_program (h : ClientInv base s σ opened handle) {g : Program disk p}
    (hg : g ∈ s.programs) : g.block s.kernel ∈ base.blocks :=
  h.held _ (List.mem_append_left _ (List.mem_map_of_mem hg))

theorem held_buffer (h : ClientInv base s σ opened handle) {b : ClientBuffer} (hb : b ∈ s.buffers) :
    b.block ∈ base.blocks :=
  h.held _ (List.mem_append_right _ (List.mem_map_of_mem hb))

/-- The memory of a program and a buffer do not overlap. -/
theorem program_apart (h : ClientInv base s σ opened handle) {g : Program disk p}
    (hg : g ∈ s.programs) {b : ClientBuffer} (hb : b ∈ s.buffers) :
    (g.block s.kernel).Apart b.block := by
  refine h.load.tiled.apart_of_ne (h.mem_blocks (h.held_program hg))
    (h.mem_blocks (h.held_buffer hb)) ?_
  exact (List.nodup_append.mp h.nodup).2.2 _ (List.mem_map_of_mem hg) _ (List.mem_map_of_mem hb)

theorem held_congr {programs : List (Program disk p)} {k k' : Kernel}
    (hmemory : ∀ g ∈ programs, k'.memoryOf g.process = k.memoryOf g.process) :
    programs.map (Program.block k') = programs.map (Program.block k) :=
  List.map_congr_left fun g hg => by rw [Program.block, hmemory g hg, Program.block]

theorem held_of_procs (programs : List (Program disk p)) {k k' : Kernel} (h : k'.procs = k.procs) :
    programs.map (Program.block k') = programs.map (Program.block k) :=
  held_congr fun g _ => by rw [Kernel.memoryOf, h, Kernel.memoryOf]

/-- A block of an open file has no object of the tasking layer. -/
theorem own_bare (h : ClientInv base s σ opened handle) {b : Block}
    (hb : b ∈ opened.flatMap Opened.own) : b ∈ s.kernel.blocks ∧ s.kernel.Bare b.ptr := by
  obtain ⟨o, ho, hbo⟩ := List.mem_flatMap.mp hb
  obtain ⟨hmem, hbase⟩ := h.contents.held.own_blocks ho hbo
  exact ⟨hmem, h.bare b hmem fun hin => hbase b hin rfl⟩

/-- The buffers, where the tasking layer and memory are left alone. -/
theorem buffers_congr (h : ClientInv base s σ opened handle) {k : Kernel}
    (hother : OtherWork s.kernel k) (hraw : k.raw = s.kernel.raw) :
    ∀ b ∈ s.buffers, k.Bare b.block.ptr ∧ b.Holds k := fun b hb =>
  ⟨hother.bare (h.buffers b hb).1, (h.buffers b hb).2.of_raw hraw⟩

/-- The open files are left alone. -/
theorem moved (h : ClientInv base s σ opened handle) {rest : List Block} (hload : t.toLoadSession.Inv)
    (hstreams : t.streams = s.streams) (hdisk : SameDisk s.kernel t.kernel)
    (htable : t.kernel.fileTable = s.kernel.fileTable)
    (hcells : ∀ b ∈ opened.flatMap Opened.own, t.kernel.cell b.ptr = s.kernel.cell b.ptr)
    (hblocks : t.kernel.blocks.Perm (opened.flatMap Opened.own ++ rest))
    (hheld : ∀ b ∈ t.held, b ∈ rest) (hnodup : t.held.Nodup)
    (hbuffers : ∀ b ∈ t.buffers, t.kernel.Bare b.block.ptr ∧ b.Holds t.kernel) :
    ClientInv { base with blocks := rest } t σ opened handle := by
  refine ⟨hload, ?_, fun b hb hout => ?_, hheld, hnodup, hbuffers⟩
  · rw [hstreams]
    exact h.contents.moved hdisk htable hload.tiled hcells hblocks
  · have hown := (List.mem_append.mp (hblocks.mem_iff.mp hb)).resolve_right hout
    exact bare_congr (hcells b hown) (h.own_bare hown).2

/-- A call on files. -/
theorem file (h : ClientInv base s σ opened handle) (hp : fat16Probe ok disk = .ok (.ok p))
    (hbpc : 0 < p.bytesPerCluster) (hwhole : p.bytesPerCluster % FAT_ENTRY_SIZE = 0)
    {event : FileEvent} {k : Kernel} {streams : List Word} (hscope : event.InScope disk p)
    (hstep : FileClient.Step ⟨s.kernel, s.streams⟩ event ⟨k, streams⟩) :
    ∃ σ' opened' handle', SpecStep σ event σ' ∧
      ClientInv base { s with kernel := k, streams := streams } σ' opened' handle' := by
  obtain ⟨σ', opened', handle', hspec, hcontents⟩ := h.contents.step hp hbpc hwhole hscope hstep
  have hwork : FileWork s.kernel k := h.contents.fileWork hp hbpc h.load.tiled h.bare hstep
  obtain ⟨hother, hraw, htiled, hblocks⟩ := hwork
  refine ⟨σ', opened', handle', hspec, ?_⟩
  have hbase : ∀ b ∈ base.blocks, b ∈ k.blocks := fun b hb =>
    hcontents.held.blocks.mem_iff.mpr (List.mem_append_right _ hb)
  have hprocs : k.procs = s.kernel.procs := by rw [hother]
  have hheld : ClientSession.held { s with kernel := k, streams := streams } = s.held := by
    rw [ClientSession.held, ClientSession.held, held_of_procs _ hprocs]
  refine ⟨?_, hcontents, fun b hb hout => ?_, ?_, ?_, h.buffers_congr hother hraw⟩
  · exact h.load.other hother hcontents.ready htiled (fun g hg => hbase _ (h.held_program hg))
      fun _ _ _ _ => by rw [hraw]
  · rcases hblocks b hb with hold | hnew
    · exact hother.bare (h.bare b hold hout)
    · exact hother.bare hnew.bare
  · rw [hheld]
    exact h.held
  · rw [hheld]
    exact h.nodup

/-- Work that touches neither tasks, page tables nor open files, and no byte of a program. -/
theorem work (h : ClientInv base s σ opened handle) {k : Kernel} {rest : List Block}
    {buffers : List ClientBuffer} (hother : OtherWork s.kernel k) (hdisk : SameDisk s.kernel k)
    (htable : k.fileTable = s.kernel.fileTable) (htiled : k.Tiled)
    (hcells : ∀ b ∈ opened.flatMap Opened.own, k.cell b.ptr = s.kernel.cell b.ptr)
    (hblocks : k.blocks.Perm (opened.flatMap Opened.own ++ rest))
    (hraw : ∀ g ∈ s.programs, ∀ i < g.file.content.length,
      k.raw (s.kernel.memoryOf g.process + BitVec.ofNat 32 i) =
        s.kernel.raw (s.kernel.memoryOf g.process + BitVec.ofNat 32 i))
    (hheld : ∀ b ∈ s.programs.map (Program.block s.kernel) ++ buffers.map ClientBuffer.block,
      b ∈ rest)
    (hnodup : (s.programs.map (Program.block s.kernel) ++ buffers.map ClientBuffer.block).Nodup)
    (hbuffers : ∀ b ∈ buffers, k.Bare b.block.ptr ∧ b.Holds k) :
    ClientInv { base with blocks := rest } { s with kernel := k, buffers := buffers } σ opened
      handle := by
  have hprocs : k.procs = s.kernel.procs := by rw [hother]
  have hsame : ClientSession.held { s with kernel := k, buffers := buffers } =
      s.programs.map (Program.block s.kernel) ++ buffers.map ClientBuffer.block := by
    rw [ClientSession.held, held_of_procs _ hprocs]
  refine h.moved ?_ rfl hdisk htable hcells hblocks (hsame ▸ hheld) (hsame ▸ hnodup) hbuffers
  refine h.load.other hother (hdisk.ready h.load.ready) htiled (fun g hg => ?_) hraw
  refine hblocks.mem_iff.mpr (List.mem_append_right _ (hheld _ ?_))
  exact List.mem_append_left _ (List.mem_map_of_mem hg)

/-- `kzalloc`. -/
theorem kzalloc (h : ClientInv base s σ opened handle) {size : Nat} {ptr : Word} {k : Kernel}
    (hrun : AvocadOS.kzalloc size s.kernel = .ok (ptr, k)) :
    ∃ rest, ClientInv { base with blocks := rest } { s with
      kernel := k
      buffers := if ptr = 0 then s.buffers else ⟨⟨ptr, size⟩, []⟩ :: s.buffers } σ opened handle := by
  have hperm := h.contents.held.blocks
  rcases kzalloc_ok hrun with ⟨rfl, rfl⟩ | ⟨hne, hpos, hfresh, rfl⟩
  · rw [if_pos rfl]
    exact ⟨base.blocks, h.work rfl ⟨rfl, rfl, rfl, rfl⟩ rfl (h.load.tiled.of_blocks rfl)
      (fun _ _ => rfl) hperm (fun _ _ _ _ => rfl) h.held h.nodup (h.buffers_congr rfl rfl)⟩
  · rw [if_neg hne]
    have hnew : (⟨ptr, size⟩ : Block) ∉ s.held := fun hmem =>
      h.load.tiled.fresh_ne hpos hfresh (h.mem_blocks (h.held _ hmem)) rfl
    refine ⟨⟨ptr, size⟩ :: base.blocks, h.work rfl ⟨rfl, rfl, rfl, rfl⟩ rfl
      (h.load.tiled.of_fresh hpos hfresh rfl) (fun _ _ => rfl) ?_ (fun _ _ _ _ => rfl) ?_ ?_ ?_⟩
    · exact (hperm.cons _).trans List.perm_middle.symm
    · intro b hb
      rw [List.map_cons, List.mem_append, List.mem_cons] at hb
      rcases hb with hb | rfl | hb
      · exact List.mem_cons_of_mem _ (h.held b (List.mem_append_left _ hb))
      · exact List.mem_cons_self
      · exact List.mem_cons_of_mem _ (h.held b (List.mem_append_right _ hb))
    · rw [List.map_cons, List.nodup_middle]
      exact List.nodup_cons.mpr ⟨hnew, h.nodup⟩
    · have hother : OtherWork s.kernel (s.kernel.asked.withBlock ptr size) := rfl
      have hptr : s.kernel.New ptr := ⟨hfresh.2.2.1, fun c hc => h.load.tiled.fresh_ne hpos hfresh hc⟩
      intro b hb
      rcases List.mem_cons.mp hb with rfl | hb
      · exact ⟨hother.bare hptr.bare, Nat.zero_le _, nofun⟩
      · exact h.buffers_congr hother rfl b hb

/-- What is still held without a buffer. -/
theorem held_filter (h : ClientInv base s σ opened handle) {b : ClientBuffer} (hb : b ∈ s.buffers)
    {c : Block} (hc : c ∈ s.programs.map (Program.block s.kernel) ++
      (s.buffers.filter (·.block ≠ b.block)).map ClientBuffer.block) : c ∈ s.held ∧ c ≠ b.block := by
  rcases List.mem_append.mp hc with hprogram | hbuffer
  · refine ⟨List.mem_append_left _ hprogram, ?_⟩
    exact (List.nodup_append.mp h.nodup).2.2 _ hprogram _ (List.mem_map_of_mem hb)
  · obtain ⟨b', hb', rfl⟩ := List.mem_map.mp hbuffer
    obtain ⟨hin, hne⟩ := List.mem_filter.mp hb'
    exact ⟨List.mem_append_right _ (List.mem_map_of_mem hin), of_decide_eq_true hne⟩

/-- `kfree` of a buffer. -/
theorem kfree (h : ClientInv base s σ opened handle) {b : ClientBuffer} (hb : b ∈ s.buffers)
    {x : Unit} {k : Kernel} (hrun : AvocadOS.kfree b.block.ptr s.kernel = .ok (x, k)) :
    ∃ rest, ClientInv { base with blocks := rest } { s with
      kernel := k
      buffers := s.buffers.filter (·.block ≠ b.block) } σ opened handle := by
  obtain ⟨-, rfl⟩ := kfree_ok hrun
  have hother : OtherWork s.kernel { s.kernel.erase b.block.ptr with
      blocks := s.kernel.blocks.filter (·.ptr ≠ b.block.ptr) } :=
    (h.buffers b hb).1.otherWork_erase _
  have hmem := h.held_buffer hb
  have hown : ∀ c ∈ opened.flatMap Opened.own, c.ptr ≠ b.block.ptr := fun c hc => by
    obtain ⟨o, ho, hco⟩ := List.mem_flatMap.mp hc
    exact ((h.contents.held.own_blocks ho hco).2 _ hmem).symm
  have hsub : (s.programs.map (Program.block s.kernel) ++
      (s.buffers.filter (·.block ≠ b.block)).map ClientBuffer.block).Sublist s.held :=
    (List.Sublist.map _ List.filter_sublist).append_left _
  refine ⟨base.blocks.filter (·.ptr ≠ b.block.ptr), h.work hother ⟨rfl, rfl, rfl, rfl⟩ rfl ?_ ?_ ?_
    (fun _ _ _ _ => rfl) ?_ (h.nodup.sublist hsub) ?_⟩
  · exact h.load.tiled.of_sublist List.filter_sublist
  · exact fun c hc => (s.kernel.erase_cell b.block.ptr c.ptr).trans (if_neg (hown c hc))
  · have hfilter := h.contents.held.blocks.filter (·.ptr ≠ b.block.ptr)
    have hall : (opened.flatMap Opened.own).filter (·.ptr ≠ b.block.ptr) =
        opened.flatMap Opened.own := by
      rw [List.filter_eq_self]
      exact fun c hc => decide_eq_true (hown c hc)
    rwa [List.filter_append, hall] at hfilter
  · intro c hc
    obtain ⟨hheld, hne⟩ := h.held_filter hb hc
    have hin := h.held c hheld
    have hptr := h.load.tiled.ptr_ne (h.mem_blocks hin) (h.mem_blocks hmem) hne
    exact List.mem_filter.mpr ⟨hin, decide_eq_true hptr⟩
  · exact fun b' hb' => h.buffers_congr hother rfl b' (List.mem_filter.mp hb').1

/-- Bytes are written to a buffer. -/
theorem write (h : ClientInv base s σ opened handle) {b : ClientBuffer} (hb : b ∈ s.buffers)
    {bytes : List Byte} (hlen : bytes.length ≤ b.block.size) {x : Unit} {k : Kernel}
    (hrun : writeRaw b.block.ptr bytes s.kernel = .ok (x, k)) :
    ClientInv base { s with
      kernel := k
      buffers := s.buffers.map fun b' => if b'.block = b.block then b'.fill bytes else b' } σ opened
      handle := by
  obtain ⟨hk, hraw⟩ := writeRaw_ok hrun
  have hwithin := h.load.tiled.within
  have hin := h.mem_blocks (h.held_buffer hb)
  have hother : OtherWork s.kernel k := by rw [OtherWork, hk]
  have hdisk : SameDisk s.kernel k := by rw [hk]; exact ⟨rfl, rfl, rfl, rfl⟩
  have hblocks : k.blocks = s.kernel.blocks := by rw [hk]
  have hblock : ∀ b' : ClientBuffer,
      (if b'.block = b.block then b'.fill bytes else b').block = b'.block := fun b' => by split <;> rfl
  have hmap : (s.buffers.map fun b' => if b'.block = b.block then b'.fill bytes else b').map
      ClientBuffer.block = s.buffers.map ClientBuffer.block := by
    rw [List.map_map]
    exact List.map_congr_left fun b' _ => hblock b'
  refine h.work hother hdisk (by rw [hk]) (h.load.tiled.of_blocks hblocks) (fun _ _ => by rw [hk]; rfl)
    (hblocks ▸ h.contents.held.blocks) ?_ (hmap ▸ h.held) (hmap ▸ h.nodup) ?_
  · intro g hg i hi
    have hg' := h.mem_blocks (h.held_program hg)
    rw [hraw]
    exact if_neg ((h.program_apart hg hb).not_lt (hwithin _ hin) (hwithin _ hg') hi hlen)
  · intro b' hb'
    obtain ⟨c, hc, rfl⟩ := List.mem_map.mp hb'
    obtain ⟨hbare, hholds⟩ := h.buffers c hc
    have hc' := h.mem_blocks (h.held_buffer hc)
    refine ⟨(hblock c).symm ▸ hother.bare hbare, ?_⟩
    split
    · rename_i heq
      exact hholds.fill (hwithin _ hc') (heq ▸ hlen) (heq ▸ hraw)
    · rename_i hne
      refine ⟨hholds.length_le, fun i hi => ?_⟩
      have happ := h.load.tiled.apart_of_ne hc' hin hne
      have hi' : i < c.block.size := Nat.lt_of_lt_of_le hi hholds.length_le
      rw [hraw, if_neg (happ.not_lt (hwithin _ hin) (hwithin _ hc') hi' hlen)]
      exact hholds.raw i hi

/-- The timer interrupt. -/
theorem timer (h : ClientInv base s σ opened handle) {frame r : Word} {k : Kernel}
    (hrun : int0x20Handler frame s.kernel = .ok (r, k)) :
    ClientInv base { s with kernel := k } σ opened handle := by
  have hne : s.created ≠ [] := List.ne_nil_of_length_pos (by have := h.load.two; omega)
  have hi := int0x20Handler_ok hrun (h.load.spaces.inv.current hne)
  have hrest := hi.rest
  have hprocs : k.procs = s.kernel.procs := by rw [hrest]
  have hheld : ClientSession.held { s with kernel := k } = s.held := by
    rw [ClientSession.held, ClientSession.held, held_of_procs _ hprocs]
  have hdisk : SameDisk s.kernel k := by rw [hrest]; exact ⟨rfl, rfl, rfl, rfl⟩
  have hblocks : k.blocks = s.kernel.blocks := by rw [hrest]
  refine h.moved (h.load.timer hrun) rfl hdisk (by rw [hrest]) (fun b hb => ?_)
    (hblocks ▸ h.contents.held.blocks) (hheld ▸ h.held) (hheld ▸ h.nodup) fun b hb => ?_
  · have hbare := (h.own_bare hb).2
    exact cell_of_bare hbare (hi.bare hbare) (by rw [hrest]; rfl)
  · obtain ⟨hbare, hholds⟩ := h.buffers b hb
    exact ⟨hi.bare hbare, hholds.of_raw (by rw [hrest])⟩

/-- A program is loaded. -/
theorem program (h : ClientInv base s σ opened handle) (hp : fat16Probe ok disk = .ok (.ok p))
    (hbpc : 0 < p.bytesPerCluster) (hwhole : p.bytesPerCluster % FAT_ENTRY_SIZE = 0)
    {filename : List Byte} {fuel slot : Nat} {k : Kernel} {file : RegularFile disk p}
    (hnames : Names disk p filename (ascii "r") (some file.item))
    (hslot : findFreeSlot s.kernel.processes MAX_PROCESSES 0 = some slot)
    (hrun : processLoad fuel filename s.kernel = .ok (0, k))
    (hrange : InKernelRange (k.memoryOf (k.processes slot)) file.content.length) :
    ∃ rest, ClientInv { base with blocks := rest } ⟨⟨k, s.created ++ [k.processes slot],
      ⟨k.processes slot, file⟩ :: s.programs⟩, s.streams, s.buffers⟩ σ opened handle := by
  obtain ⟨u, memory, hparts⟩ := h.load.load_parts hp hbpc hwhole hnames hslot hrun hrange
  have hload := h.load.load hp hbpc hwhole hnames hslot hrun hrange
  have hmemory := hparts.memoryOf
  rw [hmemory] at hrange
  obtain ⟨hku, huk⟩ := h.load.keeping_parts hparts hrange.within
  have hstays : ∀ b ∈ s.kernel.blocks, s.kernel.Bare b.ptr →
      k.Bare b.ptr ∧ k.cell b.ptr = s.kernel.cell b.ptr := fun b => hparts.bare_cell h.load.tiled
  obtain ⟨hread, hholds, hcontent, hpos, hinit, sys, l, ps, task, x, hc, rfl, -⟩ := hparts
  obtain ⟨-, ⟨new, hnew⟩, -⟩ := processInit_added hinit (hread.filed.tiled h.load.tiled)
  have hrest := hc.rest
  have hblocks : u.blocks.Perm (⟨x.memory, file.content.length⟩ :: s.kernel.blocks) := hholds.blocks
  have hmemories : ∀ g ∈ s.programs, k.memoryOf g.process = s.kernel.memoryOf g.process :=
    fun g hg => (hku.trans huk).memoryOf _ (h.load.programs g hg).1
  have hheld : ClientSession.held ⟨⟨k, s.created ++ [k.processes slot],
      ⟨k.processes slot, file⟩ :: s.programs⟩, s.streams, s.buffers⟩ =
      ⟨x.memory, file.content.length⟩ :: s.held := by
    rw [ClientSession.held, ClientSession.held, List.map_cons, held_congr hmemories, Program.block,
      hmemory, List.cons_append]
  have hfresh : (⟨x.memory, file.content.length⟩ : Block) ∉ s.held := fun hin => by
    have happ : Block.Apart ⟨x.memory, file.content.length⟩ ⟨x.memory, file.content.length⟩ :=
      hcontent.fresh _ (h.mem_blocks (h.held _ hin))
    exact happ.ne hpos hpos rfl
  have hdisk : SameDisk u k := by rw [hrest]; exact ⟨rfl, rfl, rfl, rfl⟩
  refine ⟨new ++ ⟨x.memory, file.content.length⟩ :: base.blocks, h.moved hload rfl
    (hcontent.disk.trans hdisk) ?_ (fun b hb => ?_) ?_ ?_ ?_ fun b hb => ?_⟩
  · rw [← hcontent.table]
    dsimp only
    rw [hrest]
  · obtain ⟨hin, hbb⟩ := h.own_bare hb
    exact (hstays b hin hbb).2
  · dsimp only
    rw [← hnew]
    refine ((hblocks.trans ?_).append_left new).trans (List.perm_append_comm_assoc ..)
    exact (h.contents.held.blocks.cons _).trans List.perm_middle.symm
  · intro b hb
    rw [hheld] at hb
    rcases List.mem_cons.mp hb with rfl | hb
    · exact List.mem_append_right _ List.mem_cons_self
    · exact List.mem_append_right _ (List.mem_cons_of_mem _ (h.held b hb))
  · rw [hheld]
    exact List.nodup_cons.mpr ⟨hfresh, h.nodup⟩
  · obtain ⟨hbb, hlen, hbytes⟩ := h.buffers b hb
    have hin := h.mem_blocks (h.held_buffer hb)
    refine ⟨(hstays b.block hin hbb).1, hlen, fun i hi => ?_⟩
    have hi' : i < b.block.size := Nat.lt_of_lt_of_le hi hlen
    have hnat := toNat_add_ofNat (h.load.tiled.within _ hin) hi'
    refine ((hku.trans huk).raw b.block hin _ ?_ ?_).trans (hbytes i hi) <;> omega

/-- One call. -/
theorem step (h : ClientInv base s σ opened handle) (hp : fat16Probe ok disk = .ok (.ok p))
    (hbpc : 0 < p.bytesPerCluster) (hwhole : p.bytesPerCluster % FAT_ENTRY_SIZE = 0)
    {call : ClientCall} (hstep : ClientSession.Step s call t) :
    ∃ σ', Runs SpecStep σ call.events σ' ∧
      ∃ base' opened' handle', ClientInv base' t σ' opened' handle' := by
  cases hstep with
  | file hfread hscope hrun =>
    obtain ⟨σ', opened', handle', hspec, h'⟩ := h.file hp hbpc hwhole hscope hrun
    exact ⟨σ', .cons hspec (.nil _), _, _, _, h'⟩
  | @fread b stream size nmemb n bytes k k' hb hsize hrun hwrite =>
    have hscope : FileEvent.InScope disk p (.fread stream size nmemb n bytes) := trivial
    obtain ⟨σ', opened', handle', hspec, h'⟩ := h.file hp hbpc hwhole hscope hrun
    refine ⟨σ', .cons hspec (.nil _), _, _, _, h'.write hb ?_ hwrite⟩
    cases hspec with
    | fread ho =>
      refine Nat.le_trans ?_ hsize
      rw [OpenStream.bytes, List.length_take]
      exact Nat.min_le_left _ _
  | kzalloc hrun =>
    obtain ⟨rest, h'⟩ := h.kzalloc hrun
    exact ⟨σ, .nil _, _, _, _, h'⟩
  | kfree hb hrun =>
    obtain ⟨rest, h'⟩ := h.kfree hb hrun
    exact ⟨σ, .nil _, _, _, _, h'⟩
  | program hcall =>
    cases hcall with
    | load hnames hslot hrun hrange =>
      obtain ⟨rest, h'⟩ := h.program hp hbpc hwhole hnames hslot hrun hrange
      exact ⟨σ, .nil _, _, _, _, h'⟩
    | timer hrun => exact ⟨σ, .nil _, _, _, _, h.timer hrun⟩

end ClientInv

end

/-! ## From `kernel_main` on -/

namespace ClientSession

variable {disk : Disk} {p : FatPrivate} {ok : Nat → Bool} {base : Kernel} {s : ClientSession disk p}
  {σ : List (OpenStream disk p)} {opened : List Opened} {handle : Word → Handle}

/-- The next call of a client returns, if the heap has memory for it. -/
structure Responds (s : ClientSession disk p) : Prop where
  files : FileClient.Responds disk p ⟨s.kernel, s.streams⟩
  fread : ∀ stream ∈ s.streams, ∀ b ∈ s.buffers, ∀ size nmemb, size * nmemb < 2 ^ 32 →
    size * nmemb ≤ b.block.size →
    ∃ n bytes t, Step s (.file (.fread stream size nmemb n bytes)) t
  kfree : ∀ b ∈ s.buffers, ∃ t, Step s (.kfree b.block.ptr) t

theorem responds (h : ClientInv base s σ opened handle) (hp : fat16Probe ok disk = .ok (.ok p))
    (hbpc : 0 < p.bytesPerCluster) (hwhole : p.bytesPerCluster % FAT_ENTRY_SIZE = 0) :
    s.Responds := by
  have hfiles := FileClient.responds h.contents hp hbpc hwhole
  refine ⟨hfiles, fun stream hstream b hb size nmemb hlen hsize => ?_, fun b hb => ?_⟩
  · obtain ⟨n, bytes, t, hread⟩ := hfiles.fread stream hstream size nmemb hlen
    have hread' := hread
    cases hread'
    exact ⟨n, bytes, _, .fread hb hsize hread rfl⟩
  · have hany : s.kernel.blocks.any (·.ptr == b.block.ptr) = true :=
      List.any_eq_true.mpr ⟨b.block, h.mem_blocks (h.held_buffer hb), beq_self_eq_true _⟩
    exact ⟨_, .kfree hb (by rw [AvocadOS.kfree, if_pos hany])⟩

/-- After `kernel_main` there are two processes; nothing is open, held or loaded. -/
def start (m : Kernel) : ClientSession disk p :=
  ⟨⟨m, [m.processes 0, m.processes 1], []⟩, [], []⟩

theorem start_inv {k₀ m : Kernel} {operations : Word} {x : Unit} (hboot : k₀.Boot)
    (hblocks : k₀.blocks = []) (hcur : k₀.currentTask = 0) (hslots : ∀ pid, k₀.processes pid = 0)
    (hanswers : ∀ n, k₀.answers n ≠ 0) (himage : k₀.image.disk ≠ 0) (hdisk : k₀.dev.disk = disk)
    (hprobe : fat16Probe (fun _ => true) disk = .ok (.ok p)) (hne : operations ≠ 0)
    (hbehind : operations + BitVec.ofNat 32 filesystemOperationsSize ≠ 0)
    (hmain : kernelMain operations k₀ = .ok (x, m))
    (htask : (m.procs (m.processes 1)).map Process.task ≠ some 0) :
    ∃ handle, ClientInv m (start m : ClientSession disk p) [] [] handle := by
  obtain ⟨k, k', p', hpaging, hready, htasking⟩ := kernelMain_ok hne hbehind hmain
  have hpaged := pagingInit_ok hboot hpaging
  have hsame : k.dev.disk = disk := by rw [hpaged.rest, ← hdisk]
  have hvolume := hready.probe
  rw [hsame, hprobe] at hvolume
  cases hvolume
  have hother := hready.other
  rw [OtherWork] at hother
  have hmounted : Ready disk p k' := by
    refine ⟨?_, hready.mounted, hready.disk.trans hsame, ?_⟩
    · rw [hother, hpaged.rest]
      exact hanswers
    · rw [hother, hpaged.rest]
      exact himage
  have htiled : k'.Tiled := by
    refine hready.tiled (pagingInit_staysTiled hpaging ⟨?_, ?_, ?_⟩) <;> rw [hblocks]
    · exact fun b hb => absurd hb List.not_mem_nil
    · exact .nil
    · exact fun b hb => absurd hb List.not_mem_nil
  have hinv := LoadSession.Inv.start hboot hpaging hcur hslots hready.other hmounted htiled htasking
    htask
  obtain ⟨-, -, -, htable⟩ :=
    LoadSession.taskingInit_rest hpaged hcur hslots hready.other htasking htask
  have hempty : ∀ i < MAX_OPEN_FILES, m.fileTable i = 0 := fun i _ => by
    rw [htable]
    exact hready.closed i
  exact ⟨_, hinv, FileClient.start hinv.ready hinv.tiled.heapOk hempty,
    fun b hb hout => absurd hb hout, fun b hb => absurd hb List.not_mem_nil, .nil,
    fun b hb => absurd hb List.not_mem_nil⟩

/-- From `kernel_main` on, on an accepted volume of whole slots, with any order of calls on files,
allocations, frees, loaded programs and timer interrupts: the calls on files are those of the
specification, with the same results; every buffer has what was read into it; every program has the
content of its file at `PROGRAM_BASE_VIRT_ADDR`, and no two of them share a byte; and the next call
of a client returns. -/
theorem kernelMain_serves {k₀ m : Kernel} {operations : Word} {x : Unit} (hboot : k₀.Boot)
    (hblocks : k₀.blocks = []) (hcur : k₀.currentTask = 0) (hslots : ∀ pid, k₀.processes pid = 0)
    (hanswers : ∀ n, k₀.answers n ≠ 0) (himage : k₀.image.disk ≠ 0) (hdisk : k₀.dev.disk = disk)
    (hprobe : fat16Probe (fun _ => true) disk = .ok (.ok p)) (hbpc : 0 < p.bytesPerCluster)
    (hwhole : p.bytesPerCluster % FAT_ENTRY_SIZE = 0) (hne : operations ≠ 0)
    (hbehind : operations + BitVec.ofNat 32 filesystemOperationsSize ≠ 0)
    (hmain : kernelMain operations k₀ = .ok (x, m))
    (htask : (m.procs (m.processes 1)).map Process.task ≠ some 0) {calls : List ClientCall}
    (hrun : Runs Step (start m) calls s) :
    ∃ σ : List (OpenStream disk p), Runs SpecStep [] (calls.flatMap ClientCall.events) σ ∧
      σ.map OpenStream.stream = s.streams ∧ (∀ b ∈ s.buffers, b.Holds s.kernel) ∧
      (∀ g ∈ s.programs, g.InMemory s.kernel) ∧ s.programs.Pairwise (Program.Apart s.kernel) ∧
      s.Responds := by
  obtain ⟨handle, hstart⟩ := start_inv hboot hblocks hcur hslots hanswers himage hdisk hprobe hne
    hbehind hmain htask
  obtain ⟨σ, hspec, base, opened, handle, h⟩ := hrun.simulates
    (fun s σ => ∃ base opened handle, ClientInv base s σ opened handle) ClientCall.events
    (fun s call t σ ⟨_, _, _, h⟩ hstep => h.step hprobe hbpc hwhole hstep) ⟨_, _, _, hstart⟩
  obtain ⟨hmemory, hapart⟩ := h.load.inMemory
  exact ⟨σ, hspec, h.contents.streams, fun b hb => (h.buffers b hb).2, hmemory, hapart,
    responds h hprobe hbpc hwhole⟩

/-! A boot with memory for every request, on the disk of `noteDisk`. -/

def noteBoot : Kernel :=
  { bootExample with
    answers := fun n => [0xC0141000, 0xC0142000, 0xC0144000, 0xC0145000, 0xC0146000].getD n
      (BitVec.ofNat 32 (0xC0150000 + 0x4000 * (n % 0x80)))
    dev := ⟨FileClient.noteDisk, 0, []⟩ }

theorem noteBoot_boot : noteBoot.Boot :=
  ⟨bootExample_boot.kernel, by decide, rfl⟩

theorem noteBoot_answers (n : Nat) : noteBoot.answers n ≠ 0 := by
  change [0xC0141000, 0xC0142000, 0xC0144000, 0xC0145000, 0xC0146000].getD n _ ≠ (0 : Word)
  match n with
  | 0 | 1 | 2 | 3 | 4 => decide
  | n + 5 =>
    intro h
    have hnat : (0xC0150000 + 0x4000 * ((n + 5) % 0x80)) % 2 ^ 32 = 0 := congrArg BitVec.toNat h
    omega

def noteDirectory : Kernel := noteBoot.after pagingInitHead

def noteFirstPage : Kernel := noteDirectory.after (pagingMapPage 0xC0120000 0 0 3)

def noteLow : Kernel := { noteFirstPage with
  tables := Function.update noteFirstPage.tables 0xC0145000
    (some (mapPages (Function.update (fun _ => 0) 0 3) 1 4096 1023)) }

def noteHigh : Kernel := noteLow.after (pagingMapPage 0xC0120000 0xC0000000 0 3)

def noteMapped : Kernel := { noteHigh with
  tables := Function.update noteHigh.tables 0xC0146000
    (some (mapPages (Function.update (fun _ => 0) 0 3) 1 4096 1023)) }

def noteDone : Kernel := noteMapped.after (pagingInitTail 0xC0142000)

theorem pagingInit_noteBoot : pagingInit noteBoot = .ok ((), noteDone) := by
  have hlow : noteFirstPage.handles 0xC0120000 =
      some ⟨0xC0144000, Function.update (lastOnly 0xC0144000) 0 0xC0145000⟩ := rfl
  have hhigh : noteHigh.handles 0xC0120000 = some ⟨0xC0144000,
      Function.update (Function.update (lastOnly 0xC0144000) 0 0xC0145000) 768 0xC0146000⟩ := rfl
  have hlow' : mapFirstMegabytes 0 noteDirectory = .ok ((), noteLow) :=
    @mapFirstMegabytes_returns noteDirectory noteFirstPage 0 _ _ 0 (by decide) (by decide) rfl
      (by decide) hlow (by decide) rfl
  have hhigh' : mapFirstMegabytes KERNEL_VIRTUAL_BASE noteLow = .ok ((), noteMapped) :=
    @mapFirstMegabytes_returns noteLow noteHigh KERNEL_VIRTUAL_BASE _ _ 768 (by decide) (by decide)
      rfl (by decide) hhigh (by decide) rfl
  have hhead : pagingInitHead noteBoot = .ok (0xC0142000, noteDirectory) := rfl
  rw [pagingInit_eq, bind_eq hhead, bind_eq hlow', bind_eq hhigh']
  rfl

/-- `kernel_main` after `paging_init`. -/
def noteRest : K Unit := do
  fileTableInit
  diskInit 0xC0100400 (fsInit 0xC0100400).2
  taskingInit

def noteMain : Kernel := noteDone.after noteRest

theorem kernelMain_noteBoot : kernelMain 0xC0100400 noteBoot = .ok ((), noteMain) := by
  have hrest : (noteRest noteDone).toOption.map Prod.fst = some () := by decide +kernel
  rw [kernelMain, bind_eq pagingInit_noteBoot]
  exact after_of_ok hrest

def noteBuffer : Kernel := noteMain.after (AvocadOS.kzalloc 3)
def noteOpen : Kernel := noteBuffer.after (AvocadOS.fopen 10 (ascii "0:/A") (ascii "r"))
def noteRead : Kernel := noteOpen.after (AvocadOS.fread 1 3 0xC0190000)
def noteWritten : Kernel := noteRead.after (writeRaw 0xC0180000 [0, 1, 2])

def noteSession (k : Kernel) (streams : List Word) (bytes : List Byte) :
    ClientSession FileClient.noteDisk FileClient.noteVolume :=
  ⟨⟨k, [noteMain.processes 0, noteMain.processes 1], []⟩, streams, [⟨⟨0xC0180000, 3⟩, bytes⟩]⟩

/-- A buffer is allocated, `A` is opened and read to it, and `A` is loaded. -/
theorem kernelMain_serves_noteDisk : ∃ s : ClientSession FileClient.noteDisk FileClient.noteVolume,
    Runs Step (start noteMain) [.kzalloc 3, .file (.fopen (ascii "0:/A") (ascii "r") 0xC0190000),
      .file (.fread 0xC0190000 1 3 3 [0, 1, 2]), .program (.load (ascii "0:/A"))] s ∧
    s.buffers = [⟨⟨0xC0180000, 3⟩, [0, 1, 2]⟩] ∧ (∀ b ∈ s.buffers, b.Holds s.kernel) ∧
    s.programs.length = 1 ∧ ∀ g ∈ s.programs, g.InMemory s.kernel := by
  have htask : (noteMain.procs (noteMain.processes 1)).map Process.task ≠ some 0 := by decide +kernel
  have halloc : (AvocadOS.kzalloc 3 noteMain).toOption.map Prod.fst = some 0xC0180000 := by
    decide +kernel
  have hopen : (AvocadOS.fopen 10 (ascii "0:/A") (ascii "r") noteBuffer).toOption.map Prod.fst =
      some 0xC0190000 := by decide +kernel
  have hread : (AvocadOS.fread 1 3 0xC0190000 noteOpen).toOption.map Prod.fst =
      some (3, [0, 1, 2]) := by decide +kernel
  have hload : (processLoad 10 (ascii "0:/A") noteWritten).toOption.map
      (fun r => (r.1, decide (InKernelRange (r.2.memoryOf (r.2.processes 2)) 3))) =
      some (0, true) ∧ findFreeSlot noteWritten.processes MAX_PROCESSES 0 = some 2 := by
    decide +kernel
  obtain ⟨hload, hslot⟩ := hload
  obtain ⟨⟨res, k⟩, hk, hres⟩ := Option.map_eq_some_iff.mp hload
  obtain ⟨rfl, hrange⟩ := Prod.mk.inj hres
  have hlength : FileClient.noteFile.content.length = 3 := by
    rw [RegularFile.content_length]
    rfl
  have h₁ : Step (start noteMain) (.kzalloc 3) (noteSession noteBuffer [] []) :=
    @Step.kzalloc _ _ (start noteMain) 3 0xC0180000 noteBuffer (after_of_ok halloc)
  have h₂ : Step (noteSession noteBuffer [] []) (.file (.fopen (ascii "0:/A") (ascii "r") 0xC0190000))
      (noteSession noteOpen [0xC0190000] []) := by
    have hrun : ∀ fuel ≥ 10, AvocadOS.fopen fuel (ascii "0:/A") (ascii "r") noteBuffer =
        .ok (0xC0190000, noteOpen) := fun fuel hle =>
      (Below.le (fun n => below_fopen n _ _) hle).ok (after_of_ok hopen)
    exact .file rfl ⟨some FileClient.noteFile, FileClient.noteVolume_names⟩ (.fopen hrun)
  have h₃ : ∀ {k k' : Kernel}, AvocadOS.fread 1 3 0xC0190000 k = .ok ((3, [0, 1, 2]), k') →
      Step (noteSession k [0xC0190000] []) (.file (.fread 0xC0190000 1 3 3 [0, 1, 2]))
        (noteSession (k'.after (writeRaw 0xC0180000 [0, 1, 2])) [0xC0190000] [0, 1, 2]) := by
    intro k k' hrun
    have hfile : FileClient.Step ⟨k, [0xC0190000]⟩ (.fread 0xC0190000 1 3 3 [0, 1, 2])
        ⟨k', [0xC0190000]⟩ := .fread List.mem_cons_self (by decide) hrun
    exact @Step.fread _ _ (noteSession k [0xC0190000] []) ⟨⟨0xC0180000, 3⟩, []⟩ 0xC0190000 1 3 3
      [0, 1, 2] k' _ List.mem_cons_self (by decide) hfile rfl
  have h₄ : Step (noteSession noteWritten [0xC0190000] [0, 1, 2])
      (.program (.load (ascii "0:/A"))) _ :=
    .program (.load FileClient.noteVolume_names hslot (ok_of_toOption hk)
      (by rw [hlength]; exact of_decide_eq_true hrange))
  have hruns := Runs.cons h₁ (.cons h₂ (.cons (h₃ (after_of_ok hread)) (.cons h₄ (.nil _))))
  obtain ⟨σ, -, -, hbuffers, hprograms, -⟩ := kernelMain_serves noteBoot_boot rfl rfl (fun _ => rfl)
    noteBoot_answers (by decide) rfl FileClient.noteKernel_probe (by decide) (by decide) (by decide)
    (by decide) kernelMain_noteBoot htask hruns
  exact ⟨_, hruns, rfl, hbuffers, rfl, hprograms⟩

end ClientSession

end AvocadOS
