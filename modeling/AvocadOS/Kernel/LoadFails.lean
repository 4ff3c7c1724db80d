import AvocadOS.Fs.Table
import AvocadOS.Kernel.Load
import AvocadOS.Kernel.Rings

/-!
# A `process_load` that fails

`AllOrNothing`: a `process_load` that creates no process returns a negative value and leaves
everything as it was. Its cleanups do not do this.

* `Retains`: what a call has allocated while it reads a file;
* `ReadsWhole`, `CreatesTask`: the way through `process_load_binary` and through `process_init` on
  which no check fails;
* `processLoadBinary_iff`: `process_load_binary` returns on this way only;
* `all_or_nothing_iff`: with a free slot, `process_load` is all or nothing on this way only.
-/

namespace AvocadOS

open Kernel

/-! ## What a call holds -/

/-- `s`, with the raw memory, the open files and the disk stream of `u`. -/
def Kernel.withWork (s u : Kernel) : Kernel :=
  { s with raw := u.raw, fileTable := u.fileTable, dev := u.dev }

/-- From `s` to `u` the blocks `own` were allocated and not freed. Raw memory was written, and files
were opened, read and closed. -/
def Retains (s u : Kernel) (own : List Block) : Prop := Grown (s.withWork u) u own

section

variable {s t u v : Kernel} {own own' : List Block} {h : Handle} {fuel : Nat} {fd : Word}
  {filename mode : List Byte}

theorem Retains.of_grown (hg : Grown s u own) : Retains s u own where
  blocks := hg.blocks
  sizes := hg.sizes
  fresh := hg.fresh
  nodup := hg.nodup
  cells := hg.cells
  still := by
    have hstill := congrArg (fun k : Kernel =>
      { k with raw := u.raw, fileTable := u.fileTable, dev := ⟨u.dev.disk, 0, []⟩ }) hg.still
    exact hstill

theorem Retains.trans (hu : Retains s u own) (hg : Grown u v own') : Retains s v (own' ++ own) :=
  Retains.of_grown (s := s.withWork u) (Grown.trans hu hg)

/-- Work is no part of what is said. -/
theorem Retains.work (hu : Retains s u own) (hv : v = u.withWork v) : Retains s v own where
  blocks := by
    rw [hv]
    exact hu.blocks
  sizes := hu.sizes
  fresh := hu.fresh
  nodup := hu.nodup
  cells := by
    rw [hv]
    exact hu.cells
  still := by
    have hstill := congrArg (fun k : Kernel =>
      { k with raw := v.raw, fileTable := v.fileTable, dev := ⟨v.dev.disk, 0, []⟩ }) hu.still
    rw [hv]
    exact hstill

theorem Retains.currentTask_eq (hu : Retains s u own) : u.currentTask = s.currentTask :=
  show u.still.currentTask = _ by rw [hu.still]; rfl

/-- Some of the blocks are given back. -/
theorem Grown.without (hg : Grown s u (own ++ own')) (hok : u.HeapOk) :
    Grown s (u.without own) own' := by
  have hblocks : u.blocks.Perm (own ++ (own' ++ s.blocks)) := by
    rw [← List.append_assoc]
    exact hg.blocks
  have hnodup := hg.nodup
  rw [List.map_append, List.nodup_append] at hnodup
  refine ⟨(hok.grown_without hblocks).2, fun b hb => hg.sizes b ?_, fun b hb => ?_, hnodup.2.1,
    fun a ha => ?_, (foldl_erase_still own u).trans hg.still⟩
  · rw [List.append_assoc]
    exact List.mem_append_right _ hb
  · exact hg.fresh b (List.mem_append_right _ hb)
  · rw [without_cell, if_neg]
    · exact hg.cells a ha
    · intro hmem
      obtain ⟨b, hb, rfl⟩ := List.mem_map.mp hmem
      exact hg.ne_of_mem (List.mem_append_left _ hb) ha rfl

theorem kzalloc_grown {size : Nat} {a : Word} (hsizes : ∀ b ∈ u.blocks, 0 < b.size)
    (hk : kzalloc size u = .ok (a, v)) :
    (a = 0 ∧ Grown u v []) ∨ (a ≠ 0 ∧ 0 < size ∧ Grown u v [⟨a, size⟩]) := by
  have hrefl := Grown.refl hsizes
  rcases kzalloc_ok hk with ⟨rfl, rfl⟩ | ⟨hne, hpos, hfresh, rfl⟩
  · exact .inl ⟨rfl, hrefl.blocks, hrefl.sizes, hrefl.fresh, hrefl.nodup, hrefl.cells, hrefl.still⟩
  · have hnew := hrefl.new_of_fresh hpos hfresh
    refine .inr ⟨hne, hpos, .refl _, fun b hb => ?_, fun b hb => ?_, by simp, fun _ _ => rfl, rfl⟩
    · rcases List.mem_cons.mp hb with rfl | hb
      · exact hpos
      · exact hsizes b hb
    · rw [List.mem_singleton.mp hb]
      exact hnew

/-! ## A file that is read -/

/-- From `s` to `u` the file `h` was opened, and the blocks `own` were allocated. -/
structure Reading (s u : Kernel) (h : Handle) (own : List Block) : Prop where
  holds : Retains s u (h.blocks ++ own)
  heap : u.HeapOk
  inMemory : HandleAt u h
  mounted : u.fsPrivate ≠ none
  slot : h.fileno < MAX_OPEN_FILES
  entry : u.fileTable h.fileno = h.file
  disk : u.image.disk ≠ 0

/-- A file was opened. -/
theorem Reading.of_handle {t₀ : Kernel} (hok : s.HeapOk) (himage : s.image.disk ≠ 0)
    (hmounted : s.fsPrivate ≠ none)
    (hslot : findFreeSlot s.fileTable MAX_OPEN_FILES 0 = some h.fileno) (hat : HandleAt t₀ h)
    (hg : Grown s t₀ h.blocks) :
    Reading s { t₀ with fileTable := Function.update s.fileTable h.fileno h.file } h [] := by
  have hholds : Retains s { t₀ with fileTable := Function.update s.fileTable h.fileno h.file }
      h.blocks := (Retains.of_grown hg).work rfl
  refine ⟨?_, ?_, ?_, ?_, ?_, Function.update_self _ _ _, ?_⟩
  · rwa [List.append_nil]
  · exact ⟨(hok.grown hg).sizes, (hok.grown hg).nodup⟩
  · exact hat.congr rfl fun _ _ => rfl
  · exact hg.fsPrivate_eq ▸ hmounted
  · have := (findFreeSlot_some hslot).2
    omega
  · exact hg.image_eq ▸ himage

/-- `fopen` has returned a file. -/
theorem Reading.of_fopen (hok : s.HeapOk) (himage : s.image.disk ≠ 0)
    (hrun : fopen fuel filename mode s = .ok (fd, u)) (hfd : fd ≠ 0) :
    ∃ h, h.file = fd ∧ Reading s u h [] := by
  have hdoes : Does (fun _ => True) (fopen fuel filename mode) s _ :=
    fopen_does trivial hok.sizes himage (fun _ => trivial) (fun _ => .inr trivial)
      fun _ _ _ _ => .inr fun _ => trivial
  rcases hdoes.post hrun with ⟨rfl, -⟩ | ⟨h, t₀, rfl, hmounted, hslot, hat, hg, rfl⟩
  · exact absurd rfl hfd
  · exact ⟨h, rfl, .of_handle hok himage hmounted hslot hat hg⟩

theorem Reading.work (hr : Reading s u h own) (hv : v = { u with raw := v.raw, dev := v.dev }) :
    Reading s v h own where
  holds := hr.holds.work (by rw [hv]; rfl)
  heap := by
    rw [hv]
    exact ⟨hr.heap.sizes, hr.heap.nodup⟩
  inMemory := by
    rw [hv]
    exact hr.inMemory.congr rfl fun _ _ => rfl
  mounted := by
    rw [hv]
    exact hr.mounted
  slot := hr.slot
  entry := by
    rw [hv]
    exact hr.entry
  disk := by
    rw [hv]
    exact hr.disk

theorem Reading.grown (hr : Reading s u h own) (hg : Grown u v own') :
    Reading s v h (own' ++ own) := by
  refine ⟨(hr.holds.trans hg).perm ?_, hr.heap.grown hg, hr.inMemory.grown hg,
    hg.fsPrivate_eq ▸ hr.mounted, hr.slot, hg.fileTable_eq ▸ hr.entry, hg.image_eq ▸ hr.disk⟩
  rw [← List.append_assoc, ← List.append_assoc]
  exact List.perm_append_comm.append_right own

/-- `file_table.table[stream->fileno]` is the file itself. -/
theorem Reading.table_entry (hr : Reading s u h own) :
    getFileTable (h.fileno : Int) u = .ok (h.file, u) := by
  have := hr.slot
  rw [getFileTable, if_pos ⟨by omega, by omega⟩, bind_get_eq, Int.toNat_natCast, hr.entry]
  rfl

/-- The descriptor of the file is written. -/
theorem Reading.setDescriptor (hr : Reading s u h own) (d : FatDescriptor) :
    Reading s { u with descriptors := Function.update u.descriptors h.descriptor (some d) } h own := by
  have helse : Elsewhere h.descriptor u
      { u with descriptors := Function.update u.descriptors h.descriptor (some d) } :=
    descriptors_local.cell_put u h.descriptor (some d)
  have hnodup := hr.holds.nodup
  simp only [Handle.blocks, List.cons_append, List.map_cons, List.map_append, List.nodup_cons,
    List.mem_cons, List.mem_append, not_or] at hnodup
  have hpath : PathAt { u with descriptors := Function.update u.descriptors h.descriptor (some d) }
      h.root 0 h.segs := by
    refine hr.inMemory.path.congr fun b hb => helse _ ?_
    exact fun heq => hnodup.1.2.1 (heq ▸ List.mem_map_of_mem hb)
  refine ⟨?_, ⟨hr.heap.sizes, hr.heap.nodup⟩, ?_, hr.mounted, hr.slot, hr.entry, hr.disk⟩
  · exact Grown.of_elsewhere hr.holds (by simp [Handle.blocks]) rfl rfl helse
  · exact ⟨hr.inMemory.file_ne, hr.inMemory.file, hpath, hr.inMemory.length_lt,
      hr.inMemory.descriptor.1, d, Function.update_self _ _ _⟩

theorem onDev_ok {α : Type} {m : DevM α} {a : α} (hrun : onDev m u = .ok (a, v)) :
    ∃ dev, v = { u with dev := dev } := by
  rw [onDev] at hrun
  split at hrun
  · cases hrun
  · cases hrun
    exact ⟨_, rfl⟩

/-- `fread` writes the descriptor and moves the disk stream. -/
theorem Reading.of_fread {size nmemb : Nat} {r : Nat × List Byte} (hr : Reading s u h own)
    (hrun : fread size nmemb h.file u = .ok (r, v)) : Reading s v h own := by
  have hload : files.load h.file u = .ok (_, u) :=
    Store.load_eq hr.inMemory.file_ne hr.inMemory.file
  obtain ⟨p, hp⟩ := Option.ne_none_iff_exists'.mp hr.mounted
  obtain ⟨hne, d, hd⟩ := hr.inMemory.descriptor
  rw [fread, bind_eq hload, bind_eq hr.table_entry, if_neg hr.inMemory.file_ne,
    bind_eq hload, bind_eq (operationsOf_eq hr.disk hp)] at hrun
  change fat16ReadPriv h.descriptor size nmemb u = _ at hrun
  have hpriv : descriptors.load h.descriptor u = .ok (d, u) := Store.load_eq hne hd
  rw [fat16ReadPriv, bind_eq (fsPrivate_eq hp), bind_eq hpriv] at hrun
  obtain ⟨⟨d', n, out⟩, w, hdev, hrun⟩ := bind_ok hrun
  obtain ⟨dev, rfl⟩ := onDev_ok hdev
  obtain ⟨_, w, hset, hrun⟩ := bind_ok hrun
  obtain ⟨-, y, -, rfl⟩ := Store.modify_ok hset
  obtain ⟨-, rfl⟩ := pure_ok hrun
  have hmoved : Reading s { u with dev := dev } h own := hr.work rfl
  exact hmoved.setDescriptor d'

theorem Reading.of_fstat {r : Int × Nat} (hr : Reading s u h own)
    (hrun : fstat (h.fileno : Int) u = .ok (r, v)) : r.1 = 0 ∧ v = u := by
  have hload : files.load h.file u = .ok (_, u) :=
    Store.load_eq hr.inMemory.file_ne hr.inMemory.file
  obtain ⟨p, hp⟩ := Option.ne_none_iff_exists'.mp hr.mounted
  obtain ⟨hne, d, hd⟩ := hr.inMemory.descriptor
  rw [fstat, bind_eq hr.table_entry, if_neg hr.inMemory.file_ne, bind_eq hload,
    bind_eq (operationsOf_eq hr.disk hp)] at hrun
  change fat16Stat h.descriptor u = _ at hrun
  have hpriv : descriptors.load h.descriptor u = .ok (d, u) := Store.load_eq hne hd
  rw [fat16Stat, bind_eq hpriv] at hrun
  obtain ⟨rfl, rfl⟩ := pure_ok hrun
  exact ⟨rfl, rfl⟩

/-- `fclose` returns `0` and frees what was opened. -/
theorem Reading.closes_grown (hr : Reading s u h own) :
    ∃ w, fclose h.file u = .ok (0, w) ∧ Grown (u.closed h) w [] := by
  obtain ⟨p, hp⟩ := Option.ne_none_iff_exists'.mp hr.mounted
  have hblocks : u.blocks.Perm (h.blocks ++ (own ++ s.blocks)) := by
    rw [← List.append_assoc]
    exact hr.holds.blocks
  have hdoes : Does (fun _ => False) (fclose h.file) u _ :=
    fclose_does hr.heap hp hr.disk hr.inMemory hr.slot hr.entry hblocks
  obtain ⟨_, _, hfalse⟩ | ⟨_, w, hrun, rfl, hg⟩ := hdoes
  · exact hfalse.elim
  · exact ⟨w, hrun, hg⟩

/-- `fclose` returns `0`, and what was opened is given back. -/
theorem Reading.closes (hr : Reading s u h own) :
    ∃ w, fclose h.file u = .ok (0, w) ∧ Retains s w own := by
  obtain ⟨w, hrun, hg⟩ := hr.closes_grown
  have hgiven : Retains s (u.without h.blocks) own :=
    Retains.of_grown (s := s.withWork u) (Grown.without hr.holds hr.heap)
  have hclosed : Retains s (u.closed h) own := hgiven.work rfl
  exact ⟨w, hrun, hclosed.trans hg⟩

/-- A file that is closed once more is read behind its `kfree`. -/
theorem Reading.closes_once (hr : Reading s u h own) (hrun : fclose h.file u = .ok (0, v)) :
    fclose h.file v = .error .badDeref := by
  have hload : files.load h.file u = .ok (_, u) :=
    Store.load_eq hr.inMemory.file_ne hr.inMemory.file
  rw [fclose, bind_eq hload, bind_eq hr.table_entry, if_neg hr.inMemory.file_ne] at hrun
  obtain ⟨res, u₁, -, hrun⟩ := bind_ok hrun
  split at hrun
  · rename_i hres
    exact absurd (pure_ok hrun).1.symm hres
  obtain ⟨-, f, -, hrun⟩ := Store.bind_load_ok hrun
  obtain ⟨ops, u₂, -, hrun⟩ := bind_ok hrun
  obtain ⟨res, u₃, -, hrun⟩ := bind_ok hrun
  split at hrun
  · rename_i hres
    exact absurd (pure_ok hrun).1.symm hres
  obtain ⟨_, u₄, -, hrun⟩ := bind_ok hrun
  obtain ⟨_, u₅, hfree, hrun⟩ := bind_ok hrun
  obtain ⟨-, rfl⟩ := pure_ok hrun
  obtain ⟨-, rfl⟩ := kfree_ok hfree
  have hnone : files.load h.file { u₄.erase h.file with
      blocks := u₄.blocks.filter (·.ptr ≠ h.file) } = .error .badDeref := by
    rw [Store.load, if_neg hr.inMemory.file_ne]
    simp [files, Kernel.erase]
  simp only [fclose, Bind.bind, StateT.bind, Except.bind, hnone]

/-! ## `process_load_binary` -/

/-- No check of `process_load_binary` fails: there is the file, memory for its bytes, and all of them
are read. -/
inductive ReadsWhole (fuel : Nat) (filename : List Byte) (s : Kernel) (memory : Word) (size : Nat)
    (t : Kernel) : Prop
  | intro {fd : Word} {f : File} {bytes : List Byte} {res : Int} {s₁ s₂ s₃ s₄ s₅ : Kernel}
      (opened : fopen fuel filename (ascii "r") s = .ok (fd, s₁)) (found : fd ≠ 0)
      (loaded : files.load fd s₁ = .ok (f, s₁))
      (stated : fstat f.fileno s₁ = .ok ((0, size), s₂))
      (allocated : kzalloc size s₂ = .ok (memory, s₃)) (granted : memory ≠ 0)
      (read : fread size 1 fd s₃ = .ok ((size, bytes), s₄))
      (written : writeRaw memory bytes s₄ = .ok ((), s₅))
      (closed : fclose fd s₅ = .ok (res, t))

theorem Reading.of_kzalloc {size : Nat} {a : Word} (hr : Reading s u h [])
    (hk : kzalloc size u = .ok (a, v)) :
    (a = 0 ∧ Reading s v h []) ∨ (a ≠ 0 ∧ 0 < size ∧ Reading s v h [⟨a, size⟩]) := by
  rcases kzalloc_grown hr.heap.sizes hk with ⟨ha, hg⟩ | ⟨ha, hsize, hg⟩
  · exact .inl ⟨ha, hr.grown hg⟩
  · exact .inr ⟨ha, hsize, hr.grown hg⟩

/-- Up to `out`, and what is held there. -/
theorem Reading.binaryRead {res : Int} {memory : Word} {size : Nat} (hr : Reading s u h [])
    (hrun : processLoadBinaryRead h.file u = .ok ((res, memory, size), v)) :
    ∃ own, Reading s v h own ∧ (res = 0 → own = [⟨memory, size⟩] ∧ 0 < size ∧ memory ≠ 0 ∧
      ∃ s₂ s₃ s₄ bytes, fstat (h.fileno : Int) u = .ok ((0, size), s₂) ∧
        kzalloc size s₂ = .ok (memory, s₃) ∧
        fread size 1 h.file s₃ = .ok ((size, bytes), s₄) ∧
        writeRaw memory bytes s₄ = .ok ((), v)) := by
  have hload : files.load h.file u = .ok (_, u) :=
    Store.load_eq hr.inMemory.file_ne hr.inMemory.file
  rw [processLoadBinaryRead, bind_eq hload] at hrun
  obtain ⟨⟨stat, st⟩, s₂, hstat, hrest⟩ := bind_ok hrun
  obtain ⟨rfl, rfl⟩ := hr.of_fstat hstat
  obtain ⟨a, s₃, hk, hrun⟩ := bind_ok hrest
  rcases hr.of_kzalloc hk with ⟨rfl, hr₃⟩ | ⟨hne, hsize, hr₃⟩
  · rw [if_pos rfl] at hrun
    obtain ⟨hres, rfl⟩ := pure_ok hrun
    cases hres
    exact ⟨[], hr₃, fun h0 => absurd h0 (by decide)⟩
  · rw [if_neg hne] at hrun
    obtain ⟨⟨n, bytes⟩, s₄, hread, hrun⟩ := bind_ok hrun
    have hr₄ := hr₃.of_fread hread
    obtain ⟨_, s₅, hwrite, hrun⟩ := bind_ok hrun
    have hr₅ : Reading s s₅ h [⟨a, st⟩] := by
      cases hwrite
      exact hr₄.work rfl
    refine ⟨[⟨a, st⟩], ?_, ?_⟩
    · split at hrun <;> obtain ⟨-, rfl⟩ := pure_ok hrun <;> exact hr₅
    · intro h0
      split at hrun
      · obtain ⟨hres, -⟩ := pure_ok hrun
        cases hres
        exact absurd h0 (by decide)
      · rename_i hn
        obtain ⟨hres, rfl⟩ := pure_ok hrun
        cases hres
        obtain rfl : n = size := not_not.mp hn
        exact ⟨rfl, hsize, hne, s₂, s₃, s₄, bytes, hstat, hk, hread, hwrite⟩

theorem ReadsWhole.binaryRead {f : File} {size : Nat} {memory : Word} {bytes : List Byte}
    {s₁ s₂ s₃ s₄ s₅ : Kernel} (hload : files.load fd s₁ = .ok (f, s₁))
    (hstat : fstat f.fileno s₁ = .ok ((0, size), s₂)) (hk : kzalloc size s₂ = .ok (memory, s₃))
    (hne : memory ≠ 0) (hread : fread size 1 fd s₃ = .ok ((size, bytes), s₄))
    (hwrite : writeRaw memory bytes s₄ = .ok ((), s₅)) :
    processLoadBinaryRead fd s₁ = .ok ((0, memory, size), s₅) := by
  rw [processLoadBinaryRead, bind_eq hload, bind_eq hstat]
  dsimp only
  rw [if_neg (by simp), bind_eq hk, if_neg hne, bind_eq hread]
  dsimp only
  rw [bind_eq hwrite, if_neg (by simp)]
  rfl

theorem fclose_null (s : Kernel) : fclose 0 s = .error .nullDeref := rfl

/-- `process_load_binary` returns exactly if no check fails: after an error it closes NULL, or closes
the file a second time. -/
theorem processLoadBinary_iff {res : Int} {memory : Word} {size : Nat} (hok : s.HeapOk)
    (himage : s.image.disk ≠ 0) :
    processLoadBinary fuel filename s = .ok ((res, memory, size), t) ↔
      res = 0 ∧ ReadsWhole fuel filename s memory size t := by
  constructor
  · intro hrun
    obtain ⟨fd, s₁, hopen, hrun⟩ := bind_ok hrun
    split at hrun
    · rename_i hfd
      obtain ⟨_, _, hclose, -⟩ := bind_ok hrun
      rw [hfd, fclose_null] at hclose
      cases hclose
    rename_i hfd
    obtain ⟨h, rfl, hr⟩ := Reading.of_fopen hok himage hopen hfd
    obtain ⟨⟨res', memory', size'⟩, v, hread, hout⟩ := bind_ok hrun
    obtain ⟨own, hr', hzero⟩ := hr.binaryRead hread
    obtain ⟨w, hclose, -⟩ := hr'.closes
    replace hout : processLoadBinaryOut h.file res' memory' size' v = _ := hout
    rw [processLoadBinaryOut, bind_eq hclose] at hout
    by_cases hres : res' = 0
    · rw [if_neg (not_not.mpr hres)] at hout
      obtain ⟨hsame, rfl⟩ := pure_ok hout
      cases hsame
      obtain ⟨-, -, hne, s₂, s₃, s₄, bytes, hstat, hk, hfread, hwrite⟩ := hzero hres
      have hload : files.load h.file s₁ = .ok (_, s₁) :=
        Store.load_eq hr.inMemory.file_ne hr.inMemory.file
      exact ⟨hres, .intro hopen hfd hload hstat hk hne hfread hwrite hclose⟩
    · -- the file is closed once more
      rw [if_pos hres, if_pos hfd] at hout
      obtain ⟨_, _, hagain, -⟩ := bind_ok hout
      rw [hr'.closes_once hclose] at hagain
      cases hagain
  · rintro ⟨rfl, hopen, hfd, hload, hstat, hk, hne, hread, hwrite, hclose⟩
    rw [processLoadBinary, bind_eq hopen, if_neg hfd]
    have hout := ReadsWhole.binaryRead hload hstat hk hne hread hwrite
    rw [bind_eq hout]
    exact bind_eq hclose

/-- The bytes of the file stay allocated. -/
theorem ReadsWhole.holds {memory : Word} {size : Nat} (hok : s.HeapOk) (himage : s.image.disk ≠ 0)
    (hr : ReadsWhole fuel filename s memory size t) :
    Retains s t [⟨memory, size⟩] ∧ 0 < size := by
  obtain ⟨hopen, hfd, hload, hstat, hk, hne, hread, hwrite, hclose⟩ := hr
  have hbinary := ReadsWhole.binaryRead hload hstat hk hne hread hwrite
  obtain ⟨h, rfl, hr⟩ := Reading.of_fopen hok himage hopen hfd
  obtain ⟨own, hr', hzero⟩ := hr.binaryRead hbinary
  obtain ⟨rfl, hsize, -⟩ := hzero rfl
  obtain ⟨w, hclose', hholds⟩ := hr'.closes
  rw [hclose] at hclose'
  cases hclose'
  exact ⟨hholds, hsize⟩

end

/-! ## `process_init` -/

/-- No check of `process_init` fails: there is memory for the process, its stack and its task, and
its memory is mapped. -/
inductive CreatesTask (name : List Byte) (memory : Word) (size slot : Nat) (s : Kernel) : Prop
  | intro {process stack task : Word} {s₁ s₂ s₃ s₄ s₅ s₆ s₇ s₈ : Kernel}
      (allocated : procs.alloc processSize Process.zero s = .ok (process, s₁)) (granted : process ≠ 0)
      (stored : setProcess slot process s₁ = .ok ((), s₂))
      (filled : procs.modify process (fun p =>
        { p with pid := slot, memorySize := size, memory := memory }) s₂ = .ok ((), s₃))
      (stacked : kzalloc PROGRAM_STACK_SIZE s₃ = .ok (stack, s₄)) (stackGranted : stack ≠ 0)
      (stackStored : procs.modify process (Process.setStack stack) s₄ = .ok ((), s₅))
      (mapped : processMapMemory process s₅ = .ok (0, s₆))
      (named : procs.modify process (fun p => { p with name := strncpy name MAX_PATH_LEN }) s₆ =
        .ok ((), s₇))
      (started : taskNew process false PROGRAM_BASE_VIRT_ADDR
        (PROGRAM_STACK_TOP_VIRT_ADDR + BitVec.ofNat 32 PROGRAM_STACK_SIZE) s₇ = .ok (task, s₈))
      (taskGranted : task ≠ 0)

section

variable {s t u : Kernel} {process sys memory : Word} {x c : Process} {name : List Byte}
  {size slot : Nat} {l ps : List Word}

/-- The process is linked in if the ring is there. -/
theorem processListInsert_returns (hsys : u.systemProcess = some sys)
    (hsystem : u.image.systemTask ≠ 0) (hsys₀ : sys ≠ 0) (hprocess₀ : process ≠ 0)
    (hne : process ≠ sys) (hprocess : u.procs process = some x) (hc : u.procs sys = some c)
    (hlast₀ : c.previous ≠ 0) (hlast : u.procs c.previous ≠ none) :
    ∃ t, processListInsert process u = .ok ((), t) := by
  obtain ⟨st, hst, rfl⟩ := Option.map_eq_some_iff.mp hsys
  have hload : tasks.load u.image.systemTask u = .ok (st, u) := Store.load_eq hsystem hst
  rw [processListInsert, bind_get_eq, bind_eq hload]
  obtain ⟨u₁, h₁, hu₁⟩ : ∃ u₁, procs.modify process (Process.setNext st.process) u = .ok ((), u₁) ∧
      u₁.procs = Function.update u.procs process (some (x.setNext st.process)) :=
    ⟨_, Store.modify_eq hprocess₀ hprocess, rfl⟩
  have hc₁ : u₁.procs st.process = some c := by rw [hu₁, Function.update_of_ne hne.symm, hc]
  have hload₁ : procs.load st.process u₁ = .ok (c, u₁) := Store.load_eq hsys₀ hc₁
  have hx₁ : u₁.procs process = some (x.setNext st.process) := by rw [hu₁, Function.update_self]
  rw [bind_eq h₁, bind_eq hload₁]
  obtain ⟨u₂, h₂, hu₂⟩ : ∃ u₂, procs.modify process (Process.setPrevious c.previous) u₁ =
        .ok ((), u₂) ∧ u₂.procs = Function.update u₁.procs process
          (some ((x.setNext st.process).setPrevious c.previous)) :=
    ⟨_, Store.modify_eq hprocess₀ hx₁, rfl⟩
  have hc₂ : u₂.procs st.process = some c := by rw [hu₂, Function.update_of_ne hne.symm, hc₁]
  obtain ⟨u₃, h₃, hu₃⟩ : ∃ u₃, procs.modify st.process (Process.setPrevious process) u₂ =
        .ok ((), u₃) ∧ u₃.procs = Function.update u₂.procs st.process (some (c.setPrevious process)) :=
    ⟨_, Store.modify_eq hsys₀ hc₂, rfl⟩
  have hx₃ : u₃.procs process = some ((x.setNext st.process).setPrevious c.previous) := by
    rw [hu₃, Function.update_of_ne hne, hu₂, Function.update_self]
  have hload₃ : procs.load process u₃ = .ok (_, u₃) := Store.load_eq hprocess₀ hx₃
  rw [bind_eq h₂, bind_eq h₃, bind_eq hload₃]
  have hlast₃ : u₃.procs c.previous ≠ none := by
    rw [hu₃, hu₂, hu₁]
    exact update_ne_none (update_ne_none (update_ne_none hlast))
  obtain ⟨y, hy⟩ := Option.ne_none_iff_exists'.mp hlast₃
  exact ⟨_, Store.modify_eq hlast₀ hy⟩

/-- With its task, the process can be linked in. -/
theorem Preparing.linksIn {privileged : Bool} {entryPoint esp task : Word} {v : Kernel}
    (hring : LinkRing s.nextTask s.prevTask s.currentTask l) (hsys : s.systemProcess = some sys)
    (hprocs : LinkRing s.nextProc s.prevProc sys ps) (hsystem : s.image.systemTask ≠ 0)
    (hnull : ∀ p ∈ sys :: ps, p ≠ 0) (hprep : Preparing s u process x)
    (htask : taskNew process privileged entryPoint esp u = .ok (task, v)) (hne : task ≠ 0) :
    ∃ w t, procs.modify process (Process.setTask task) v = .ok ((), w) ∧
      processListInsert process w = .ok ((), t) := by
  obtain ⟨ha, -, -, -, hv, hvsys⟩ := hprep.started hring hsys htask hne
  have himage : v.image = s.image := by rw [ha.rest, hprep.rest]
  have hx : v.procs process = some x := by rw [hv, Function.update_self]
  obtain ⟨w, hset, hwprocs, hw⟩ : ∃ w, procs.modify process (Process.setTask task) v = .ok ((), w) ∧
      w.procs = Function.update v.procs process (some (x.setTask task)) ∧
      w.image = v.image ∧ w.systemProcess = v.systemProcess :=
    ⟨_, Store.modify_eq hprep.ne_null hx, rfl, rfl, rfl⟩
  have hold : ∀ a, a ≠ process → w.procs a = s.procs a := by
    intro a ha
    rw [hwprocs, Function.update_of_ne ha, hv, Function.update_of_ne ha]
  -- the process is not on the ring yet
  have hmem : ∀ p ∈ sys :: ps, p ≠ process := by
    rintro p hp rfl
    exact ring_proc_ne_none hprocs hp hprep.fresh
  obtain ⟨z, hz, hprev⟩ := hprocs.prev_head
  obtain ⟨c, hc, rfl⟩ := Option.map_eq_some_iff.mp hprev
  have hprocess : w.procs process = some (x.setTask task) := by rw [hwprocs, Function.update_self]
  have hinsert : ∃ t, processListInsert process w = .ok ((), t) := by
    refine processListInsert_returns (hw.2.trans hvsys) ?_ (hnull sys List.mem_cons_self) hprep.ne_null
      (hmem sys List.mem_cons_self).symm hprocess ?_ (hnull _ hz) ?_
    · rw [hw.1, himage]
      exact hsystem
    · exact (hold sys (hmem sys List.mem_cons_self)).trans hc
    · rw [hold _ (hmem _ hz)]
      exact ring_proc_ne_none hprocs hz
  obtain ⟨t, hinsert⟩ := hinsert
  exact ⟨w, t, hset, hinsert⟩

/-- `process_init` creates a process exactly if no check fails. -/
theorem processInit_iff (hring : LinkRing s.nextTask s.prevTask s.currentTask l)
    (hsys : s.systemProcess = some sys) (hprocs : LinkRing s.nextProc s.prevProc sys ps)
    (hsystem : s.image.systemTask ≠ 0) (hnull : ∀ p ∈ sys :: ps, p ≠ 0) :
    (∃ t, processInit name memory size false slot s = .ok (0, t)) ↔
      CreatesTask name memory size slot s := by
  constructor
  · rintro ⟨t, hrun⟩
    obtain ⟨process, stack, s₁, s₂, s₃, s₄, s₅, s₆, halloc, hne, hslot, hset, hkz, hstack, hset', hmap,
      hrun⟩ := processInit_steps hrun
    obtain ⟨_, s₇, hname, hrun⟩ := bind_ok hrun
    obtain ⟨task, s₈, htask, hrun⟩ := bind_ok hrun
    obtain ⟨_, s₉, -, hrun⟩ := bind_ok hrun
    split at hrun
    · cases hrun
    rename_i htask₀
    exact .intro halloc hne hslot hset hkz hstack hset' hmap hname htask htask₀
  · rintro ⟨halloc, hne, hslot, hset, hkz, hstack, hset', hmap, hname, htask, htask₀⟩
    rename_i process stack task s₁ s₂ s₃ s₄ s₅ s₆ s₇ s₈
    have hprep := (((((Preparing.of_alloc halloc hne).of_setProcess hslot).of_modify hset).of_kzalloc
      hkz).of_modify hset')
    obtain ⟨dir, -, -, -, -, -, -, -, hprep', -⟩ := processMapMemory_ok hprep hmap
    obtain ⟨w, t, hset₈, hinsert⟩ :=
      (hprep'.of_modify hname).linksIn hring hsys hprocs hsystem hnull htask htask₀
    have htasked : processInitTask process name false s₆ = .ok (0, t) := by
      rw [processInitTask, bind_eq hname, bind_eq htask, bind_eq hset₈, if_neg htask₀, bind_eq hinsert]
      rfl
    have hstacked : processInitStack process name false s₃ = .ok (0, t) := by
      rw [processInitStack, bind_eq hkz, bind_eq hset', if_neg hstack, bind_eq hmap, if_neg (by simp)]
      exact htasked
    refine ⟨t, ?_⟩
    rw [processInit, bind_eq halloc, bind_eq hslot, if_neg hne, bind_eq hset, bind_eq hstacked]
    rfl

end

/-! ## `processes[]` -/

namespace Kernel

/-- `processes[]` is as before. -/
def SameSlots (s t : Kernel) : Prop := t.processes = s.processes

instance : Std.Refl SameSlots := ⟨fun _ => rfl⟩

instance : Trans SameSlots SameSlots SameSlots where
  trans {s t u} h₁ h₂ := show u.processes = s.processes from
    Eq.trans (show u.processes = t.processes from h₂) h₁

end Kernel

section

variable {s t u : Kernel} {process memory : Word} {name : List Byte} {size slot : Nat}
  {privileged : Bool} {res : Int}

theorem modify_sameSlots (p : Word) (f : Process → Process) : Keeps SameSlots (procs.modify p f) :=
  sameTables_modify.mono fun _ _ h => h.2.2

theorem kzalloc_sameSlots (n : Nat) : Keeps SameSlots (kzalloc n) :=
  (kzalloc_sameNames n).mono fun _ _ h => h.2

theorem kfree_sameSlots (a : Word) : Keeps SameSlots (kfree a) := by
  intro s x t h
  obtain ⟨-, rfl⟩ := kfree_ok h
  rfl

theorem pagingOnly_sameSlots {α : Type} {m : K α} (h : Keeps PagingOnly m) : Keeps SameSlots m :=
  h.mono fun _ _ h => show _ = _ by rw [h.rest]

theorem processMapMemory_sameSlots (process : Word) :
    Keeps SameSlots (processMapMemory process) := by
  refine .bind (keeps_load _) fun p => .ite (keeps_panic _) (.bind .get fun s => ?_)
  refine .bind (pagingOnly_sameSlots (pagingCloneDirectory_frame _)) fun directory => ?_
  refine .bind (modify_sameSlots _ _) fun _ => .bind (keeps_load _) fun p => ?_
  refine .bind (pagingOnly_sameSlots (mapUserRange_frame _ _ _ _)) fun res => .ite (.pure _) ?_
  exact pagingOnly_sameSlots (mapUserRange_frame _ _ _ _)

theorem processInitTask_sameSlots (process : Word) (name : List Byte) (privileged : Bool) :
    Keeps SameSlots (processInitTask process name privileged) := by
  refine .bind (modify_sameSlots _ _) fun _ => ?_
  refine .bind ((taskNew_sameNames _ _ _ _).mono fun _ _ h => h.2) fun task => ?_
  refine .bind (modify_sameSlots _ _) fun _ => .ite (.pure _) ?_
  exact .bind ((processListInsert_sameNames _).mono fun _ _ h => h.2) fun _ => .pure _

theorem processInitStack_sameSlots (process : Word) (name : List Byte) (privileged : Bool) :
    Keeps SameSlots (processInitStack process name privileged) := by
  refine .bind (kzalloc_sameSlots _) fun stack => .bind (modify_sameSlots _ _) fun _ => ?_
  refine .ite (.pure _) (.bind (processMapMemory_sameSlots _) fun res => .ite (.pure _) ?_)
  exact processInitTask_sameSlots _ _ _

theorem processInitOut_sameSlots (process : Word) (res : Int) :
    Keeps SameSlots (processInitOut process res) := by
  refine .ite (.bind ?_ fun _ => .pure _) (.pure _)
  refine .bind (keeps_load _) fun p => .bind (.ite (kfree_sameSlots _) (.pure _)) fun _ => ?_
  refine .bind (keeps_load _) fun p => .bind (.ite (kfree_sameSlots _) (.pure _)) fun _ => ?_
  exact kfree_sameSlots _

/-- The slot is written before anything can fail, and is not written again. -/
theorem processInit_slot (hrun : processInit name memory size privileged slot s = .ok (res, t)) :
    t.blocks = s.blocks ∨ t.processes slot ≠ 0 := by
  obtain ⟨process, s₁, halloc, hrun⟩ := bind_ok hrun
  obtain ⟨_, s₂, hslot, hrun⟩ := bind_ok hrun
  split at hrun
  · rename_i hnull
    obtain ⟨-, rfl⟩ := pure_ok hrun
    cases hslot
    rcases Store.alloc_ok halloc with ⟨-, rfl⟩ | ⟨hne, -⟩
    · exact .inl rfl
    · exact absurd hnull hne
  · rename_i hne
    obtain ⟨_, s₃, hset, hrun⟩ := bind_ok hrun
    obtain ⟨res', s₄, hstack, hrun⟩ := bind_ok hrun
    have h₃ : s₃.processes = s₂.processes := modify_sameSlots _ _ hset
    have h₄ : s₄.processes = s₃.processes := processInitStack_sameSlots _ _ _ hstack
    have h₅ : t.processes = s₄.processes := processInitOut_sameSlots _ _ hrun
    cases hslot
    refine .inr ?_
    rw [h₅, h₄, h₃]
    change Function.update s₁.processes slot process slot ≠ 0
    rwa [Function.update_self]

end

/-! ## `process_load` -/

/-- Everything is as it was. -/
structure LeftAlone (s t : Kernel) : Prop where
  processes : t.processes = s.processes
  processRing : t.nextProc = s.nextProc ∧ t.prevProc = s.prevProc
  taskRing : t.nextTask = s.nextTask ∧ t.prevTask = s.prevTask ∧ t.currentTask = s.currentTask
  fileTable : t.fileTable = s.fileTable
  inUse : t.inUse = s.inUse
  /-- No process of `processes[]` was freed. -/
  reachable : ∀ pid, t.procs (t.processes pid) = none → s.procs (s.processes pid) = none

/-- `process_load` returns. It has created a process, or it returns a negative value and leaves
everything alone. -/
def AllOrNothing (fuel : Nat) (filename : List Byte) (s : Kernel) : Prop :=
  ∃ res t, processLoad fuel filename s = .ok (res, t) ∧
    (res = 0 ∧ (∃ slot, s.processes slot = 0 ∧ t.processes slot ≠ 0) ∨ res < 0 ∧ LeftAlone s t)

/-- No check of `process_load_binary` or of `process_init` fails. -/
def NothingFails (fuel : Nat) (filename : List Byte) (slot : Nat) (s : Kernel) : Prop :=
  ∃ memory size u, ReadsWhole fuel filename s memory size u ∧
    CreatesTask filename memory size slot u

section

variable {s u : Kernel} {own : List Block} {created l ps : List Word} {sys : Word}

theorem Retains.tasks_eq (hu : Retains s u own) {a : Word} (ha : s.tasks a ≠ none) :
    u.tasks a = s.tasks a := by
  refine congrArg Cell.task (hu.cells a fun hnew => ha ?_)
  have hvacant : s.vacant a = true := hnew.1
  simp only [vacant, Bool.and_eq_true, Option.isNone_iff_eq_none] at hvacant
  exact hvacant.1.1.1.1.1.1.1.2

theorem Retains.procs_eq (hu : Retains s u own) {a : Word} (ha : s.procs a ≠ none) :
    u.procs a = s.procs a := by
  refine congrArg Cell.proc (hu.cells a fun hnew => ha ?_)
  have hvacant : s.vacant a = true := hnew.1
  simp only [vacant, Bool.and_eq_true, Option.isNone_iff_eq_none] at hvacant
  exact hvacant.1.1.1.1.1.1.2

/-- The rings are not touched. -/
theorem Retains.taskRing (hu : Retains s u own)
    (hring : LinkRing s.nextTask s.prevTask s.currentTask l) :
    LinkRing u.nextTask u.prevTask u.currentTask l := by
  have hsame : ∀ a ∈ s.currentTask :: l, u.tasks a = s.tasks a :=
    fun a ha => hu.tasks_eq (ring_task_ne_none hring ha)
  rw [hu.currentTask_eq]
  exact hring.transport (fun a ha => congrArg (Option.map Task.next) (hsame a ha))
    fun a ha => congrArg (Option.map Task.previous) (hsame a ha)

theorem Retains.procRing (hu : Retains s u own) (hring : LinkRing s.nextProc s.prevProc sys l) :
    LinkRing u.nextProc u.prevProc sys l := by
  have hsame : ∀ a ∈ sys :: l, u.procs a = s.procs a :=
    fun a ha => hu.procs_eq (ring_proc_ne_none hring ha)
  exact hring.transport (fun a ha => congrArg (Option.map Process.next) (hsame a ha))
    fun a ha => congrArg (Option.map Process.previous) (hsame a ha)

theorem Retains.systemProcess_eq (hu : Retains s u own) (hsys : s.systemProcess = some sys) :
    u.systemProcess = some sys := by
  have hne : s.tasks s.image.systemTask ≠ none := by
    intro hnone
    rw [Kernel.systemProcess, hnone] at hsys
    cases hsys
  rw [Kernel.systemProcess, hu.image_eq]
  change Option.map Task.process (u.tasks s.image.systemTask) = _
  rw [hu.tasks_eq hne]
  exact hsys

theorem Retains.inUse_lt {memory : Word} {size : Nat} (hu : Retains s u [⟨memory, size⟩])
    (hsize : 0 < size) : s.inUse < u.inUse := by
  have hsum : u.inUse = sizeToNblocks size + s.inUse := (hu.blocks.map _).sum_nat
  have := sizeToNblocks_pos hsize
  omega

/-- With a free slot, `process_load` is all or nothing exactly if nothing fails. No failure is undone:
`process_load_binary` faults after each of its own, and `process_init` leaves its slot written or the
bytes of the file allocated. -/
theorem all_or_nothing_iff {fuel : Nat} {filename : List Byte} (hok : s.HeapOk)
    (hdisk : s.image.disk ≠ 0) (hsystem : s.image.systemTask ≠ 0) (hrings : s.Rings created) :
    AllOrNothing fuel filename s ↔
      ∀ slot, findFreeSlot s.processes MAX_PROCESSES 0 = some slot →
        NothingFails fuel filename slot s := by
  obtain ⟨l, hring, -⟩ := hrings.tasks
  obtain ⟨sys, ps, rfl, hsys, hprocs⟩ := hrings.procs
  have hinit : ∀ {memory size slot u}, ReadsWhole fuel filename s memory size u →
      ((∃ t, processInit filename memory size false slot u = .ok (0, t)) ↔
        CreatesTask filename memory size slot u) := by
    intro memory size slot u hread
    obtain ⟨hholds, -⟩ := hread.holds hok hdisk
    exact processInit_iff (hholds.taskRing hring) (hholds.systemProcess_eq hsys)
      (hholds.procRing hprocs) (hholds.image_eq ▸ hsystem) hrings.ne_null
  constructor
  · rintro ⟨res, t, hrun, hres⟩ slot hfree
    have hslot := (findFreeSlot_some hfree).2.2
    replace hrun := bind_get_ok hrun
    rw [hfree] at hrun
    obtain ⟨⟨res', memory, size⟩, u, hbinary, hrun⟩ := bind_ok hrun
    obtain ⟨-, hread⟩ := (processLoadBinary_iff hok hdisk).mp hbinary
    refine ⟨memory, size, u, hread, (hinit hread).mp ?_⟩
    obtain ⟨rfl, -⟩ | ⟨-, hleft⟩ := hres
    · exact ⟨t, hrun⟩
    · -- a negative value: a process is reachable, or memory is lost
      exfalso
      obtain ⟨hholds, hsize⟩ := hread.holds hok hdisk
      rcases processInit_slot hrun with hblocks | hne
      · have hsame : t.inUse = u.inUse := by rw [Kernel.inUse, Kernel.inUse, hblocks]
        have hlt := hholds.inUse_lt hsize
        have hinUse := hleft.inUse
        omega
      · rw [hleft.processes] at hne
        exact hne hslot
  · intro hall
    cases hfree : findFreeSlot s.processes MAX_PROCESSES 0 with
    | none =>
      refine ⟨-ENOMEM, s, ?_, .inr ⟨by decide, ?_⟩⟩
      · rw [processLoad, bind_get_eq, hfree]
        rfl
      · exact ⟨rfl, ⟨rfl, rfl⟩, ⟨rfl, rfl, rfl⟩, rfl, rfl, fun _ => id⟩
    | some slot =>
      obtain ⟨memory, size, u, hread, hcreates⟩ := hall slot hfree
      obtain ⟨hholds, -⟩ := hread.holds hok hdisk
      obtain ⟨t, hrun⟩ := (hinit hread).mpr hcreates
      have hbinary := (processLoadBinary_iff hok hdisk).mpr ⟨rfl, hread⟩
      refine ⟨0, t, ?_, .inl ⟨rfl, slot, (findFreeSlot_some hfree).2.2, ?_⟩⟩
      · rw [processLoad, bind_get_eq, hfree]
        exact (bind_eq hbinary).trans hrun
      · obtain ⟨process, task, x, hc⟩ := processInit_ok (hholds.taskRing hring)
          (hholds.systemProcess_eq hsys) (hholds.procRing hprocs) hrun
        rw [hc.processes, Function.update_self]
        exact hc.ne_null

end

/-- Every file that `fopen` does not find ends in a fault. -/
theorem processLoad_missing {s u : Kernel} {fuel slot : Nat} {filename : List Byte}
    (hfree : findFreeSlot s.processes MAX_PROCESSES 0 = some slot)
    (hopen : fopen fuel filename (ascii "r") s = .ok (0, u)) :
    processLoad fuel filename s = .error .nullDeref := by
  have hclose : processLoadBinary fuel filename s = .error .nullDeref := by
    rw [processLoadBinary, bind_eq hopen]
    rfl
  rw [processLoad, bind_get_eq, hfree]
  simp only [Bind.bind, StateT.bind, Except.bind, hclose]

/-! The kernel of `programKernel`: its program, and a file that does not exist. -/

theorem programKernel_heap : programKernel.HeapOk := by
  have h : (∀ b ∈ programKernel.blocks, 0 < b.size) ∧ (programKernel.blocks.map Block.ptr).Nodup := by
    decide +kernel
  exact ⟨h.1, h.2⟩

theorem programKernel_rings : programKernel.Rings [0xC0200000, 0xC0210000] := by
  have h : (initSystemProcess kernelExample).toOption.map Prod.fst = some () ∧
      (taskingInit kernelExample).toOption.map Prod.fst = some () ∧
      (kernelExample.after initSystemProcess).processes 0 = 0xC0200000 ∧
      twoTasks.processes 1 = 0xC0210000 ∧
      (twoTasks.procs (twoTasks.processes 1)).map Process.task ≠ some 0 := by decide +kernel
  obtain ⟨h₁, h₂, hsystem, hidle, htask⟩ := h
  replace h₁ := after_of_ok h₁
  replace h₂ : taskingInit kernelExample = .ok ((), twoTasks) := after_of_ok h₂
  rw [taskingInit, bind_eq h₁] at h₂
  have hrun := Runs.cons (Session.Step.system (s := ⟨kernelExample, []⟩) rfl h₁)
    (.cons (.idle rfl h₂ htask) (.nil _))
  have hrings := Session.runs_rings rfl (fun _ => rfl) hrun (by simp)
  rw [List.singleton_append, hsystem, hidle] at hrings
  exact hrings.congr rfl

theorem all_or_nothing_iff_programKernel : AllOrNothing 10 (ascii "0:/A") programKernel ∧
    findFreeSlot programKernel.processes MAX_PROCESSES 0 = some 2 ∧
    NothingFails 10 (ascii "0:/A") 2 programKernel := by
  have h : (processLoad 10 (ascii "0:/A") programKernel).toOption.map
        (fun r => (r.1, r.2.processes 2 == 0)) = some (0, false) ∧
      findFreeSlot programKernel.processes MAX_PROCESSES 0 = some 2 ∧
      programKernel.processes 2 = 0 := by decide +kernel
  obtain ⟨hload, hfree, hslot⟩ := h
  obtain ⟨⟨res, t⟩, hrun, hres⟩ := Option.map_eq_some_iff.mp hload
  simp only [Prod.mk.injEq, beq_eq_false_iff_ne] at hres
  obtain ⟨rfl, hne⟩ := hres
  have hall : AllOrNothing 10 (ascii "0:/A") programKernel :=
    ⟨0, t, ok_of_toOption hrun, .inl ⟨rfl, 2, hslot, hne⟩⟩
  exact ⟨hall, hfree, (all_or_nothing_iff programKernel_heap (by decide) (by decide)
    programKernel_rings).mp hall 2 hfree⟩

/-- `fopen` returns NULL, and `process_load_binary` closes it. -/
theorem missing_program_faults : programKernel.HeapOk ∧ programKernel.Rings [0xC0200000, 0xC0210000] ∧
    (fopen 10 (ascii "0:/B") (ascii "r") programKernel).toOption.map Prod.fst = some 0 ∧
    processLoad 10 (ascii "0:/B") programKernel = .error .nullDeref ∧
    ¬ AllOrNothing 10 (ascii "0:/B") programKernel := by
  have h : findFreeSlot programKernel.processes MAX_PROCESSES 0 = some 2 ∧
      (fopen 10 (ascii "0:/B") (ascii "r") programKernel).toOption.map Prod.fst = some 0 := by
    decide +kernel
  obtain ⟨hfree, hopen⟩ := h
  have hfault := processLoad_missing hfree (after_of_ok hopen)
  refine ⟨programKernel_heap, programKernel_rings, hopen, hfault, ?_⟩
  rintro ⟨res, t, hrun, -⟩
  rw [hfault] at hrun
  cases hrun

end AvocadOS
