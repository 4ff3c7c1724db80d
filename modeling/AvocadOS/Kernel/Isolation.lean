import AvocadOS.Kernel.Boot
import AvocadOS.Kernel.Clone
import AvocadOS.Kernel.Rings

/-!
# The address spaces of processes

A process gets a copy of the kernel's directory, with page tables of its own for its program and its
stack; nothing that an earlier directory uses is written.

* `mapUserRange_ok`: one range of a process;
* `processInit_space`: the page tables of a new process;
* `Session.runs_isolated`: what its directory translates, after any run, and that no other directory
  translates anything differently.
-/

namespace AvocadOS

open Kernel

/-- What `virtual_to_physical_addr` returns. -/
def Kernel.translation (s : Kernel) (h va : Word) : Except Fault Word :=
  (virtualToPhysicalAddr h va s).map Prod.fst

section

variable {P : Word → Prop} {U : Nat → Prop} {s s₀ t : Kernel} {h va p : Word}
  {hd : PageDirectoryHandle} {dir : Nat → Word}

/-! ## Translations -/

theorem translation_ok (hv : virtualToPhysicalAddr h va s = .ok (p, t)) :
    s.translation h va = .ok p := by
  rw [Kernel.translation, hv]
  rfl

theorem ok_of_translation (hv : s.translation h va = .ok p) :
    virtualToPhysicalAddr h va s = .ok (p, s) := by
  rw [Kernel.translation] at hv
  cases hr : virtualToPhysicalAddr h va s with
  | error e =>
    rw [hr] at hv
    cases hv
  | ok r =>
    obtain ⟨q, u⟩ := r
    rw [hr] at hv
    cases hv
    rw [virtualToPhysicalAddr_state hr]

theorem Extends.trans {u : Kernel} (h₁ : Extends s t) (h₂ : Extends t u) : Extends s u :=
  ⟨fun a x hx => h₂.tables a x (h₁.tables a x hx), fun a x hx => h₂.handles a x (h₁.handles a x hx)⟩

theorem Extends.of_eq (htables : t.tables = s.tables) (hhandles : t.handles = s.handles) :
    Extends s t :=
  ⟨fun a x hx => by rw [htables, hx], fun a x hx => by rw [hhandles, hx]⟩

/-- A directory stays what it is when others are added. -/
theorem DirInv.extend (hinv : DirInv P s h hd dir) (hkept : Extends s t) :
    DirInv P t h hd dir ∧ t.space h = s.space h := by
  have hsame : ∀ i < 1024, hd.directoryVirtual i ≠ 0 →
      t.tables (hd.directoryVirtual i) = s.tables (hd.directoryVirtual i) := by
    intro i hi hv
    obtain ⟨x, hx⟩ := Option.ne_none_iff_exists'.mp (hinv.tables i hi hv)
    rw [hx, hkept.tables _ _ hx]
  have hinv' : DirInv P t h hd dir := { hinv with
    handle := hkept.handles _ _ hinv.handle
    directory := hkept.tables _ _ hinv.directory
    tables := fun i hi hv => by
      rw [hsame i hi hv]
      exact hinv.tables i hi hv }
  refine ⟨hinv', ?_⟩
  funext i
  by_cases hi : i < 1023
  · rw [hinv'.space_eq hi, hinv.space_eq hi]
    split
    · rfl
    · exact hsame i (by omega) ‹_›
  · rw [Kernel.space, if_neg hi, Kernel.space, if_neg hi]

/-- Two directories with the same page table for an address translate it to the same. -/
theorem DirInv.translation_eq {Q : Word → Prop} {h' : Word} {hd' : PageDirectoryHandle}
    {dir' : Nat → Word} (hinv : DirInv P s h hd dir) (hinv' : DirInv Q t h' hd' dir')
    (hi : va.toNat / 4096 / 1024 < 1023)
    (hspace : t.space h' (va.toNat / 4096 / 1024) = s.space h (va.toNat / 4096 / 1024)) :
    t.translation h' va = s.translation h va := by
  have hentry : t.entryAt h' va = s.entryAt h va := by
    rw [Kernel.entryAt, Kernel.entryAt, TwoLevel.get, hspace]
    rfl
  rw [Kernel.translation, hinv'.translate_eq hi, Kernel.translation, hinv.translate_eq hi, hentry]
  cases s.entryAt h va <;> rfl

/-- And so nothing is translated differently then. -/
theorem DirInv.translation_extend (hinv : DirInv P s h hd dir) (hkept : Extends s t) :
    t.translation h va = s.translation h va := by
  obtain ⟨hinv', hspace⟩ := hinv.extend hkept
  by_cases hi : va.toNat / 4096 / 1024 < 1023
  · exact hinv.translation_eq hinv' hi (by rw [hspace])
  · have hlast : va.toNat / 4096 / 1024 = 1023 := by
      have := dirIndex_lt va
      omega
    rw [Kernel.translation, hinv'.translate_last hlast, Kernel.translation,
      hinv.translate_last hlast]
    rfl

theorem DirInv.mono {Q : Word → Prop} (hinv : DirInv P s h hd dir) (hPQ : ∀ a, P a → Q a) :
    DirInv Q s h hd dir :=
  { hinv with
    present := fun i hi hv => by
      obtain ⟨phys, flags, hP, hrest⟩ := hinv.present i hi hv
      exact ⟨phys, flags, hPQ _ hP, hrest⟩ }

theorem Builds.congr (hb : Builds P U s₀ s h hd dir) (htables : t.tables = s.tables)
    (hhandles : t.handles = s.handles) (hcur : t.currentDirectory = s.currentDirectory)
    (hcr4 : t.cr4 = s.cr4) : Builds P U s₀ t h hd dir ∧ t.space h = s.space h := by
  obtain ⟨hinv, hspace⟩ := hb.inv.congr hhandles htables
  exact ⟨⟨hinv, hb.kept.trans (.of_eq htables hhandles), hb.owned, hcur.trans hb.current,
    hcr4.trans hb.cr4⟩, hspace⟩

/-! ## One range -/

/-- The number of pages of `size` bytes. -/
def pages (size : Nat) : Nat := (size + 4095) / 4096

theorem mapUserRange_count {size : Nat} (hsize : size ≤ KERNEL_HEAP_SIZE) (hp : p &&& 0xfff = 0)
    (hle : p ≤ pagingAlignAddress (p + BitVec.ofNat 32 size)) :
    pages size = (pagingAlignAddress (p + BitVec.ofNat 32 size) - p).toNat / 4096 := by
  have hplt := p.isLt
  have hsize' : size ≤ 0x1000000 := hsize
  have halign := aligned_iff_mod.mp hp
  have hsum : (p + BitVec.ofNat 32 size).toNat = (p.toNat + size) % 2 ^ 32 := by
    rw [BitVec.toNat_add, BitVec.toNat_ofNat]
    omega
  have hq : (pagingAlignAddress (p + BitVec.ofNat 32 size)).toNat =
      4096 * (((p.toNat + size) % 2 ^ 32 + 4095) % 2 ^ 32 / 4096) % 2 ^ 32 := by
    rw [pagingAlignAddress, BitVec.toNat_mul, BitVec.toNat_udiv, BitVec.toNat_add, hsum]
    rfl
  have hle' : p.toNat ≤ (pagingAlignAddress (p + BitVec.ofNat 32 size)).toNat := hle
  rw [BitVec.toNat_sub, hq, pages]
  rw [hq] at hle'
  omega

theorem mapUserRange_ok {ptr : Word} {size : Nat} (hP : Physical P s₀)
    (hb : Builds P U s₀ s h hd dir) (hsize : size ≤ KERNEL_HEAP_SIZE)
    (hend : va.toNat / 4096 + pages size ≤ 1023 * 1024)
    (hU : ∀ k < pages size, U ((va.toNat / 4096 + k) / 1024))
    (hrun : mapUserRange h va ptr size s = .ok (0, t)) :
    ∃ phys, s.translation s₀.currentDirectory ptr = .ok phys ∧ phys &&& 0xfff = 0 ∧
      (∃ hd' dir', Builds P U s₀ t h hd' dir') ∧
      t.space h = (s.space h).setRange 1024 0 (va.toNat / 4096) (frames phys 7) (pages size) := by
  obtain ⟨phys, m, hphys, hmap⟩ := bind_ok (bind_get_ok hrun)
  obtain rfl := virtualToPhysicalAddr_state hphys
  obtain ⟨-, halign, -⟩ := pagingMapFromTo_parts hmap
  obtain ⟨⟨hd', dir', hb', -⟩, hspace⟩ := pagingMapFromTo_ok hP (.inr rfl) hb
    (mapUserRange_count hsize) hend hU hmap
  exact ⟨phys, hb.current ▸ translation_ok hphys, halign, ⟨hd', dir', hb'⟩, hspace⟩

/-- A range of frames translates byte by byte. -/
theorem DirInv.translation_frames {k : Nat} {base : Word} (hinv : DirInv P s h hd dir)
    (hp : p &&& 0xfff = 0) (hbase : base.toNat % 4096 = 0)
    (hend : base.toNat + k < 1023 * 0x400000)
    (hentry : (s.space h).get 1024 (base.toNat / 4096 + k / 4096) = some (frames p 7 (k / 4096))) :
    s.translation h (base + BitVec.ofNat 32 k) = .ok (p + BitVec.ofNat 32 k) := by
  have hva : (base + BitVec.ofNat 32 k).toNat = base.toNat + k :=
    toNat_add_ofNat (n := k + 1) (by omega) (Nat.lt_succ_self k)
  have hpage : (base + BitVec.ofNat 32 k).toNat / 4096 = base.toNat / 4096 + k / 4096 := by omega
  have hframe : (p + BitVec.ofNat 32 (4096 * (k / 4096))) &&& 0xfff = 0 := by
    have := aligned_iff_mod.mp hp
    rw [aligned_iff_mod, BitVec.toNat_add, BitVec.toNat_ofNat]
    omega
  rw [Kernel.translation, hinv.translate_eq (by omega), Kernel.entryAt, hpage, hentry]
  simp only [frames]
  rw [pageEntryAddr_or hframe (by decide)]
  refine congrArg Except.ok ?_
  apply BitVec.eq_of_toNat_eq
  rw [BitVec.toNat_add, BitVec.toNat_add, vAddrPageframeIndex, and_fff_toNat, hva, BitVec.toNat_ofNat,
    BitVec.toNat_add, BitVec.toNat_ofNat]
  omega

/-- All addresses of a page are translated by one entry. -/
theorem DirInv.translation_page (hinv : DirInv P s h hd dir) (n : Nat) :
    ∃ o : Option Word, ∀ va : Word, va.toNat / 4096 = n → s.translation h va = match o with
      | none => .error .nullDeref
      | some e => .ok (pageEntryAddr e + vAddrPageframeIndex va) := by
  by_cases hi : n / 1024 < 1023
  · refine ⟨(s.space h).get 1024 n, ?_⟩
    rintro va rfl
    rw [Kernel.translation, hinv.translate_eq hi, Kernel.entryAt]
    cases (s.space h).get 1024 (va.toNat / 4096) <;> rfl
  · refine ⟨some (dir (n % 1024)), ?_⟩
    rintro va rfl
    have := dirIndex_lt va
    rw [Kernel.translation, hinv.translate_last (by omega)]
    rfl

/-- A page is contiguous. -/
theorem DirInv.translation_add (hinv : DirInv P s h hd dir) (hp : p &&& 0xfff = 0)
    (hva : s.translation h va = .ok p) {k : Nat} (hk : k < 4096) :
    s.translation h (va + BitVec.ofNat 32 k) = .ok (p + BitVec.ofNat 32 k) := by
  obtain ⟨o, ho⟩ := hinv.translation_page (va.toNat / 4096)
  have h₀ := ho va rfl
  rw [hva] at h₀
  cases o with
  | none => cases h₀
  | some e =>
    obtain rfl : p = pageEntryAddr e + vAddrPageframeIndex va := Except.ok.inj h₀
    have hlt := va.isLt
    have he := aligned_iff_mod.mp (pageEntryAddr_aligned e)
    -- the frame and the sum are pages, and so is the address
    have halign : va.toNat % 4096 = 0 := by
      have := aligned_iff_mod.mp hp
      rw [BitVec.toNat_add, vAddrPageframeIndex, and_fff_toNat] at this
      omega
    have hadd : (va + BitVec.ofNat 32 k).toNat = va.toNat + k := by
      rw [BitVec.toNat_add, BitVec.toNat_ofNat]
      omega
    rw [ho (va + BitVec.ofNat 32 k) (by omega)]
    refine congrArg Except.ok ?_
    apply BitVec.eq_of_toNat_eq
    simp only [BitVec.toNat_add, vAddrPageframeIndex, and_fff_toNat, BitVec.toNat_ofNat]
    omega

end

/-! ## A new process -/

/-- The kernel runs on its own directory, which has no page tables where programs are. -/
structure Kernel.OnKernel (s : Kernel) : Prop where
  current : s.currentDirectory = s.image.kernelPageDirectory
  directory : ∃ hd dir, DirInv (fun _ => True) s s.image.kernelPageDirectory hd dir
  user : ∀ i, 1 ≤ i → i ≤ 16 → s.space s.image.kernelPageDirectory i = none

/-- The page tables of a process: those of the kernel, and the two ranges. -/
structure ProcessSpace (s t : Kernel) (d memory stack : Word) (size : Nat) : Prop where
  kept : Extends s t
  directory : ∃ hd dir, DirInv (fun _ => True) t d hd dir
  space : ∃ phys phys', phys &&& 0xfff = 0 ∧ phys' &&& 0xfff = 0 ∧
    s.translation s.image.kernelPageDirectory memory = .ok phys ∧
    s.translation s.image.kernelPageDirectory stack = .ok phys' ∧
    t.space d = ((s.space s.image.kernelPageDirectory).setRange 1024 0 1024 (frames phys 7)
      (pages size)).setRange 1024 0 16384 (frames phys' 7) 1

section

variable {s t u : Kernel} {process : Word} {x : Process}

theorem processMapMemory_space (hon : s.OnKernel) (hprep : Preparing s u process x)
    (htables : u.tables = s.tables) (hhandles : u.handles = s.handles)
    (hsize : x.memorySize ≤ KERNEL_HEAP_SIZE) (h : processMapMemory process u = .ok (0, t)) :
    ∃ d, Preparing s t process (x.setPageDirectory d) ∧ t.processes = u.processes ∧
      ProcessSpace s t d x.memory x.stack x.memorySize := by
  obtain ⟨d, v, w, -, hclone, hcode, hstack, hv, ht, hslots⟩ := processMapMemory_ok hprep h
  refine ⟨d, ht, hslots, ?_⟩
  obtain ⟨hd, dir, hk⟩ := hon.directory
  have himage : u.image = s.image := by rw [hprep.rest]
  have hcurrent : u.currentDirectory = s.image.kernelPageDirectory := by rw [← hon.current, hprep.rest]
  obtain ⟨hku, hspaceu⟩ := hk.congr hhandles htables
  rw [himage] at hclone
  have hP : Physical (fun _ => True) u := fun _ _ _ _ _ _ _ _ => trivial
  obtain ⟨⟨hd₁, dir₁, hb₁⟩, hspace₁⟩ := pagingCloneDirectory_ok hku (by rw [himage]) hP hclone
  rw [hspaceu] at hspace₁
  -- the entries of the two ranges are not the kernel's
  have hfree : ∀ i, 1 ≤ i → i ≤ 16 → hd.directoryVirtual i = 0 := by
    intro i h₁ h₂
    have hnone := hon.user i h₁ h₂
    rw [hk.space_eq (by omega)] at hnone
    by_contra hv
    rw [if_neg hv] at hnone
    exact hk.tables i (by omega) hv hnone
  have hpages : pages x.memorySize ≤ 4096 := by
    have : x.memorySize ≤ 0x1000000 := hsize
    rw [pages]
    omega
  obtain ⟨hb₂, hspace₂⟩ := @Builds.congr _ _ v u
    { v with procs := Function.update v.procs process (some (x.setPageDirectory d)) } d _ _ hb₁ rfl
    rfl rfl rfl
  have hbase : PROGRAM_BASE_VIRT_ADDR.toNat / 4096 = 1024 := by decide
  have htop : PROGRAM_STACK_TOP_VIRT_ADDR.toNat / 4096 = 16384 := by decide
  have hone : pages PROGRAM_STACK_SIZE = 1 := by decide
  obtain ⟨phys, htrans, halign, ⟨hd₃, dir₃, hb₃⟩, hspace₃⟩ := mapUserRange_ok hP hb₂ hsize
    (by rw [hbase]; omega) (fun k hk => hfree _ (by omega) (by omega)) hcode
  obtain ⟨phys', htrans', halign', ⟨hd₄, dir₄, hb₄⟩, hspace₄⟩ := mapUserRange_ok hP hb₃
    (by decide) (by rw [htop]; decide)
    (fun k hk => hfree _ (by omega) (by rw [hone] at hk; omega)) hstack
  have hkept : Extends s t := (Extends.of_eq htables hhandles).trans hb₄.kept
  refine ⟨hkept, ⟨hd₄, dir₄, hb₄.inv⟩, phys, phys', halign, halign', ?_, ?_, ?_⟩
  · rw [hcurrent] at htrans
    exact (hk.translation_extend ((Extends.of_eq htables hhandles).trans hb₂.kept)).symm.trans htrans
  · rw [hcurrent] at htrans'
    exact (hk.translation_extend ((Extends.of_eq htables hhandles).trans hb₃.kept)).symm.trans htrans'
  · rw [hspace₄, hspace₃, hspace₂, hspace₁, hbase, htop]
    rfl

theorem processInit_space {name : List Byte} {memory sys : Word} {memorySize slot : Nat}
    {privileged : Bool} {l ps : List Word} (hon : s.OnKernel)
    (hring : LinkRing s.nextTask s.prevTask s.currentTask l)
    (hsys : s.systemProcess = some sys) (hprocs : LinkRing s.nextProc s.prevProc sys ps)
    (hsize : memorySize ≤ KERNEL_HEAP_SIZE)
    (h : processInit name memory memorySize privileged slot s = .ok (0, t)) :
    ∃ process task x, Created s t slot sys l ps process task x ∧ x.memory = memory ∧
      x.memorySize = memorySize ∧ ProcessSpace s t x.pageDirectory memory x.stack memorySize := by
  obtain ⟨process, stack, u, v, -, hprep, hslot, htables, hhandles, hmap, htask⟩ :=
    processInit_parts h
  obtain ⟨d, hprep', hslot', hspace⟩ :=
    processMapMemory_space hon hprep htables hhandles hsize hmap
  obtain ⟨htables', hhandles', task, hc⟩ :=
    processInitTask_ok hring hsys hprocs hprep' htask rfl (hslot'.trans hslot)
  refine ⟨process, task, _, hc, rfl, rfl, hspace.kept.trans (.of_eq htables' hhandles'), ?_, ?_⟩
  · obtain ⟨hd, dir, hinv⟩ := hspace.directory
    exact ⟨hd, dir, (hinv.congr hhandles' htables').1⟩
  · obtain ⟨hd, dir, hinv⟩ := hspace.directory
    obtain ⟨phys, phys', h₁, h₂, h₃, h₄, hspace'⟩ := hspace.space
    exact ⟨phys, phys', h₁, h₂, h₃, h₄, (hinv.congr hhandles' htables').2.trans hspace'⟩

end

/-! ## What the directories translate -/

/-- The directory has an entry for the address. -/
def Kernel.HasEntry (s : Kernel) (h va : Word) : Prop :=
  ∃ hd dir, s.handles h = some hd ∧ s.tables hd.directory = some dir ∧ dir (vAddrPagedirIndex va) ≠ 0

/-- `process->page_directory`. -/
def Kernel.directoryOf (s : Kernel) (process : Word) : Word :=
  (s.procs process).elim 0 Process.pageDirectory

/-- The memory is contiguous under the kernel's mapping. -/
def Kernel.Contiguous (s : Kernel) (memory : Word) (size : Nat) : Prop :=
  ∃ phys, ∀ k < size, s.translation s.image.kernelPageDirectory (memory + BitVec.ofNat 32 k) =
    .ok (phys + BitVec.ofNat 32 k)

/-- The process `y` was created on the way from `s` to `t`, where `created` are the earlier ones. -/
structure Isolated (s t : Kernel) (created : List Word) (y : Process) : Prop where
  program : ∀ k < y.memorySize, ∃ phys,
    t.translation t.image.kernelPageDirectory (y.memory + BitVec.ofNat 32 k) = .ok phys ∧
    t.translation y.pageDirectory (PROGRAM_BASE_VIRT_ADDR + BitVec.ofNat 32 k) = .ok phys
  stack : ∀ k < PROGRAM_STACK_SIZE, ∃ phys,
    t.translation t.image.kernelPageDirectory (y.stack + BitVec.ofNat 32 k) = .ok phys ∧
    t.translation y.pageDirectory (PROGRAM_STACK_TOP_VIRT_ADDR + BitVec.ofNat 32 k) = .ok phys
  shared : ∀ va, vAddrPagedirIndex va < 1023 → t.HasEntry t.image.kernelPageDirectory va →
    t.translation y.pageDirectory va = t.translation t.image.kernelPageDirectory va
  kernel : t.image.kernelPageDirectory = s.image.kernelPageDirectory ∧ ∀ va,
    t.translation s.image.kernelPageDirectory va = s.translation s.image.kernelPageDirectory va
  earlier : ∀ p ∈ created, t.directoryOf p = s.directoryOf p ∧ ∀ va,
    t.translation (s.directoryOf p) va = s.translation (s.directoryOf p) va

section

variable {s t : Kernel} {memory stack : Word} {size : Nat} {d : Word}

theorem Kernel.OnKernel.extend (hon : s.OnKernel) (hkept : Extends s t) (himage : t.image = s.image)
    (hcur : t.currentDirectory = s.currentDirectory) : t.OnKernel := by
  obtain ⟨hd, dir, hk⟩ := hon.directory
  obtain ⟨hk', hspace⟩ := hk.extend hkept
  refine ⟨by rw [hcur, himage, hon.current], ⟨hd, dir, himage ▸ hk'⟩, fun i h₁ h₂ => ?_⟩
  rw [himage, hspace]
  exact hon.user i h₁ h₂

theorem ProcessSpace.translates_program (h : ProcessSpace s t d memory stack size) (hon : s.OnKernel)
    (himage : t.image = s.image) (hsize : size ≤ KERNEL_HEAP_SIZE) (hmem : s.Contiguous memory size)
    {k : Nat} (hk : k < size) : ∃ phys,
      t.translation t.image.kernelPageDirectory (memory + BitVec.ofNat 32 k) = .ok phys ∧
      t.translation d (PROGRAM_BASE_VIRT_ADDR + BitVec.ofNat 32 k) = .ok phys := by
  obtain ⟨hd, dir, hker⟩ := hon.directory
  obtain ⟨hd', dir', hinv⟩ := h.directory
  obtain ⟨phys, phys', halign, -, hphys, -, hspace⟩ := h.space
  obtain ⟨q, hq⟩ := hmem
  -- the frame of the first byte is where the range begins
  obtain rfl : phys = q := by
    have h₀ := hq 0 (by omega)
    simp only [BitVec.add_zero] at h₀
    exact Except.ok.inj (hphys.symm.trans h₀)
  have hsize' : size ≤ 0x1000000 := hsize
  have hbase : PROGRAM_BASE_VIRT_ADDR.toNat = 0x400000 := by decide
  refine ⟨phys + BitVec.ofNat 32 k, ?_, hinv.translation_frames halign (by rw [hbase]) ?_ ?_⟩
  · rw [himage, hker.translation_extend h.kept]
    exact hq k hk
  · rw [hbase]
    omega
  · rw [hspace, hbase]
    refine TwoLevel.get_setRange_frame (.inl (by omega)) (TwoLevel.get_setRange ?_)
    rw [pages]
    omega

theorem ProcessSpace.translates_stack (h : ProcessSpace s t d memory stack size) (hon : s.OnKernel)
    (himage : t.image = s.image) {k : Nat} (hk : k < PROGRAM_STACK_SIZE) : ∃ phys,
      t.translation t.image.kernelPageDirectory (stack + BitVec.ofNat 32 k) = .ok phys ∧
      t.translation d (PROGRAM_STACK_TOP_VIRT_ADDR + BitVec.ofNat 32 k) = .ok phys := by
  obtain ⟨hd, dir, hker⟩ := hon.directory
  obtain ⟨hd', dir', hinv⟩ := h.directory
  obtain ⟨phys, phys', -, halign, -, hphys, hspace⟩ := h.space
  have hk' : k < 4096 := hk
  have htop : PROGRAM_STACK_TOP_VIRT_ADDR.toNat = 0x4000000 := by decide
  refine ⟨phys' + BitVec.ofNat 32 k, ?_, hinv.translation_frames halign (by rw [htop]) ?_ ?_⟩
  · rw [himage, hker.translation_extend h.kept]
    exact hker.translation_add halign hphys hk'
  · rw [htop]
    omega
  · rw [hspace, htop]
    exact TwoLevel.get_setRange (by omega)

theorem ProcessSpace.translates_shared (h : ProcessSpace s t d memory stack size) (hon : s.OnKernel)
    (himage : t.image = s.image) (hsize : size ≤ KERNEL_HEAP_SIZE) {va : Word}
    (hva : vAddrPagedirIndex va < 1023) (hentry : t.HasEntry t.image.kernelPageDirectory va) :
    t.translation d va = t.translation t.image.kernelPageDirectory va := by
  obtain ⟨hd, dir, hker⟩ := hon.directory
  obtain ⟨hker', hspacek⟩ := hker.extend h.kept
  obtain ⟨hd', dir', hinv⟩ := h.directory
  obtain ⟨phys, phys', -, -, -, -, hspace⟩ := h.space
  rw [vAddrPagedirIndex_eq] at hva
  rw [himage] at hentry ⊢
  -- the kernel has a page table for the address, so it is in neither range
  obtain ⟨hd₁, dir₁, hhd₁, hdir₁, hne⟩ := hentry
  obtain rfl : hd = hd₁ := Option.some.inj (hker'.handle.symm.trans hhd₁)
  obtain rfl : dir = dir₁ := Option.some.inj (hker'.directory.symm.trans hdir₁)
  rw [vAddrPagedirIndex_eq] at hne
  have hsome : s.space s.image.kernelPageDirectory (va.toNat / 4096 / 1024) ≠ none := by
    have hv : hd.directoryVirtual (va.toNat / 4096 / 1024) ≠ 0 :=
      fun hv => hne (hker.absent _ (by omega) hv)
    rw [hker.space_eq hva, if_neg hv]
    exact hker.tables _ (by omega) hv
  have hrange : ¬ (1 ≤ va.toNat / 4096 / 1024 ∧ va.toNat / 4096 / 1024 ≤ 16) :=
    fun hr => hsome (hon.user _ hr.1 hr.2)
  have hsize' : pages size ≤ 4096 := by
    have : size ≤ 0x1000000 := hsize
    rw [pages]
    omega
  refine hker'.translation_eq hinv hva ?_
  rw [hspace, hspacek, TwoLevel.setRange_block, TwoLevel.setRange_block]
  · intro k hk
    omega
  · intro k hk
    omega

end

/-! ## Runs -/

/-- After `paging_init`. -/
theorem Paged.onKernel {s t : Kernel} (h : Paged s t) : t.OnKernel := by
  have himage : t.image = s.image := by rw [h.rest]
  obtain ⟨hd, dir, hk, -⟩ := h.directory
  refine ⟨by rw [h.rest], ⟨hd, dir, himage ▸ hk.mono fun _ _ => trivial⟩, fun i h₁ h₂ => ?_⟩
  rw [himage, h.space]
  exact kernelSpace_none (by omega) (by omega)

/-- An image is not larger than the heap. -/
def KernelCall.Fits : KernelCall → Prop
  | .create _ _ memorySize _ _ => memorySize ≤ KERNEL_HEAP_SIZE
  | _ => True

/-- The steps of runs in which every image fits. -/
def Session.FitStep (s : Session) (call : KernelCall) (t : Session) : Prop :=
  Step s call t ∧ call.Fits

/-- Every directory is well formed. -/
structure Session.Spaces (s : Session) : Prop where
  inv : s.Inv
  on : s.kernel.OnKernel
  directories : ∀ p ∈ s.created, ∃ hd dir,
    DirInv (fun _ => True) s.kernel (s.kernel.directoryOf p) hd dir

section

variable {s t : Kernel} {slot : Nat} {sys process task : Word} {l ps created : List Word} {x : Process}

theorem ProcessAdded.directoryOf (h : ProcessAdded s t process task x) :
    t.directoryOf process = x.pageDirectory ∧ ∀ a, a ≠ process → t.directoryOf a = s.directoryOf a :=
  h.elim_eq 0 (f := Process.pageDirectory) fun _ => rfl

end

namespace Session

variable {s t : Session} {call : KernelCall}

/-- A creation: the new directory is well formed, and the others are kept. -/
theorem Spaces.created {k : Kernel} {slot : Nat} {sys : Word} {l ps : List Word}
    {process task : Word} {x : Process} {hd : PageDirectoryHandle} {dir : Nat → Word}
    (hs : s.Spaces) (hinv : Inv ⟨k, s.created ++ [k.processes slot]⟩)
    (hc : Created s.kernel k slot sys l ps process task x) (hkept : Extends s.kernel k)
    (hdir : DirInv (fun _ => True) k x.pageDirectory hd dir) (hne : s.created ≠ []) :
    Spaces ⟨k, s.created ++ [k.processes slot]⟩ := by
  have hslot : k.processes slot = process := by rw [hc.processes, Function.update_self]
  obtain ⟨hnew, hold⟩ := hc.toProcessAdded.directoryOf
  refine ⟨hinv, hs.on.extend hkept (by rw [hc.rest]) (by rw [hc.rest]), fun p hp => ?_⟩
  rcases List.mem_append.mp hp with hp | hp
  · have hpne : p ≠ process := by
      rintro rfl
      exact (hs.inv.rings hne).ne_none hp hc.fresh
    obtain ⟨hd', dir', hdir'⟩ := hs.directories p hp
    rw [hold p hpne]
    exact ⟨hd', dir', (hdir'.extend hkept).1⟩
  · rw [List.mem_singleton.mp hp, hslot, hnew]
    exact ⟨hd, dir, hdir⟩

/-- A step that leaves page tables and processes alone. -/
theorem Spaces.same {k : Kernel} (hs : s.Spaces) (hinv : Inv ⟨k, s.created⟩)
    (hprocs : k.procs = s.kernel.procs) (hkept : Extends s.kernel k)
    (himage : k.image = s.kernel.image) (hcur : k.currentDirectory = s.kernel.currentDirectory) :
    Spaces ⟨k, s.created⟩ := by
  refine ⟨hinv, hs.on.extend hkept himage hcur, fun p hp => ?_⟩
  obtain ⟨hd, dir, hdir⟩ := hs.directories p hp
  have : k.directoryOf p = s.kernel.directoryOf p := by
    rw [Kernel.directoryOf, hprocs, Kernel.directoryOf]
  rw [this]
  exact ⟨hd, dir, (hdir.extend hkept).1⟩

/-- What a successful `process_init` in a session does to the page tables. -/
theorem Spaces.create {k : Kernel} {name : List Byte} {memory : Word} {memorySize slot : Nat}
    {privileged : Bool} (hs : s.Spaces) (hne : s.created ≠ []) (hsize : memorySize ≤ KERNEL_HEAP_SIZE)
    (h : processInit name memory memorySize privileged slot s.kernel = .ok (0, k)) :
    ∃ sys l ps process task x, Created s.kernel k slot sys l ps process task x ∧ x.memory = memory ∧
      x.memorySize = memorySize ∧
      ProcessSpace s.kernel k x.pageDirectory memory x.stack memorySize := by
  obtain ⟨l, hring, -⟩ := (hs.inv.rings hne).tasks
  obtain ⟨sys, ps, -, hsys, hprocs⟩ := (hs.inv.rings hne).procs
  obtain ⟨process, task, x, hc⟩ := processInit_space hs.on hring hsys hprocs hsize h
  exact ⟨sys, l, ps, process, task, x, hc⟩

theorem step_spaces (hs : s.Spaces) (h : FitStep s call t) : t.Spaces := by
  obtain ⟨h, hfits⟩ := h
  have hinv := step_inv hs.inv h
  cases h with
  | @system k hfirst h =>
    obtain ⟨process, hc⟩ := initSystemProcess_ok h
    have hrest := hc.rest
    have himage : k.image = s.kernel.image := by rw [hrest]
    have hkept : Extends s.kernel k := .of_eq (by rw [hrest]) (by rw [hrest])
    have hon := hs.on.extend hkept himage (by rw [hrest])
    have hslot : k.processes 0 = process := by
      rw [hrest]
      exact Function.update_self 0 process s.kernel.processes
    obtain ⟨x, hx, -, -, hdir⟩ := hc.process
    refine ⟨hinv, hon, fun p hp => ?_⟩
    obtain rfl := List.mem_singleton.mp hp
    have : k.directoryOf (k.processes 0) = k.image.kernelPageDirectory := by
      simp [Kernel.directoryOf, hslot, hx, hdir, himage]
    change ∃ hd dir, DirInv _ k (k.directoryOf (k.processes 0)) hd dir
    rw [this]
    exact hon.directory
  | @idle k hsecond h htask =>
    have hne : s.created ≠ [] := List.ne_nil_of_length_pos (by omega)
    obtain ⟨l, hring, -⟩ := (hs.inv.rings hne).tasks
    obtain ⟨sys, ps, -, hsys, hprocs⟩ := (hs.inv.rings hne).procs
    obtain ⟨htables, hhandles, process, task, x, hc, hdir⟩ :=
      initIdleProcess_ok hring hsys hprocs h htask
    have hkept : Extends s.kernel k := .of_eq htables hhandles
    have hon := hs.on.extend hkept (by rw [hc.rest]) (by rw [hc.rest])
    obtain ⟨hd, dir, hker⟩ := hs.on.directory
    exact hs.created hinv hc hkept (hdir ▸ (hker.extend hkept).1) hne
  | @create k name memory memorySize slot privileged hlater hslot hfree h =>
    have hne : s.created ≠ [] := List.ne_nil_of_length_pos (by omega)
    obtain ⟨sys, l, ps, process, task, x, hc, -, -, hspace⟩ := hs.create hne hfits h
    obtain ⟨hd, dir, hdir⟩ := hspace.directory
    exact hs.created hinv hc hspace.kept hdir hne
  | @schedule k frame r h =>
    by_cases hne : s.created = []
    · rw [schedule_null h (hs.inv.before hne).1]
      exact hs
    · have hi := schedule_ok h (hs.inv.current hne)
      exact hs.same hinv (by rw [hi.rest]) (.of_eq (by rw [hi.rest]) (by rw [hi.rest]))
        (by rw [hi.rest]) (by rw [hi.rest])
  | @other k h =>
    rw [OtherWork] at h
    exact hs.same hinv (by rw [h]) (.of_eq (by rw [h]) (by rw [h])) (by rw [h]) (by rw [h])

theorem Spaces.start {k₀ k : Kernel} (hp : Paged k₀ k) (hcur : k₀.currentTask = 0)
    (hslots : ∀ pid, k₀.processes pid = 0) : Spaces ⟨k, []⟩ := by
  have hcur' : k.currentTask = 0 := by rw [hp.rest, hcur]
  have hslots' : ∀ pid, k.processes pid = 0 := by
    rw [hp.rest]
    exact hslots
  exact ⟨.start hcur' hslots', hp.onKernel, fun p hp => nomatch hp⟩

/-- After any run from `paging_init` on, a new process is isolated. -/
theorem runs_isolated {k₀ k : Kernel} {x : Unit} {calls : List KernelCall} {name : List Byte}
    {memory : Word} {memorySize slot : Nat} {privileged : Bool} (hboot : k₀.Boot)
    (hinit : pagingInit k₀ = .ok (x, k)) (hcur : k₀.currentTask = 0)
    (hslots : ∀ pid, k₀.processes pid = 0) (hrun : Runs FitStep ⟨k, []⟩ calls s)
    (hstep : FitStep s (.create name memory memorySize privileged slot) t)
    (hmem : s.kernel.Contiguous memory memorySize) :
    ∃ y, t.kernel.procs (t.kernel.processes slot) = some y ∧ y.memory = memory ∧
      y.memorySize = memorySize ∧ Isolated s.kernel t.kernel s.created y := by
  have hs := hrun.invariant (fun _ _ _ hs hstep => step_spaces hs hstep)
    (.start (pagingInit_ok hboot hinit) hcur hslots)
  obtain ⟨hstep, hsize⟩ := hstep
  cases hstep with
  | @create k' _ _ _ _ _ hlater _ _ h =>
    have hne : s.created ≠ [] := List.ne_nil_of_length_pos (by omega)
    obtain ⟨sys, l, ps, process, task, x, hc, rfl, rfl, hspace⟩ := hs.create hne hsize h
    have himage : k'.image = s.kernel.image := by rw [hc.rest]
    have hslot : k'.processes slot = process := by rw [hc.processes, Function.update_self]
    obtain ⟨y, hy, hyx⟩ := Option.map_eq_some_iff.mp hc.new
    have hmemory : y.memory = x.memory := (congrArg Process.memory hyx :)
    have hmemorySize : y.memorySize = x.memorySize := (congrArg Process.memorySize hyx :)
    have hstack : y.stack = x.stack := (congrArg Process.stack hyx :)
    have hdirectory : y.pageDirectory = x.pageDirectory := (congrArg Process.pageDirectory hyx :)
    rw [← hmemory, ← hmemorySize, ← hdirectory, ← hstack] at hspace
    rw [← hmemory, ← hmemorySize] at hmem
    refine ⟨y, hslot ▸ hy, hmemory, hmemorySize, ?_, ?_, ?_, ?_, ?_⟩
    · exact fun k hk => hspace.translates_program hs.on himage (hmemorySize ▸ hsize) hmem hk
    · exact fun k hk => hspace.translates_stack hs.on himage hk
    · exact fun va hva hentry =>
        hspace.translates_shared hs.on himage (hmemorySize ▸ hsize) hva hentry
    · obtain ⟨hd, dir, hker⟩ := hs.on.directory
      exact ⟨by rw [himage], fun va => hker.translation_extend hspace.kept⟩
    · intro p hp
      have hpne : p ≠ process := by
        rintro rfl
        exact (hs.inv.rings hne).ne_none hp hc.fresh
      obtain ⟨hd, dir, hdir⟩ := hs.directories p hp
      exact ⟨hc.toProcessAdded.directoryOf.2 p hpne, fun va => hdir.translation_extend hspace.kept⟩

/-- The boot, and the two processes of `tasking_init`. -/
def bootTasks : Session :=
  let system := bootDone.after initSystemProcess
  let idle := system.after initIdleProcess
  ⟨idle, [system.processes 0] ++ [idle.processes 1]⟩

theorem runs_bootTasks : Runs FitStep ⟨bootDone, []⟩ [.system, .idle] bootTasks := by
  have hsystem : initSystemProcess bootDone = .ok ((), bootDone.after initSystemProcess) := rfl
  have hidle : initIdleProcess (bootDone.after initSystemProcess) = .ok ((), bootTasks.kernel) := rfl
  exact .cons ⟨.system rfl hsystem, trivial⟩
    (.cons ⟨.idle rfl hidle (by decide +kernel), trivial⟩ (.nil _))

theorem bootTasks_create : ∃ t, FitStep bootTasks (.create [] 0xC0150000 4096 false 2) t := by
  have hcreate : (processInit [] 0xC0150000 4096 false 2 bootTasks.kernel).toOption.map Prod.fst =
      some 0 := by decide +kernel
  obtain ⟨⟨r, k⟩, hk, rfl⟩ := Option.map_eq_some_iff.mp hcreate
  have hsize : 4096 ≤ KERNEL_HEAP_SIZE := by decide
  have hfree : bootTasks.kernel.processes 2 = 0 := by decide +kernel
  exact ⟨_, .create (Nat.le_refl 2) (by decide) hfree (ok_of_toOption hk), hsize⟩

theorem runs_isolated_bootTasks : ∃ t y, Runs FitStep ⟨bootDone, []⟩ [.system, .idle] bootTasks ∧
    FitStep bootTasks (.create [] 0xC0150000 4096 false 2) t ∧
    t.kernel.procs (t.kernel.processes 2) = some y ∧
    Isolated bootTasks.kernel t.kernel bootTasks.created y := by
  obtain ⟨t, hstep⟩ := bootTasks_create
  have hmem : bootTasks.kernel.Contiguous 0xC0150000 4096 := by
    have hs := runs_bootTasks.invariant (fun _ _ _ hs hstep => step_spaces hs hstep)
      (.start (pagingInit_ok bootExample_boot pagingInit_bootExample) rfl fun _ => rfl)
    obtain ⟨hd, dir, hker⟩ := hs.on.directory
    have hphys : (bootTasks.kernel.translation bootTasks.kernel.image.kernelPageDirectory
      0xC0150000).toOption = some 0x150000 := by decide +kernel
    exact ⟨_, fun k hk => hker.translation_add (by decide) (ok_of_toOption hphys) hk⟩
  obtain ⟨y, hy, -, -, h⟩ := runs_isolated bootExample_boot pagingInit_bootExample rfl (fun _ => rfl)
    runs_bootTasks hstep hmem
  exact ⟨t, y, runs_bootTasks, hstep, hy, h⟩

end Session

end AvocadOS
