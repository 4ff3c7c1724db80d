import AvocadOS.Kernel.Mapping

/-!
# `paging_init`, and the extent of the kernel's heap

At boot the kernel runs on a directory with two large pages, both of them the first four megabytes.
`paging_init` builds the kernel's own directory from 4 KiB pages.

* `pagingInit_ok`: the directory it leaves, `kernelSpace`;
* `heap_mapped_iff`: what of the heap is mapped where the kernel takes it to be.
-/

namespace AvocadOS

open Kernel

/-- `BOOT_PAGE_DIRECTORY`: the first four megabytes, twice. -/
def bootEntries (i : Nat) : Word := if i = 0 ∨ i = 768 then 0x83 else 0

/-- The state in which `paging_init` is called. -/
structure Kernel.Boot (s : Kernel) : Prop where
  kernel : s.handles s.image.kernelPageDirectory ≠ none
  boot_ne_null : s.image.bootPageDirectory ≠ 0
  boot : s.tables s.image.bootPageDirectory = some bootEntries

/-- Inside the first four megabytes. -/
def Low (phys : Word) : Prop := phys.toNat < 0x400000

section

variable {s s₀ t u : Kernel} {boot va : Word}

/-- What the boot directory translates: its two large pages. -/
theorem boot_translate {phys directory : Word}
    (hhandle : s.handles boot = some ⟨directory, fun _ => 0⟩)
    (hboot : s.tables directory = some bootEntries)
    (hv : virtualToPhysicalAddr boot va s = .ok (phys, t)) :
    (vAddrPagedirIndex va = 0 ∨ vAddrPagedirIndex va = 768) ∧ phys = vAddrPageframeIndexPse va := by
  obtain ⟨-, hd, hhd, hv⟩ := Store.bind_load_ok hv
  obtain rfl := Option.some.inj (hhandle.symm.trans hhd)
  obtain ⟨-, d, hd, hv⟩ := Store.bind_load_ok hv
  obtain rfl := Option.some.inj (hboot.symm.trans hd)
  simp only at hv
  split at hv
  · rename_i hpse
    replace hv := bind_get_ok hv
    split at hv
    · cases hv
    · obtain ⟨rfl, -⟩ := pure_ok hv
      have hidx : vAddrPagedirIndex va = 0 ∨ vAddrPagedirIndex va = 768 := by
        by_contra hne
        rw [bootEntries, if_neg hne] at hpse
        exact hpse rfl
      have haddr : pageEntryAddr (0x83 : Word) = 0 := by decide
      refine ⟨hidx, ?_⟩
      rw [bootEntries, if_pos hidx, haddr]
      exact BitVec.zero_add _
  · obtain ⟨hne, -⟩ := Store.bind_load_ok hv
    exact absurd rfl hne

/-- Through the boot directory everything that translates is in the first four megabytes. -/
theorem boot_physical (hcur : s₀.currentDirectory = boot)
    (hhandle : s₀.handles boot = some ⟨s₀.image.bootPageDirectory, fun _ => 0⟩)
    (hboot : s₀.tables s₀.image.bootPageDirectory = some bootEntries) : Physical Low s₀ := by
  intro s va phys hkept hcur' hcr4 hva hv
  rw [hcur', hcur] at hv
  obtain ⟨-, rfl⟩ := boot_translate (hkept.handles _ _ hhandle) (hkept.tables _ _ hboot) hv
  rw [Low, vAddrPageframeIndexPse, BitVec.toNat_and]
  exact Nat.lt_of_le_of_lt Nat.and_le_right (by decide)

theorem keeps_newKernelDirectory : Keeps PagingOnly newKernelDirectory := by
  refine .bind .get fun s => .bind (handles_modify_frame _ _) fun _ => ?_
  refine .bind (tables_alloc_frame _ _) fun directory => .bind (handles_modify_frame _ _) fun _ => ?_
  refine .bind .get fun s => .bind (virtualToPhysicalAddr_keeps _ _) fun phys => ?_
  refine .bind (setDirectory_frame _ _ _) fun _ => .bind (setDirectoryVirtual_frame _ _ _) fun _ => ?_
  exact .bind .get fun s => .bind (virtualToPhysicalAddr_keeps _ _) fun _ => .ite (keeps_panic _)
    (.pure _)

/-- The state without the kernel's handle. -/
def Kernel.beforeKernelDirectory (s : Kernel) : Kernel :=
  { s with handles := Function.update s.handles s.image.kernelPageDirectory none }

/-- Entry 1023 only. -/
def lastOnly (x : Word) : Nat → Word := Function.update (fun _ => 0) 1023 x

theorem lastOnly_of_ne {x : Word} {i : Nat} (h : i ≠ 1023) : lastOnly x i = 0 :=
  Function.update_of_ne h _ _

theorem lastOnly_self {x : Word} : lastOnly x 1023 = x := Function.update_self _ _ _

/-- A directory that maps nothing but itself. -/
theorem DirInv.bare {P : Word → Prop} {h directory e : Word} (hne : h ≠ 0) (hd : directory ≠ 0)
    (hhandle : t.handles h = some ⟨directory, lastOnly directory⟩)
    (htable : t.tables directory = some (lastOnly e)) (he : Entry P e) :
    DirInv P t h ⟨directory, lastOnly directory⟩ (lastOnly e) ∧ t.space h = fun _ => none := by
  have h1023 : ∀ i, lastOnly directory i ≠ 0 → i = 1023 := by
    intro i hi
    by_contra hne
    exact hi (lastOnly_of_ne hne)
  have hinv : DirInv P t h ⟨directory, lastOnly directory⟩ (lastOnly e) := by
    refine ⟨hne, hhandle, hd, htable, lastOnly_self, fun i _ hi => ?_, fun i _ j _ hi hij => ?_,
      fun i _ hi => ?_, fun i _ hi => lastOnly_of_ne ?_⟩
    · obtain rfl := h1023 i hi
      simp [lastOnly_self, htable]
    · have hj : lastOnly directory j ≠ 0 := fun h => hi (hij.trans h)
      rw [h1023 i hi, h1023 j hj]
    · obtain rfl := h1023 i hi
      rw [lastOnly_self]
      exact he
    · rintro rfl
      exact hd (lastOnly_self.symm.trans hi)
  refine ⟨hinv, ?_⟩
  funext i
  by_cases hi : i < 1023
  · rw [hinv.space_eq hi, if_pos (lastOnly_of_ne (by omega))]
  · rw [Kernel.space, if_neg hi]

/-- The entry of the directory for itself is what `current_directory` translates its address to. -/
structure SelfEntry (s₀ : Kernel) (hd : PageDirectoryHandle) (dir : Nat → Word) (u : Kernel)
    (phys : Word) : Prop where
  kept : Extends s₀ u
  current : u.currentDirectory = s₀.currentDirectory
  aligned : phys &&& 0xfff = 0
  translated : virtualToPhysicalAddr u.currentDirectory hd.directory u = .ok (phys, u)
  last : dir 1023 = phys ||| (PAGING_WRITABLE_PAGE ||| PAGING_PRESENT)

/-- The kernel's directory before anything is mapped. -/
theorem newKernelDirectory_ok {x : Unit} (hP : Physical Low s.beforeKernelDirectory)
    (h : newKernelDirectory s = .ok (x, t)) :
    (∃ hd dir, Builds Low (fun _ => True) s.beforeKernelDirectory t s.image.kernelPageDirectory
        hd dir ∧ ∃ u phys, SelfEntry s.beforeKernelDirectory hd dir u phys) ∧
      t.space s.image.kernelPageDirectory = fun _ => none := by
  obtain ⟨_, s₁, hclear, h⟩ := bind_ok (bind_get_ok h)
  obtain ⟨directory, m, halloc, h⟩ := bind_ok h
  obtain ⟨_, m', hput, h⟩ := bind_ok h
  obtain ⟨phys, m'', hphys, h⟩ := bind_ok (bind_get_ok h)
  obtain ⟨_, m₃, hset, h⟩ := bind_ok h
  obtain ⟨_, m₄, hset', h⟩ := bind_ok h
  obtain ⟨phys', m₅, hphys', hcheck⟩ := bind_ok (bind_get_ok h)
  obtain rfl : t = m₄ := by
    split at hcheck
    · cases hcheck
    · rw [(pure_ok hcheck).2]
      exact virtualToPhysicalAddr_state hphys'
  generalize hk : s.image.kernelPageDirectory = kernel at *
  obtain ⟨hne, _, -, hs₁⟩ := Store.modify_ok hclear
  rw [handles_get, handles_put] at hs₁
  -- there was memory for the directory, or the write to its last entry would have failed
  obtain ⟨hd, dir, hhd, hD, hdir, hm₃⟩ := setDirectory_ok hset
  obtain ⟨-, hd', hhd', hm'⟩ := Store.modify_ok hput
  rw [handles_get] at hhd'
  rw [handles_get, handles_put] at hm'
  obtain rfl := virtualToPhysicalAddr_state hphys
  obtain rfl : (⟨directory, hd'.directoryVirtual⟩ : PageDirectoryHandle) = hd := by
    rw [hm'] at hhd
    simpa using hhd
  rcases Store.alloc_ok halloc with ⟨h₀, -⟩ | ⟨-, hfresh, hm⟩
  · exact absurd h₀ hD
  have hnone : s.tables directory = none := by
    rw [hs₁] at hfresh
    exact hfresh.vacant.1
  rw [tables_get, tables_put] at hm
  have hmh : m.handles = Function.update s.handles kernel (some ⟨0, fun _ => 0⟩) := by
    rw [hm, hs₁]
    rfl
  have hmt : m.tables = Function.update s.tables directory (some fun _ => 0) := by
    rw [hm, hs₁]
    rfl
  obtain rfl : (⟨0, fun _ => 0⟩ : PageDirectoryHandle) = hd' := by
    rw [hmh] at hhd'
    simpa using hhd'
  generalize hm'' : m'' = w at *
  have hwh : w.handles = Function.update s.handles kernel (some ⟨directory, fun _ => 0⟩) := by
    rw [hm', hmh]
    exact Function.update_idem _ _ _
  have hwt : w.tables = Function.update s.tables directory (some fun _ => 0) := by rw [hm', hmt]
  have hwc : w.currentDirectory = s.currentDirectory ∧ w.cr4 = s.cr4 := by
    rw [hm', hm, hs₁]
    exact ⟨rfl, rfl⟩
  obtain rfl : (fun _ => 0) = dir := by
    rw [hwt] at hdir
    simpa using hdir
  have hkept : ∀ v : Kernel, (∀ a, a ≠ directory → v.tables a = s.tables a) →
      (∀ a, a ≠ kernel → v.handles a = s.handles a) → Extends s.beforeKernelDirectory v := by
    intro v htables hhandles
    refine ⟨fun a y hy => ?_, fun a y hy => ?_⟩
    · rw [htables a]
      · exact hy
      · rintro rfl
        exact absurd (hnone.symm.trans hy) (by simp)
    · rw [Kernel.beforeKernelDirectory, hk] at hy
      by_cases ha : a = kernel
      · simp [ha] at hy
      · rw [hhandles a ha]
        simpa [ha] using hy
  have hkeptw := hkept w (fun a ha => by rw [hwt, Function.update_of_ne ha])
    fun a ha => by rw [hwh, Function.update_of_ne ha]
  have halign := aligned_iff_mod.mpr hfresh.1
  obtain ⟨-, hentry⟩ := hP.entry hkeptw hwc.1 hwc.2 halign (.inl rfl) hphys
  have hentry : Entry Low (phys ||| (PAGING_WRITABLE_PAGE ||| PAGING_PRESENT)) := hentry
  obtain ⟨hd₄, hhd₄, ht⟩ := setDirectoryVirtual_ok hset'
  obtain rfl : (⟨directory, fun _ => 0⟩ : PageDirectoryHandle) = hd₄ := by
    rw [hm₃, hwh] at hhd₄
    simpa using hhd₄
  have hth : t.handles = Function.update s.handles kernel (some ⟨directory, lastOnly directory⟩) := by
    rw [ht, hm₃, hwh]
    exact Function.update_idem _ _ _
  have htt : t.tables = Function.update s.tables directory
      (some (lastOnly (phys ||| (PAGING_WRITABLE_PAGE ||| PAGING_PRESENT)))) := by
    rw [ht, hm₃, hwt]
    exact Function.update_idem _ _ _
  obtain ⟨hinv, hspace⟩ := DirInv.bare hne hD (by rw [hth, Function.update_self])
    (by rw [htt, Function.update_self]) hentry
  refine ⟨⟨_, _, ⟨hinv, hkept t (fun a ha => by rw [htt, Function.update_of_ne ha])
    (fun a ha => by rw [hth, Function.update_of_ne ha]), ⟨?_, hnone, ?_⟩, ?_, ?_⟩, w, phys, ?_⟩, hspace⟩
  · rw [Kernel.beforeKernelDirectory, hk]
    exact Function.update_self _ _ _
  · intro i hi _ hv
    exact absurd (lastOnly_of_ne (by omega)) hv
  · rw [ht, hm₃]
    exact hwc.1
  · rw [ht, hm₃]
    exact hwc.2
  · exact ⟨hkeptw, hwc.1, virtualToPhysicalAddr_aligned halign hphys, hphys, lastOnly_self⟩

theorem keeps_mapFirstMegabytes : Keeps PagingOnly (mapFirstMegabytes va) := by
  refine .bind .get fun s => .bind (pagingMapFromTo_frame _ _ _ _ _) fun res => ?_
  exact .ite (keeps_panic _) (.pure _)

theorem mapFirstMegabytes_ok {hd : PageDirectoryHandle} {dir : Nat → Word} {x : Unit}
    (hP : Physical Low s₀)
    (hb : Builds Low (fun _ => True) s₀ s s.image.kernelPageDirectory hd dir)
    (hva : va.toNat / 4096 + 1024 ≤ 1023 * 1024) (h : mapFirstMegabytes va s = .ok (x, t)) :
    (∃ hd' dir', Builds Low (fun _ => True) s₀ t s.image.kernelPageDirectory hd' dir') ∧
      t.space s.image.kernelPageDirectory = (s.space s.image.kernelPageDirectory).setRange 1024 0
        (va.toNat / 4096) (frames 0 3) 1024 := by
  obtain ⟨res, u, hmap, h⟩ := bind_ok (bind_get_ok h)
  split at h
  · cases h
  rename_i hres
  obtain rfl : res = 0 := by simpa using hres
  obtain ⟨-, rfl⟩ := pure_ok h
  obtain ⟨⟨hd', dir', hb', -⟩, hspace⟩ :=
    pagingMapFromTo_ok hP (.inl rfl) hb (fun _ _ => by rfl) hva (fun _ _ => trivial) hmap
  exact ⟨⟨hd', dir', hb'⟩, hspace⟩

/-- The kernel's page tables: the first four megabytes, at `0` and at `KERNEL_VIRTUAL_BASE`. -/
def kernelSpace : TwoLevel Word :=
  (TwoLevel.setRange 1024 0 (fun _ => none) 0 (frames 0 3) 1024).setRange 1024 0 0xC0000
    (frames 0 3) 1024

/-- What `paging_init` leaves. -/
structure Paged (s t : Kernel) : Prop where
  directory : ∃ hd dir, DirInv Low t s.image.kernelPageDirectory hd dir ∧
    t.cr3 = pageEntryAddr (dir 1023)
  space : t.space s.image.kernelPageDirectory = kernelSpace
  rest : t = { s with
    requests := t.requests
    blocks := t.blocks
    raw := t.raw
    tables := t.tables
    handles := t.handles
    currentDirectory := s.image.kernelPageDirectory
    cr3 := t.cr3
    cr4 := t.cr4 }

theorem update_none {α : Type} {m : Word → Option α} {a : Word} (h : m a = none) :
    Function.update m a none = m :=
  Function.update_eq_self_iff.mpr h.symm

/-- Freeing an object that is no part of the directory. -/
theorem DirInv.erase {P : Word → Prop} {h a : Word} {hd : PageDirectoryHandle} {dir : Nat → Word}
    (hinv : DirInv P s h hd dir) (hne : h ≠ a) (hnone : s.tables a = none) :
    DirInv P (s.erase a) h hd dir ∧ (s.erase a).space h = s.space h := by
  have htables : (s.erase a).tables = s.tables := update_none hnone
  have hhandle : (s.erase a).handles h = s.handles h := Function.update_of_ne hne _ _
  have hinv' : DirInv P (s.erase a) h hd dir := { hinv with
    handle := hhandle.trans hinv.handle
    directory := by
      rw [htables]
      exact hinv.directory
    tables := by
      rw [htables]
      exact hinv.tables }
  refine ⟨hinv', ?_⟩
  funext i
  rw [Kernel.space, Kernel.space, hhandle, htables]

/-- Where there was nothing but a handle or a page table, `kfree` erases no more than that. -/
theorem Kernel.erase_eq {a : Word} (h : s.vacant a = true)
    (ht : t = { s with
      requests := t.requests, blocks := t.blocks, raw := t.raw, tables := t.tables
      handles := t.handles, currentDirectory := t.currentDirectory, cr3 := t.cr3, cr4 := t.cr4 }) :
    t.erase a = { t with
      tables := Function.update t.tables a none, handles := Function.update t.handles a none } := by
  simp only [Kernel.vacant, Bool.and_eq_true, Option.isNone_iff_eq_none] at h
  obtain ⟨⟨⟨⟨⟨⟨⟨⟨⟨-, -⟩, h₁⟩, h₂⟩, h₃⟩, h₄⟩, h₅⟩, h₆⟩, h₇⟩, h₈⟩ := h
  rw [Kernel.erase, ht]
  simp only [update_none h₁, update_none h₂, update_none h₃, update_none h₄, update_none h₅,
    update_none h₆, update_none h₇, update_none h₈]

theorem initPageBitmap_ok {n : Nat} {x : Unit} (h : initPageBitmap n s = .ok (x, t)) :
    t = { s with requests := t.requests, blocks := t.blocks, raw := t.raw } := by
  obtain ⟨a, u, ha, h⟩ := bind_ok h
  split at h
  · cases h
  split at h
  · cases h
  cases h
  rcases kzalloc_ok ha with ⟨-, rfl⟩ | ⟨-, -, -, rfl⟩ <;> rfl

theorem initPageBitmap_requests {n : Nat} {x : Unit} (h : initPageBitmap n s = .ok (x, t)) :
    s.requests ≤ t.requests := by
  obtain ⟨a, u, ha, h⟩ := bind_ok h
  split at h
  · cases h
  split at h
  · cases h
  cases h
  rcases kzalloc_ok ha with ⟨-, rfl⟩ | ⟨-, -, -, rfl⟩ <;> exact Nat.le_succ _

/-- The handle for the boot directory. -/
structure BootHandle (s t : Kernel) (boot : Word) : Prop where
  ne_null : boot ≠ 0
  vacant : s.vacant boot = true
  rest : t = { s with
    requests := t.requests
    blocks := t.blocks
    raw := t.raw
    handles := Function.update s.handles boot (some ⟨s.image.bootPageDirectory, fun _ => 0⟩)
    currentDirectory := boot }

/-- `paging_init` from the boot handle on. -/
theorem BootHandle.physical (hboot : s.Boot) (h : BootHandle s t boot)
    (hne : boot ≠ s.image.kernelPageDirectory) : Physical Low t.beforeKernelDirectory := by
  have himage : t.image = s.image := by rw [h.rest]
  refine @boot_physical _ boot ?_ ?_ ?_
  · rw [Kernel.beforeKernelDirectory, h.rest]
  · change Function.update t.handles t.image.kernelPageDirectory none boot = _
    rw [himage, Function.update_of_ne hne, h.rest]
    exact Function.update_self _ _ _
  · change t.tables t.image.bootPageDirectory = _
    rw [h.rest]
    exact hboot.boot

/-- `paging_init` from the handle of the boot directory on: the kernel's directory, its two mappings,
and the registers. -/
theorem pagingInit_parts {x : Unit} (hboot : s.Boot) (h : pagingInit s = .ok (x, t)) :
    ∃ boot s₄ s₅ s₆ s₇ cr3, BootHandle s s₄ boot ∧ s.requests ≤ s₄.requests ∧
      boot ≠ s.image.kernelPageDirectory ∧ newKernelDirectory s₄ = .ok ((), s₅) ∧
      mapFirstMegabytes 0 s₅ = .ok ((), s₆) ∧
      mapFirstMegabytes KERNEL_VIRTUAL_BASE s₆ = .ok ((), s₇) ∧
      directoryPhysicalAddr s₇.image.kernelPageDirectory s₇ = .ok (cr3, s₇) ∧
      t = { { s₇ with cr3 := cr3, cr4 := s₇.cr4 &&& ~~~PSE_BIT }.erase boot with
        blocks := t.blocks
        currentDirectory := s₇.image.kernelPageDirectory } := by
  obtain ⟨_, s₁, hbitmap, h⟩ := bind_ok h
  obtain ⟨boot, s₂, halloc, h⟩ := bind_ok h
  obtain ⟨_, s₃, hcur, h⟩ := bind_ok h
  replace h := bind_get_ok h
  obtain ⟨_, s₄, hset, h⟩ := bind_ok h
  obtain ⟨_, s₅, hnew, h⟩ := bind_ok h
  obtain ⟨_, s₆, hlow, h⟩ := bind_ok h
  obtain ⟨_, s₇, hhigh, h⟩ := bind_ok h
  replace h := bind_get_ok h
  obtain ⟨cr3, s₈, hcr3, h⟩ := bind_ok h
  obtain ⟨_, s₉, hload, h⟩ := bind_ok h
  obtain ⟨_, s₁₀, hcr4, h⟩ := bind_ok h
  obtain ⟨_, s₁₁, hfree, h⟩ := bind_ok h
  cases h
  have hs₁ := initPageBitmap_ok hbitmap
  have hask₁ := initPageBitmap_requests hbitmap
  cases hcur
  obtain ⟨hne, hd₀, hhd₀, hs₄⟩ := Store.modify_ok hset
  rcases Store.alloc_ok halloc with ⟨h₀, -⟩ | ⟨-, hfresh, hs₂⟩
  · exact absurd h₀ hne
  have hvacant : s.vacant boot = true := by
    rw [hs₁] at hfresh
    exact hfresh.2.2.1
  have hhandle : BootHandle s s₄ boot := by
    refine ⟨hne, hvacant, ?_⟩
    obtain rfl : (⟨0, fun _ => 0⟩ : PageDirectoryHandle) = hd₀ := by
      rw [hs₂] at hhd₀
      simpa using hhd₀
    rw [hs₄, hs₂, hs₁]
    simp only [handles_get, handles_put, Function.update_idem]
    rfl
  have hask : s.requests ≤ s₄.requests := by
    rw [hs₄, hs₂]
    exact Nat.le_succ_of_le hask₁
  have hker : boot ≠ s.image.kernelPageDirectory := by
    rintro rfl
    rw [hs₁] at hfresh
    exact hboot.kernel hfresh.vacant.2.1
  obtain ⟨-, rfl⟩ := directoryPhysicalAddr_ok hcr3
  cases hload
  cases hcr4
  obtain ⟨-, hs₁₁⟩ := kfree_ok hfree
  refine ⟨boot, s₄, s₅, s₆, s₈, cr3, hhandle, hask, hker, hnew, hlow, hhigh, hcr3, ?_⟩
  rw [hs₁₁]

theorem pagingInit_ok {x : Unit} (hboot : s.Boot) (h : pagingInit s = .ok (x, t)) : Paged s t := by
  obtain ⟨boot, s₄, s₅, s₆, s₈, cr3, hhandle, -, hker, hnew, hlow, hhigh, hcr3, ht⟩ :=
    pagingInit_parts hboot h
  have hvacant := hhandle.vacant
  have hnone : s.tables boot = none := by
    simp only [Kernel.vacant, Bool.and_eq_true, Option.isNone_iff_eq_none] at hvacant
    exact hvacant.1.1.1.1.1.1.1.1.1
  have hP := hhandle.physical hboot hker
  -- the kernel's directory and its two mappings
  have himage₄ : s₄.image = s.image := by rw [hhandle.rest]
  have hf₅ : PagingOnly s₄ s₅ := keeps_newKernelDirectory hnew
  have hf₆ : PagingOnly s₅ s₆ := keeps_mapFirstMegabytes hlow
  have hf₇ : PagingOnly s₆ s₈ := keeps_mapFirstMegabytes hhigh
  have himage₅ : s₅.image = s.image := by rw [hf₅.rest, himage₄]
  have himage₆ : s₆.image = s.image := by rw [hf₆.rest, himage₅]
  have himage₈ : s₈.image = s.image := by rw [hf₇.rest, himage₆]
  obtain ⟨⟨hd₅, dir₅, hb₅, -⟩, hspace₅⟩ := newKernelDirectory_ok hP hnew
  rw [himage₄] at hb₅ hspace₅
  obtain ⟨⟨hd₆, dir₆, hb₆⟩, hspace₆⟩ :=
    mapFirstMegabytes_ok hP (by rw [himage₅]; exact hb₅) (by decide) hlow
  rw [himage₅] at hb₆ hspace₆
  obtain ⟨⟨hd₇, dir₇, hb₇⟩, hspace₇⟩ :=
    mapFirstMegabytes_ok hP (by rw [himage₆]; exact hb₆) (by decide) hhigh
  rw [himage₆] at hb₇ hspace₇
  -- the registers, and the handle of the boot directory is freed
  obtain ⟨haddr, -⟩ := directoryPhysicalAddr_ok hcr3
  rw [himage₈] at haddr
  have hf : PagingOnly s₄ s₈ := Trans.trans (Trans.trans hf₅ hf₆) hf₇
  have hboot₈ : s₈.tables boot = none := by
    refine hf.apart boot ?_ ?_
    · rw [hhandle.rest]
      simp
    · rw [hhandle.rest]
      exact hnone
  have hrest : s₈ = { s with
      requests := s₈.requests
      blocks := s₈.blocks
      raw := s₈.raw
      tables := s₈.tables
      handles := s₈.handles
      currentDirectory := s₈.currentDirectory
      cr3 := s₈.cr3
      cr4 := s₈.cr4 } := by
    rw [hf.rest, hhandle.rest]
  obtain ⟨hinv, hspace⟩ := hb₇.inv.erase hker.symm hboot₈
  have hcr3 : cr3 = pageEntryAddr (dir₇ 1023) :=
    Option.some.inj (haddr.symm.trans hb₇.inv.directoryAddr)
  have hspace' : (s₈.erase boot).space s.image.kernelPageDirectory = kernelSpace := by
    rw [hspace, hspace₇, hspace₆, hspace₅]
    rfl
  refine ⟨⟨hd₇, dir₇, (hinv.congr ?_ ?_).1, ?_⟩, ?_, ?_⟩
  · rw [ht]
    rfl
  · rw [ht]
    rfl
  · rw [ht]
    exact hcr3
  · rw [← hspace']
    refine (hinv.congr ?_ ?_).2
    · rw [ht]
      rfl
    · rw [ht]
      rfl
  · rw [ht]
    have herase := Kernel.erase_eq hvacant
      (t := { s₈ with cr3 := cr3, cr4 := s₈.cr4 &&& ~~~PSE_BIT }) (by rw [hrest])
    rw [herase, hrest]

/-! ## The kernel's page tables -/

theorem kernelSpace_low {n : Nat} (h : n < 1024) : kernelSpace.get 1024 n = some (frames 0 3 n) := by
  refine TwoLevel.get_setRange_frame (.inl (by omega)) ?_
  have hlow := @TwoLevel.get_setRange Word 1024 0 (fun _ => none) 0 (frames 0 3) 1024 n h
  rwa [Nat.zero_add] at hlow

theorem kernelSpace_high {k : Nat} (h : k < 1024) :
    kernelSpace.get 1024 (0xC0000 + k) = some (frames 0 3 k) :=
  TwoLevel.get_setRange h

theorem kernelSpace_none {i : Nat} (h₀ : i ≠ 0) (h₁ : i ≠ 768) : kernelSpace i = none := by
  have hhigh : ∀ k < 1024, i ≠ (0xC0000 + k) / 1024 := by
    intro k hk
    omega
  have hlow : ∀ k < 1024, i ≠ (0 + k) / 1024 := by
    intro k hk
    omega
  rw [kernelSpace, TwoLevel.setRange_block hhigh, TwoLevel.setRange_block hlow]

/-- The frame of an entry. -/
theorem frames_addr {k : Nat} (hk : k < 1024) : (pageEntryAddr (frames 0 3 k)).toNat = 4096 * k := by
  have hnat : ((0 : Word) + BitVec.ofNat 32 (4096 * k)).toNat = 4096 * k := by
    rw [show (0 : Word) + BitVec.ofNat 32 (4096 * k) = BitVec.ofNat 32 (4096 * k) from
      BitVec.zero_add _, BitVec.toNat_ofNat]
    omega
  rw [frames, pageEntryAddr_or (aligned_iff_mod.mpr (by omega)) (by decide), hnat]

/-! ## The heap -/

/-- `a` is in the range that `kheap_init` gives to `heap_create`. -/
def InKheap (kernelEnd a : Word) : Prop := (a - kheapBegin kernelEnd).toNat < KERNEL_HEAP_SIZE

instance (kernelEnd a : Word) : Decidable (InKheap kernelEnd a) :=
  inferInstanceAs (Decidable (_ < _))

/-- These are the addresses of the heap's blocks. -/
theorem inKheap_iff {kernelEnd : Word} {mem : Memory} {entries : Nat → HeapTableEntry} {heap : Heap}
    (h : kheapInit kernelEnd mem entries = .ok heap) (a : Word) :
    InKheap kernelEnd a ↔
      (a - heap.baseAddr).toNat < heap.table.len * KERNEL_HEAP_BLOCK_SIZE := by
  obtain ⟨hbase, hlen⟩ := kheapInit_ok h
  rw [InKheap, hbase, hlen, Nat.div_mul_cancel (by decide)]

/-- The entries for `va`, in the directory and in the page table, have the present bit. -/
def Kernel.Present (s : Kernel) (h va : Word) : Prop :=
  ∃ hd dir u, s.handles h = some hd ∧ s.tables hd.directory = some dir ∧
    s.tables (hd.directoryVirtual (vAddrPagedirIndex va)) = some u ∧
    dir (vAddrPagedirIndex va) &&& PAGING_PRESENT ≠ 0 ∧
    u (vAddrPagetblIndex va) &&& PAGING_PRESENT ≠ 0

/-- `a` is mapped where the kernel takes it to be. -/
def Kernel.MapsKernel (s : Kernel) (a : Word) : Prop :=
  s.Present s.image.kernelPageDirectory a ∧
    virtualToPhysicalAddr s.image.kernelPageDirectory a s = .ok (a - KERNEL_VIRTUAL_BASE, s)

/-- The address that an entry of the kernel's tables gives. -/
theorem frames_translate {k : Nat} (hk : k < 1024) (a : Word) :
    (pageEntryAddr (frames 0 3 k) + vAddrPageframeIndex a).toNat = 4096 * k + a.toNat % 4096 := by
  rw [BitVec.toNat_add, frames_addr hk, vAddrPageframeIndex, and_fff_toNat]
  omega

theorem Paged.maps_high {a : Word} (h : Paged s t) (hlo : 0xC0000000 ≤ a.toNat)
    (hhi : a.toNat < 0xC0400000) : t.MapsKernel a := by
  obtain ⟨hd, dir, hinv, -⟩ := h.directory
  have himage : t.image = s.image := by rw [h.rest]
  obtain ⟨k, hk, hpage⟩ : ∃ k < 1024, a.toNat / 4096 = 0xC0000 + k :=
    ⟨a.toNat / 4096 - 0xC0000, by omega, by omega⟩
  have hentry : t.entryAt s.image.kernelPageDirectory a = some (frames 0 3 k) := by
    rw [Kernel.entryAt, h.space, hpage, kernelSpace_high hk]
  have hidx : a.toNat / 4096 / 1024 = 768 := by omega
  rw [Kernel.MapsKernel, himage]
  refine ⟨?_, ?_⟩
  · -- the page table that the entry is in
    obtain ⟨u, hu, hue⟩ := Option.map_eq_some_iff.mp hentry
    rw [hinv.space_eq (by omega)] at hu
    split at hu
    · cases hu
    rename_i hv
    refine ⟨hd, dir, u, hinv.handle, hinv.directory, ?_, ?_, ?_⟩
    · rw [vAddrPagedirIndex_eq]
      exact hu
    · rw [vAddrPagedirIndex_eq]
      exact (hinv.present _ (by omega) hv).is_present
    · rw [vAddrPagetblIndex_eq, hue, frames]
      exact or_present (.inl rfl)
  · rw [hinv.translate_eq (by omega), hentry]
    have : pageEntryAddr (frames 0 3 k) + vAddrPageframeIndex a = a - KERNEL_VIRTUAL_BASE := by
      apply BitVec.eq_of_toNat_eq
      rw [frames_translate hk, BitVec.toNat_sub]
      change _ = (2 ^ 32 - 0xC0000000 + a.toNat) % 2 ^ 32
      omega
    simp only [this]

/-- Outside of these four megabytes nothing is mapped where the kernel takes it to be: the first four
megabytes are mapped to themselves, entry 1023 to the directory and its page tables. -/
theorem Paged.of_mapsKernel {a : Word} (h : Paged s t) (hm : t.MapsKernel a) :
    0xC0000000 ≤ a.toNat ∧ a.toNat < 0xC0400000 := by
  obtain ⟨hd, dir, hinv, -⟩ := h.directory
  have himage : t.image = s.image := by rw [h.rest]
  have htranslate := hm.2
  rw [himage] at htranslate
  have hlt := a.isLt
  have hsub : (a - KERNEL_VIRTUAL_BASE).toNat = (2 ^ 32 - 0xC0000000 + a.toNat) % 2 ^ 32 :=
    BitVec.toNat_sub ..
  by_cases hlast : a.toNat / 4096 / 1024 = 1023
  · rw [hinv.translate_last hlast] at htranslate
    have heq : pageEntryAddr (dir (a.toNat / 4096 % 1024)) + vAddrPageframeIndex a =
        a - KERNEL_VIRTUAL_BASE := by
      injection htranslate with htranslate
      exact (Prod.mk.inj htranslate).1
    have hlow : (pageEntryAddr (dir (a.toNat / 4096 % 1024))).toNat < 0x400000 := by
      by_cases hv : hd.directoryVirtual (a.toNat / 4096 % 1024) = 0
      · rw [hinv.absent _ (by omega) hv]
        decide
      · exact (hinv.present _ (by omega) hv).addr
    have hnat := congrArg BitVec.toNat heq
    rw [BitVec.toNat_add, hsub, vAddrPageframeIndex, and_fff_toNat] at hnat
    omega
  · rw [hinv.translate_eq (by omega)] at htranslate
    cases hentry : t.entryAt s.image.kernelPageDirectory a with
    | none =>
      rw [hentry] at htranslate
      cases htranslate
    | some e =>
      rw [hentry] at htranslate
      have heq : pageEntryAddr e + vAddrPageframeIndex a = a - KERNEL_VIRTUAL_BASE := by
        injection htranslate with htranslate
        exact (Prod.mk.inj htranslate).1
      rw [Kernel.entryAt, h.space] at hentry
      by_cases h₁ : a.toNat / 4096 / 1024 = 768
      · omega
      by_cases h₀ : a.toNat / 4096 / 1024 = 0
      · rw [kernelSpace_low (by omega)] at hentry
        cases hentry
        have hnat := congrArg BitVec.toNat heq
        rw [frames_translate (by omega), hsub] at hnat
        omega
      · rw [TwoLevel.get, kernelSpace_none h₀ h₁] at hentry
        cases hentry

/-! ## A boot that returns -/

/-- Where there is a page table, mapping a page writes to it. -/
theorem pagingMapPage_returns {h p flags : Word} {hd : PageDirectoryHandle} {x : Nat → Word}
    (hne : h ≠ 0) (hhd : s.handles h = some hd)
    (hv : hd.directoryVirtual (vAddrPagedirIndex va) ≠ 0)
    (hx : s.tables (hd.directoryVirtual (vAddrPagedirIndex va)) = some x)
    (hva : va &&& 0xfff = 0) (hp : p &&& 0xfff = 0) :
    pagingMapPage h va p flags s = .ok (0, { s with
      tables := Function.update s.tables (hd.directoryVirtual (vAddrPagedirIndex va))
        (some (Function.update x (vAddrPagetblIndex va) (p ||| uint16 flags))) }) := by
  have hadd : addPageTable h (vAddrPagedirIndex va) flags s = .ok ((), s) := by
    rw [addPageTable, bind_eq (Store.load_eq hne hhd), if_neg hv]
    rfl
  have hretry : retryPageTable h (vAddrPagedirIndex va) s = .ok ((), s) := by
    rw [retryPageTable, bind_eq (Store.load_eq hne hhd), if_neg hv]
    rfl
  rw [pagingMapPage, if_neg (by simp [aligned_iff.mpr hva, aligned_iff.mpr hp])]
  rw [bind_eq hadd, bind_eq hretry]
  rw [setPageEntry, bind_assoc, bind_eq (Store.load_eq hne hhd), bind_eq (Store.modify_eq hv hx)]
  rfl

/-- The page table `x` with the frames from `p` on at `n`, …, `n + count - 1`. -/
def mapPages (x : Nat → Word) (n : Nat) (p : Word) (count j : Nat) : Word :=
  if n ≤ j ∧ j < n + count then frames p 3 (j - n) else x j

theorem mapPages_update (x : Nat → Word) (n : Nat) (p : Word) (count : Nat) :
    mapPages (Function.update x n (p ||| 3)) (n + 1) (p + 4096) count =
      mapPages x n p (count + 1) := by
  funext j
  simp only [mapPages]
  by_cases hj : j = n
  · subst hj
    rw [if_neg (by omega), if_pos (by omega), Function.update_self, Nat.sub_self]
    simp [frames]
  · rw [Function.update_of_ne hj]
    by_cases hr : n + 1 ≤ j ∧ j < n + 1 + count
    · rw [if_pos hr, if_pos (by omega), frames_succ]
      congr 1
      omega
    · rw [if_neg hr, if_neg (by omega)]

/-- And so for a range in one page table. -/
theorem pagingMapPages_returns {h p : Word} {hd : PageDirectoryHandle} {x : Nat → Word}
    {i n count : Nat} (hne : h ≠ 0) (hhd : s.handles h = some hd) (hv : hd.directoryVirtual i ≠ 0)
    (hx : s.tables (hd.directoryVirtual i) = some x) (hi : i < 1023)
    (hn : va.toNat / 4096 = i * 1024 + n) (hend : n + count ≤ 1024)
    (hva : va &&& 0xfff = 0) (hp : p &&& 0xfff = 0) :
    pagingMapPages h va p 3 count s = .ok (0, { s with
      tables := Function.update s.tables (hd.directoryVirtual i) (some (mapPages x n p count)) }) := by
  induction count generalizing s va p x n with
  | zero =>
    have hsame : mapPages x n p 0 = x := by
      funext j
      rw [mapPages, if_neg (by omega)]
    rw [hsame, ← hx, Function.update_eq_self]
    rfl
  | succ count ih =>
    have hidx : vAddrPagedirIndex va = i := by
      rw [vAddrPagedirIndex_eq]
      omega
    have hidx' : vAddrPagetblIndex va = n := by
      rw [vAddrPagetblIndex_eq]
      omega
    have hpage := @pagingMapPage_returns s va h p 3 hd x hne hhd (hidx ▸ hv) (hidx ▸ hx) hva hp
    rw [hidx, hidx', uint16_flags (.inl rfl)] at hpage
    have hnext := add_page_toNat (a := va) (by omega)
    have hrest := ih (s := { s with
        tables := Function.update s.tables (hd.directoryVirtual i)
          (some (Function.update x n (p ||| 3))) }) hhd
      (Function.update_self _ _ _) (n := n + 1) (by omega) (by omega) (add_page_aligned hva)
      (add_page_aligned hp)
    rw [pagingMapPages, bind_eq hpage, if_neg (by simp), hrest]
    simp only [Function.update_idem, mapPages_update]

/-- The first page may need a page table, the others are in the same one. -/
theorem mapFirstMegabytes_returns {hd : PageDirectoryHandle} {x : Nat → Word} {i : Nat}
    (hi : i < 1023) (hva : va.toNat = i * 0x400000)
    (hfirst : pagingMapPage s.image.kernelPageDirectory va 0 3 s = .ok (0, u))
    (hne : s.image.kernelPageDirectory ≠ 0) (hhd : u.handles s.image.kernelPageDirectory = some hd)
    (hv : hd.directoryVirtual i ≠ 0) (hx : u.tables (hd.directoryVirtual i) = some x) :
    mapFirstMegabytes va s = .ok ((), { u with
      tables := Function.update u.tables (hd.directoryVirtual i)
        (some (mapPages x 1 4096 1023)) }) := by
  have halign : va &&& 0xfff = 0 := aligned_iff_mod.mpr (by omega)
  have hnext := add_page_toNat (a := va) (by omega)
  have hrest := @pagingMapPages_returns u (va + 4096) _ 4096 hd x i 1 1023 hne hhd hv hx hi
    (by omega) (by omega) (add_page_aligned halign) (by decide)
  have hrun : pagingMapFromTo s.image.kernelPageDirectory va 0 0x400000
      (PAGING_WRITABLE_PAGE ||| PAGING_PRESENT) s = .ok (0, { u with
        tables := Function.update u.tables (hd.directoryVirtual i)
          (some (mapPages x 1 4096 1023)) }) := by
    rw [pagingMapFromTo, if_neg (by simp [aligned_iff.mpr halign]; decide), if_neg (by decide),
      if_neg (by decide), pagingMapRange, if_neg (by simp [aligned_iff.mpr halign]; decide)]
    change pagingMapPages s.image.kernelPageDirectory va 0 3 (1023 + 1) s = _
    rw [pagingMapPages, bind_eq hfirst, if_neg (by simp)]
    exact hrest
  rw [mapFirstMegabytes, bind_get_eq, bind_eq hrun, if_neg (by simp)]
  rfl

/-- `paging_init` up to the kernel's own directory. -/
def pagingInitHead : K Word := do
  initPageBitmap ((KERNEL_HEAP_SIZE + PAGING_PAGE_SIZE - 1) / PAGING_PAGE_SIZE)
  let boot ← handles.alloc pageDirectoryHandleSize ⟨0, fun _ => 0⟩
  assign fun s => { s with currentDirectory := boot }
  let bootPageDirectory := (← get).image.bootPageDirectory
  handles.modify boot fun h => { h with directory := bootPageDirectory }
  newKernelDirectory
  pure boot

/-- The rest of it. -/
def pagingInitTail (boot : Word) : K Unit := do
  let kernel := (← get).image.kernelPageDirectory
  pagingLoadDirectory (← directoryPhysicalAddr kernel)
  assign fun s => { s with cr4 := s.cr4 &&& ~~~PSE_BIT }
  kfree boot
  assign fun s => { s with currentDirectory := kernel }

theorem pagingInit_eq : pagingInit = pagingInitHead >>= fun boot => mapFirstMegabytes 0 >>= fun _ =>
    mapFirstMegabytes KERNEL_VIRTUAL_BASE >>= fun _ => pagingInitTail boot := by
  simp only [pagingInit, pagingInitHead, pagingInitTail, bind_assoc, pure_bind]

end

/-- A boot: `_kernel_end` is a megabyte and a quarter into the kernel's range, and the heap begins a
page behind it. -/
def bootExample : Kernel :=
  { Kernel.blank ⟨0xC0110000, 0xC0120000, 0xC0101000, 0xC0130000, 0xC0100000, 0xC0140000⟩
      (fun n => [0xC0141000, 0xC0142000, 0xC0144000, 0xC0145000, 0xC0146000].getD n
        (0xC0200000 + BitVec.ofNat 32 (0x10000 * n)))
      (fun a => if a = 0xC0101000 then some bootEntries else none)
      (fun a => if a = 0xC0120000 then some ⟨0, fun _ => 0⟩ else none) with
    tasks := fun a => if a = 0xC0110000 then some (initialTask 0 0 false 0 0) else none
    cr4 := PSE_BIT }

theorem bootExample_boot : bootExample.Boot := by
  refine ⟨?_, by decide, rfl⟩
  change ¬ (some _ = none)
  simp

/-- The kernel's directory is empty. -/
def bootDirectory : Kernel := bootExample.after pagingInitHead

/-- Its first page is mapped. -/
def bootFirstPage : Kernel := bootDirectory.after (pagingMapPage 0xC0120000 0 0 3)

/-- All of the first page table. -/
def bootLow : Kernel := { bootFirstPage with
  tables := Function.update bootFirstPage.tables 0xC0145000
    (some (mapPages (Function.update (fun _ => 0) 0 3) 1 4096 1023)) }

/-- And the first page of the kernel's range. -/
def bootHigh : Kernel := bootLow.after (pagingMapPage 0xC0120000 0xC0000000 0 3)

/-- And all of it. -/
def bootMapped : Kernel := { bootHigh with
  tables := Function.update bootHigh.tables 0xC0146000
    (some (mapPages (Function.update (fun _ => 0) 0 3) 1 4096 1023)) }

def bootDone : Kernel := bootMapped.after (pagingInitTail 0xC0142000)

theorem pagingInit_bootExample : pagingInit bootExample = .ok ((), bootDone) := by
  have hlow : bootFirstPage.handles 0xC0120000 =
      some ⟨0xC0144000, Function.update (lastOnly 0xC0144000) 0 0xC0145000⟩ := rfl
  have hhigh : bootHigh.handles 0xC0120000 = some ⟨0xC0144000,
      Function.update (Function.update (lastOnly 0xC0144000) 0 0xC0145000) 768 0xC0146000⟩ := rfl
  have hlow' : mapFirstMegabytes 0 bootDirectory = .ok ((), bootLow) :=
    @mapFirstMegabytes_returns bootDirectory bootFirstPage 0 _ _ 0 (by decide) (by decide) rfl
      (by decide) hlow (by decide) rfl
  have hhigh' : mapFirstMegabytes KERNEL_VIRTUAL_BASE bootLow = .ok ((), bootMapped) :=
    @mapFirstMegabytes_returns bootLow bootHigh KERNEL_VIRTUAL_BASE _ _ 768 (by decide) (by decide)
      rfl (by decide) hhigh (by decide) rfl
  have hhead : pagingInitHead bootExample = .ok (0xC0142000, bootDirectory) := rfl
  rw [pagingInit_eq, bind_eq hhead, bind_eq hlow', bind_eq hhigh']
  rfl

/-! ## The extent of the heap -/

section

variable {s t : Kernel}

/-- After `paging_init`, an address of the heap is mapped where the kernel takes it to be if and only
if it is in the first four megabytes of the kernel's range; and not all of the heap is. -/
theorem heap_mapped_iff {x : Unit} (hboot : s.Boot) (hinit : pagingInit s = .ok (x, t)) :
    (∀ a, InKheap s.image.kernelEnd a → (t.MapsKernel a ↔
      KERNEL_VIRTUAL_BASE ≤ a ∧ a < KERNEL_VIRTUAL_BASE + 0x400000)) ∧
    ∃ a, InKheap s.image.kernelEnd a ∧ ¬ t.MapsKernel a := by
  have hp := pagingInit_ok hboot hinit
  refine ⟨fun a _ => ⟨fun hm => hp.of_mapsKernel hm, fun hr => hp.maps_high hr.1 hr.2⟩, ?_⟩
  have hb := (kheapBegin s.image.kernelEnd).isLt
  -- the begin of the heap, or else the address four megabytes above
  by_cases hr : 0xC0000000 ≤ (kheapBegin s.image.kernelEnd).toNat ∧
      (kheapBegin s.image.kernelEnd).toNat < 0xC0400000
  · refine ⟨kheapBegin s.image.kernelEnd + 0x400000, ?_, fun hm => ?_⟩
    · rw [InKheap, BitVec.add_comm, BitVec.add_sub_cancel]
      decide
    · have := hp.of_mapsKernel hm
      rw [BitVec.toNat_add] at this
      change _ ≤ (_ + 0x400000) % 2 ^ 32 ∧ (_ + 0x400000) % 2 ^ 32 < _ at this
      omega
  · refine ⟨kheapBegin s.image.kernelEnd, ?_, fun hm => hr (hp.of_mapsKernel hm)⟩
    rw [InKheap, BitVec.sub_self]
    decide

end

theorem heap_mapped_iff_bootExample : pagingInit bootExample = .ok ((), bootDone) ∧
    bootDone.MapsKernel (kheapBegin bootExample.image.kernelEnd) := by
  refine ⟨pagingInit_bootExample, ?_⟩
  exact ((heap_mapped_iff bootExample_boot pagingInit_bootExample).1 _ (by decide)).mpr (by decide)

/-- The heap begins inside the mapped four megabytes and ends outside. -/
theorem heap_not_mapped : pagingInit bootExample = .ok ((), bootDone) ∧
    KERNEL_VIRTUAL_BASE + 0x100000 ≤ bootExample.image.kernelEnd ∧
    InKheap bootExample.image.kernelEnd 0xC0400000 ∧ ¬ bootDone.MapsKernel 0xC0400000 := by
  refine ⟨pagingInit_bootExample, by decide, by decide, fun hm => ?_⟩
  have := (pagingInit_ok bootExample_boot pagingInit_bootExample).of_mapsKernel hm
  exact absurd this.2 (by decide)

end AvocadOS
