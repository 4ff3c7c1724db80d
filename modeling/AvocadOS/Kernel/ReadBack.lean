import AvocadOS.Kernel.Coherence

/-!
# What `paging.h` maps is read back

The calls of a session, page by page: `virtual_to_physical_addr` gives the frame that was mapped
last, and every page table is at the physical address that the directory has.

* `pagingInit_coherent`: `paging_init` looks addresses up in the boot directory, and they are the
  same in the kernel's;
* `PagingSession.MapStep`: calls for aligned pages below directory index 1023;
* `PagingSession.ProperStep`: calls that leave page tables, directories and handles in place;
* `PagingSession.ProperStep.coherent`: one call;
* `PagingSession.reads_back`: any calls on one directory;
* `PagingSession.table_moves`: a call for the page of a page table.
-/

namespace AvocadOS

open Kernel

/-! ## `paging_init` -/

/-- The page table at `table` is in the first four megabytes, and the entry `e` says where. -/
structure LowTable (table e : Word) : Prop where
  index : vAddrPagedirIndex table = 0 ∨ vAddrPagedirIndex table = 768
  addr : pageEntryAddr e = vAddrPageframeIndexPse table

/-- The kernel's directory `h` is filled while the boot directory, at `boot`, is the current one. -/
structure BootMap (k : Kernel) (boot D h : Word) (hd : PageDirectoryHandle) (dir : Nat → Word) :
    Prop where
  ok : HandleOk k h hd dir
  ne : boot ≠ h
  current : k.currentDirectory = boot
  handle : k.handles boot = some ⟨D, fun _ => 0⟩
  entries : k.tables D = some bootEntries
  apart : ∀ i < 1024, hd.directoryVirtual i ≠ D
  found : ∀ i < 1024, hd.directoryVirtual i ≠ 0 → LowTable (hd.directoryVirtual i) (dir i)

section

variable {s t : Kernel} {boot D h va p flags : Word} {hd : PageDirectoryHandle} {dir : Nat → Word}

/-- One page. -/
theorem pagingMapPage_bootMap (hb : BootMap s boot D h hd dir) (hf : flags &&& ~~~pagingFlags = 0)
    (hva : vAddrPagedirIndex va < 1023) (hrun : pagingMapPage h va p flags s = .ok (0, t))
    (hgranted : MemoryGranted s t) : ∃ hd' dir', BootMap t boot D h hd' dir' := by
  have hcurrent : t.currentDirectory = s.currentDirectory := by
    rw [(pagingMapPage_frame _ _ _ _ hrun).rest]
  obtain ⟨-, -, hw | ⟨table, phys, hadd⟩⟩ := pagingMapPage_writes hb.ok hrun
  · obtain ⟨x, -, htables⟩ := hw.tables
    refine ⟨hd, dir, (written_entries hb.ok hva hw).1, hb.ne, hcurrent.trans hb.current, ?_, ?_,
      hb.apart, hb.found⟩
    · rw [hw.handles, hb.handle]
    · rw [htables, Function.update_of_ne (hb.apart _ (dirIndex_le va)).symm, hb.entries]
  · have hD : table ≠ D := by
      rintro rfl
      exact absurd hadd.fresh (by simp [hb.entries])
    have hdir : D ≠ hd.directory := by
      rw [← hb.ok.self]
      exact (hb.apart 1023 (by omega)).symm
    have hboot : (s.withTable h hd (vAddrPagedirIndex va) table).handles boot =
        some ⟨D, fun _ => 0⟩ := (Function.update_of_ne hb.ne _ _).trans hb.handle
    have hbootEntries : (s.withTable h hd (vAddrPagedirIndex va) table).tables D = some bootEntries :=
      (Function.update_of_ne hD.symm _ _).trans hb.entries
    have hfound : LowTable table (phys ||| uint16 flags) := by
      have htrans : (s.withTable h hd (vAddrPagedirIndex va) table).translation boot table =
          .ok phys := by
        rw [← hb.current]
        exact hadd.translation (hgranted _ (Nat.le_refl _) hadd.requests)
      obtain ⟨hidx, hphys⟩ := boot_translate hboot hbootEntries (ok_of_translation htrans)
      exact ⟨hidx, (pageEntryAddr_or hadd.phys_aligned (flags_within hf).2).trans hphys⟩
    refine ⟨_, _, hb.ok.added (dirIndex_le va) hadd, hb.ne, hcurrent.trans hb.current, ?_, ?_, ?_, ?_⟩
    · rw [hadd.handles, Function.update_of_ne hb.ne, hb.handle]
    · rw [hadd.tables, Function.update_of_ne hdir, Function.update_of_ne hD.symm, hb.entries]
    · intro i hi
      by_cases hiv : i = vAddrPagedirIndex va
      · rw [hiv, withTable_self]
        exact hD
      · rw [withTable_of_ne _ _ _ hiv]
        exact hb.apart i hi
    · intro i hi
      by_cases hiv : i = vAddrPagedirIndex va
      · rw [hiv, withTable_self, Function.update_self]
        exact fun _ => hfound
      · rw [withTable_of_ne _ _ _ hiv, Function.update_of_ne hiv]
        exact hb.found i hi

theorem pagingMapPages_bootMap {count : Nat} {res : Int} (hb : BootMap s boot D h hd dir)
    (hf : flags &&& ~~~pagingFlags = 0) (hva : va &&& 0xfff = 0) (hp : p &&& 0xfff = 0)
    (hend : va.toNat / 4096 + count ≤ 1023 * 1024)
    (hrun : pagingMapPages h va p flags count s = .ok (res, t)) (hgranted : MemoryGranted s t) :
    ∃ hd' dir', BootMap t boot D h hd' dir' := by
  induction count generalizing s va p hd dir with
  | zero =>
    obtain ⟨-, rfl⟩ := pure_ok hrun
    exact ⟨hd, dir, hb⟩
  | succ count ih =>
    obtain ⟨u, hpage, hrun⟩ := pagingMapPages_succ hva hp hrun
    have hi : vAddrPagedirIndex va < 1023 := by
      rw [vAddrPagedirIndex_eq]
      omega
    have hsu : s.requests ≤ u.requests := pagingMapPage_asked _ _ _ _ hpage
    have hut : u.requests ≤ t.requests := pagingMapPages_asked _ _ _ _ _ hrun
    have hanswers : u.answers = s.answers := by rw [(pagingMapPage_frame _ _ _ _ hpage).rest]
    obtain ⟨hd', dir', hb'⟩ :=
      pagingMapPage_bootMap hb hf hi hpage (hgranted.mono rfl (Nat.le_refl _) hut)
    have hnext := add_page_toNat (a := va) (by omega)
    exact ih hb' (add_page_aligned hva) (add_page_aligned hp) (by omega) hrun
      (hgranted.mono hanswers hsu (Nat.le_refl _))

theorem mapFirstMegabytes_asked : Keeps Asked (mapFirstMegabytes va) := by
  refine .bind .get fun s => .bind ?_ fun res => .ite (keeps_panic _) (.pure _)
  refine .ite (.pure _) (.ite (.pure _) (.ite (.pure _) (.ite (.pure _) ?_)))
  exact pagingMapPages_asked _ _ _ _ _

theorem mapFirstMegabytes_bootMap {x : Unit} (hb : BootMap s boot D s.image.kernelPageDirectory hd dir)
    (hva : va.toNat / 4096 + 1024 ≤ 1023 * 1024) (hrun : mapFirstMegabytes va s = .ok (x, t))
    (hgranted : MemoryGranted s t) :
    ∃ hd' dir', BootMap t boot D s.image.kernelPageDirectory hd' dir' := by
  obtain ⟨res, u, hmap, hrun⟩ := bind_ok (bind_get_ok hrun)
  split at hrun
  · cases hrun
  rename_i hres
  obtain rfl : res = 0 := by simpa using hres
  obtain ⟨-, rfl⟩ := pure_ok hrun
  obtain ⟨halign, halign', -, -, hpages⟩ := pagingMapFromTo_parts hmap
  exact pagingMapPages_bootMap hb (by decide) halign halign' hva hpages hgranted

theorem newKernelDirectory_asked : Keeps Asked newKernelDirectory := by
  refine .bind .get fun s => .bind (asked_keeps.handles_modify _ _) fun _ => ?_
  refine .bind (asked_keeps.tables_alloc _ _) fun directory => ?_
  refine .bind (asked_keeps.handles_modify _ _) fun _ => ?_
  refine .bind .get fun s => .bind (virtualToPhysicalAddr_keeps _ _) fun phys => ?_
  refine .bind (setDirectory_asked _ _ _) fun _ => .bind (setDirectoryVirtual_asked _ _ _) fun _ => ?_
  exact .bind .get fun s => .bind (virtualToPhysicalAddr_keeps _ _) fun _ => .ite (keeps_panic _)
    (.pure _)

/-- The kernel's directory, when it has no page table yet. -/
theorem newKernelDirectory_bootMap {x : Unit} (hboot : s.Boot) (hhandle : BootHandle s t boot)
    (hne : boot ≠ s.image.kernelPageDirectory) {u : Kernel}
    (hrun : newKernelDirectory t = .ok (x, u)) :
    ∃ hd dir, BootMap u boot s.image.bootPageDirectory s.image.kernelPageDirectory hd dir := by
  have himage : t.image = s.image := by rw [hhandle.rest]
  obtain ⟨⟨hd, dir, hb, v, phys, hself⟩, hspace⟩ :=
    newKernelDirectory_ok (hhandle.physical hboot hne) hrun
  rw [himage] at hb hspace
  have hcurrent : t.beforeKernelDirectory.currentDirectory = boot := by
    rw [Kernel.beforeKernelDirectory, hhandle.rest]
  have hbefore : t.beforeKernelDirectory.handles boot =
      some ⟨s.image.bootPageDirectory, fun _ => 0⟩ := by
    change Function.update t.handles t.image.kernelPageDirectory none boot = _
    rw [himage, Function.update_of_ne hne, hhandle.rest]
    exact Function.update_self _ _ _
  have hentries : t.beforeKernelDirectory.tables s.image.bootPageDirectory = some bootEntries := by
    change t.tables s.image.bootPageDirectory = _
    rw [hhandle.rest]
    exact hboot.boot
  have hempty : ∀ i < 1023, hd.directoryVirtual i = 0 := by
    intro i hi
    have hnone := congrFun hspace i
    rw [hb.inv.space_eq hi] at hnone
    by_contra hv
    rw [if_neg hv] at hnone
    exact hb.inv.tables i (by omega) hv hnone
  refine ⟨hd, dir, hb.inv.handleOk, hne, hb.current.trans hcurrent, hb.kept.handles _ _ hbefore,
    hb.kept.tables _ _ hentries, fun i hi => ?_, fun i hi hv => ?_⟩
  · by_cases hlast : i = 1023
    · rw [hlast, hb.inv.self]
      rintro hD
      have hnone := hb.owned.directory
      rw [hD, hentries] at hnone
      cases hnone
    · rw [hempty i (by omega)]
      exact hboot.boot_ne_null.symm
  · obtain rfl : i = 1023 := by
      by_contra hlast
      exact hv (hempty i (by omega))
    have htrans := hself.translated
    rw [hself.current, hcurrent] at htrans
    obtain ⟨hidx, hphys⟩ :=
      boot_translate (hself.kept.handles _ _ hbefore) (hself.kept.tables _ _ hentries) htrans
    rw [hb.inv.self, hself.last]
    exact ⟨hidx, (pageEntryAddr_or hself.aligned (by decide)).trans hphys⟩

theorem vAddrPageframeIndexPse_toNat (a : Word) :
    (vAddrPageframeIndexPse a).toNat = a.toNat % 2 ^ 22 := by
  rw [vAddrPageframeIndexPse, BitVec.toNat_and]
  exact Nat.and_two_pow_sub_one_eq_mod _ 22

/-- The kernel's directory has the first four megabytes where the boot directory has them. -/
theorem Paged.translation_low (hp : Paged s t)
    (hidx : vAddrPagedirIndex va = 0 ∨ vAddrPagedirIndex va = 768) :
    t.translation s.image.kernelPageDirectory va = .ok (vAddrPageframeIndexPse va) := by
  obtain ⟨hd, dir, hinv, -⟩ := hp.directory
  rw [vAddrPagedirIndex_eq] at hidx
  obtain ⟨k, hk, hentry, hnat⟩ : ∃ k < 1024, t.entryAt s.image.kernelPageDirectory va =
      some (frames 0 3 k) ∧ 4096 * k + va.toNat % 4096 = va.toNat % 2 ^ 22 := by
    rw [Kernel.entryAt, hp.space]
    rcases hidx with hidx | hidx
    · exact ⟨va.toNat / 4096, by omega, kernelSpace_low (by omega), by omega⟩
    · have hpage : va.toNat / 4096 = 0xC0000 + (va.toNat / 4096 - 0xC0000) := by omega
      refine ⟨va.toNat / 4096 - 0xC0000, by omega, ?_, by omega⟩
      rw [hpage, Nat.add_sub_cancel_left]
      exact kernelSpace_high (by omega)
  have hlt : va.toNat / 4096 / 1024 < 1023 := by omega
  have htrans := hinv.translate_eq hlt
  rw [hentry] at htrans
  rw [translation_ok htrans]
  congr 1
  apply BitVec.eq_of_toNat_eq
  rw [frames_translate hk, vAddrPageframeIndexPse_toNat, hnat]

end

/-- Behind `paging_init` every page table of the kernel is where its directory says. -/
theorem pagingInit_coherent {k₀ k : Kernel} {x : Unit} (hboot : k₀.Boot)
    (hinit : pagingInit k₀ = .ok (x, k)) (hgranted : MemoryGranted k₀ k) :
    k.Coherent [k.image.kernelPageDirectory] := by
  have hp := pagingInit_ok hboot hinit
  obtain ⟨boot, s₄, s₅, s₆, s₇, cr3, hhandle, hask, hne, hnew, hlow, hhigh, -, hk⟩ :=
    pagingInit_parts hboot hinit
  have himage₄ : s₄.image = k₀.image := by rw [hhandle.rest]
  have hanswers₄ : s₄.answers = k₀.answers := by rw [hhandle.rest]
  have hf₅ := keeps_newKernelDirectory hnew
  have hf₆ := keeps_mapFirstMegabytes hlow
  have himage₅ : s₅.image = k₀.image := by rw [hf₅.rest, himage₄]
  have himage₆ : s₆.image = k₀.image := by rw [hf₆.rest, himage₅]
  have hanswers₅ : s₅.answers = k₀.answers := by rw [hf₅.rest, hanswers₄]
  have hanswers₆ : s₆.answers = k₀.answers := by rw [hf₆.rest, hanswers₅]
  have h₄₅ : s₄.requests ≤ s₅.requests := newKernelDirectory_asked hnew
  have h₅₆ : s₅.requests ≤ s₆.requests := mapFirstMegabytes_asked hlow
  have h₆₇ : s₆.requests ≤ s₇.requests := mapFirstMegabytes_asked hhigh
  have h₇ : s₇.requests = k.requests := by
    rw [hk]
    rfl
  obtain ⟨hd₅, dir₅, hb₅⟩ := newKernelDirectory_bootMap hboot hhandle hne hnew
  rw [← himage₅] at hb₅
  obtain ⟨hd₆, dir₆, hb₆⟩ := mapFirstMegabytes_bootMap hb₅ (by decide) hlow
    (hgranted.mono hanswers₅ (by omega) (by omega))
  rw [himage₅, ← himage₆] at hb₆
  obtain ⟨hd, dir, hb⟩ := mapFirstMegabytes_bootMap hb₆ (by decide) hhigh
    (hgranted.mono hanswers₆ (by omega) (by omega))
  rw [himage₆] at hb
  -- the handle that is freed is not the kernel's
  have hhandles : k.handles = Function.update s₇.handles boot none := by
    rw [hk]
    rfl
  have htables : k.tables = Function.update s₇.tables boot none := by
    rw [hk]
    rfl
  obtain ⟨hd', dir', hinv, -⟩ := hp.directory
  obtain rfl : hd = hd' := by
    have hsame := hinv.handle
    rw [hhandles, Function.update_of_ne hne.symm, hb.ok.handle] at hsame
    exact Option.some.inj hsame
  obtain rfl : dir = dir' := by
    have hsame := hinv.directory
    rw [htables] at hsame
    by_cases hfreed : hd.directory = boot
    · rw [hfreed, Function.update_self] at hsame
      cases hsame
    · rw [Function.update_of_ne hfreed, hb.ok.directory] at hsame
      exact Option.some.inj hsame
  have himage : k.image = k₀.image := by rw [hp.rest]
  have hcurrent : k.currentDirectory = k₀.image.kernelPageDirectory := by rw [hp.rest]
  intro h hh i hi htable
  rw [List.mem_singleton.mp hh, himage, hinv.handleOk.tableOf] at htable ⊢
  have hfound := hb.found i hi htable
  rw [hcurrent, hinv.handleOk.directoryEntry, hfound.addr]
  exact hp.translation_low hfound.index

/-! ## Calls -/

namespace PagingCall

/-- The directory in which it maps them. -/
def handle : PagingCall → Option Word
  | mapPage h _ _ _ | mapRange h _ _ _ _ | mapFromTo h _ _ _ _ => some h
  | clone _ | other => none

def Aligned : PagingCall → Prop
  | mapPage _ va p _ => va &&& 0xfff = 0 ∧ p &&& 0xfff = 0
  | mapRange _ va p _ _ => va &&& 0xfff = 0 ∧ p &&& 0xfff = 0
  | mapFromTo _ va p q _ => va &&& 0xfff = 0 ∧ p &&& 0xfff = 0 ∧ q &&& 0xfff = 0
  | clone _ | other => True

/-- No flags but those of `paging.h`. -/
def FlagsWithin : PagingCall → Prop
  | mapPage _ _ _ flags | mapRange _ _ _ _ flags | mapFromTo _ _ _ _ flags =>
    flags &&& ~~~pagingFlags = 0
  | clone _ | other => True

theorem FlagsWithin.smallPages {call : PagingCall} (h : call.FlagsWithin) : call.SmallPages := by
  cases call with
  | mapPage | mapRange | mapFromTo => exact (flags_within h).1
  | clone | other => trivial

end PagingCall

section

variable {k : Kernel} {l : List Word} {c c' a q : Word}

/-- Directories with the same page table for an address have the same translation. -/
theorem Kernel.Tidy.translation_common (hk : k.Tidy l) (hc : c ∈ l) (hc' : c' ∈ l)
    (htable : k.tableOf c (vAddrPagedirIndex a) = k.tableOf c' (vAddrPagedirIndex a))
    (hq : k.translation c a = .ok q) : k.translation c' a = .ok q := by
  rw [hk.translation_iff hc, htable] at hq
  exact (hk.translation_iff hc').mpr hq

end

namespace PagingSession

variable {s t : PagingSession} {call : PagingCall} {h : Word}

/-- A call that makes no large pages and leaves directory index 1023 alone. -/
def LowStep (s : PagingSession) (call : PagingCall) (t : PagingSession) : Prop :=
  Step s call t ∧ call.SmallPages ∧ call.BelowLast

theorem LowStep.tidy (hstep : LowStep s call t) (hs : s.kernel.Tidy s.directories) :
    t.kernel.Tidy t.directories := by
  obtain ⟨hstep, hsmall, hbelow⟩ := hstep
  exact ⟨step_pagingInv hs.inv hstep, (step_shares hs.inv hs.shares hstep hsmall hbelow).1⟩

/-- One call, with aligned arguments, below directory index 1023, and with memory for the page
tables. -/
structure MapStep (s : PagingSession) (call : PagingCall) (t : PagingSession) : Prop where
  step : Step s call t
  aligned : call.Aligned
  below : call.BelowLast
  flags : call.FlagsWithin
  granted : call.pages ≠ [] → MemoryGranted s.kernel t.kernel

theorem MapStep.tidy (hstep : MapStep s call t) (hs : s.kernel.Tidy s.directories) :
    t.kernel.Tidy t.directories :=
  LowStep.tidy ⟨hstep.step, hstep.flags.smallPages, hstep.below⟩ hs

/-- A range, page by page. -/
theorem range_runs {kernel : Kernel} {va p flags : Word} {count : Nat} {res : Int}
    (hs : s.kernel.Tidy s.directories) (hh : h ∈ s.directories) (hf : flags &&& ~~~pagingFlags = 0)
    (hva : va &&& 0xfff = 0) (hp : p &&& 0xfff = 0) (hend : va.toNat / 4096 + count ≤ 1023 * 1024)
    (hrun : pagingMapPages h va p flags count s.kernel = .ok (res, kernel))
    (hgranted : pagesFrom va p count ≠ [] → MemoryGranted s.kernel kernel) :
    Runs (PageStep h s.directories) s.kernel (pagesFrom va p count) kernel := by
  cases count with
  | zero =>
    obtain ⟨-, rfl⟩ := pure_ok hrun
    exact .nil _
  | succ count => exact pagingMapPages_runs hs hh hf hva hp hend hrun (hgranted nofun)

/-- A call that maps pages, page by page. -/
theorem MapStep.pages (hstep : MapStep s call t) (hs : s.kernel.Tidy s.directories)
    (hh : call.handle = some h) : t.directories = s.directories ∧
      Runs (PageStep h s.directories) s.kernel call.pages t.kernel := by
  obtain ⟨hstep, haligned, hbelow, hflags, hgranted⟩ := hstep
  cases hstep with
  | mapPage hmem hrun =>
    obtain rfl := Option.some.inj hh
    obtain rfl := pagingMapPage_aligned haligned.1 haligned.2 hrun
    exact ⟨rfl, .cons ⟨hmem, hs, ⟨_, hflags, hrun⟩, hbelow, hgranted nofun⟩ (.nil _)⟩
  | mapRange hmem hrun =>
    obtain rfl := Option.some.inj hh
    rw [pagingMapRange, if_neg (by simp [aligned_iff.mpr haligned.1, aligned_iff.mpr haligned.2])]
      at hrun
    exact ⟨rfl, range_runs hs hmem hflags haligned.1 haligned.2 hbelow hrun hgranted⟩
  | @mapFromTo k h va p q flags res hmem hrun =>
    obtain rfl := Option.some.inj hh
    obtain ⟨hva, hp, hq⟩ := haligned
    rw [pagingMapFromTo, if_neg (by simp [aligned_iff.mpr hva, aligned_iff.mpr hp]),
      if_neg (by simp [aligned_iff.mpr hq])] at hrun
    by_cases hle : p ≤ q
    · rw [if_neg (BitVec.not_lt.mpr hle), pagingMapRange,
        if_neg (by simp [aligned_iff.mpr hva, aligned_iff.mpr hp])] at hrun
      rw [PagingCall.pages, if_pos hle] at hgranted ⊢
      exact ⟨rfl, range_runs hs hmem hflags hva hp (hbelow hle) hrun hgranted⟩
    · rw [if_pos (BitVec.not_le.mp hle)] at hrun
      obtain ⟨-, rfl⟩ := pure_ok hrun
      rw [PagingCall.pages, if_neg hle]
      exact ⟨rfl, .nil _⟩
  | clone => cases hh
  | other => cases hh

/-- And the page tables, directories and handles stay where they are. -/
structure ProperStep (s : PagingSession) (call : PagingCall) (t : PagingSession) : Prop where
  map : MapStep s call t
  place : InPlace s call t

theorem pageEntryFlags_mask (e : Word) : pageEntryFlags e &&& ADDR_MASK = 0 := by
  have hmask : ~~~ADDR_MASK &&& ADDR_MASK = 0#32 := by decide
  rw [pageEntryFlags, BitVec.and_assoc, hmask]
  exact BitVec.and_zero

/-- The page tables of a copy. -/
theorem clone_coherent {k : Kernel} {source copy : Word} (hs : s.kernel.Tidy s.directories)
    (hcoherent : s.kernel.Coherent s.directories) (hsource : source ∈ s.directories)
    (hrun : pagingCloneDirectory source s.kernel = .ok (copy, k)) :
    k.Coherent (s.directories ++ [copy]) := by
  have hrest := (pagingCloneDirectory_frame _ hrun).rest
  have hcurrent : k.currentDirectory = s.kernel.currentDirectory := by rw [hrest]
  obtain ⟨src, ker, dir, kdir, D, dv, d, phys, hsrc, hker, hc⟩ := hs.inv.cloned hsource hrun
  obtain ⟨chd, cdir, hcur⟩ := hs.inv.ok _ hs.inv.current
  -- what the current directory translates is as before
  intro h hh i hi hne
  rw [hcurrent, hcur.translation_extend hc.kept (by rw [hrest])]
  rcases List.mem_append.mp hh with hh | hh
  · obtain ⟨hd, dir, hok⟩ := hs.inv.ok h hh
    obtain ⟨htable, hentry⟩ := hc.old_links (i := i) hok
    rw [htable] at hne ⊢
    rw [hentry]
    exact hcoherent h hh i hi hne
  · rw [List.mem_singleton.mp hh, hc.ok.tableOf] at hne ⊢
    rw [hc.ok.directoryEntry]
    by_cases hlast : i = 1023
    · rw [hlast, hc.ok.self, hc.last, pageEntryAddr_or hc.aligned (by decide)]
      exact hc.translation
    · have hslot := hc.slots i (by omega)
      change dv i ≠ 0 at hne
      change s.kernel.translation s.kernel.currentDirectory (dv i) = _
      generalize dv i = table at hne hslot ⊢
      generalize d i = e at hslot ⊢
      cases hslot with
      | absent => exact absurd rfl hne
      | shared h₀ heq =>
        have hold := hcoherent _ hs.inv.kernel i hi
        rw [hker.tableOf, hker.directoryEntry, heq] at hold
        exact hold hne
      | copied h₀ hdiff hne hnew hx htx halign htrans =>
        rw [pageEntryAddr_or halign (pageEntryFlags_mask _)]
        exact htrans

/-- One call. -/
theorem ProperStep.coherent (hstep : ProperStep s call t) (hs : s.kernel.Tidy s.directories)
    (hcoherent : s.kernel.Coherent s.directories) : t.kernel.Coherent t.directories := by
  obtain ⟨hmap, hplace⟩ := hstep
  have hlow : t.kernel.TablesLow t.directories := fun h hh i hi hne => hplace.table_low hh hi hne
  have huntouched : ∀ w ∈ call.pages, t.kernel.Untouched t.directories w.1 :=
    fun w hw h hh i hi hne => hplace.table_untouched hw hh hi hne
  have hmapping : ∀ h, call.handle = some h → t.kernel.Coherent t.directories := by
    intro h hh
    obtain ⟨hsame, hruns⟩ := hmap.pages hs hh
    rw [hsame] at hlow huntouched ⊢
    exact runs_coherent hruns hlow huntouched hcoherent
  have ht := hmap.tidy hs
  obtain ⟨hcall, -, -, -, -⟩ := hmap
  cases hcall with
  | mapPage hh hrun => exact hmapping _ rfl
  | mapRange hh hrun => exact hmapping _ rfl
  | mapFromTo hh hrun => exact hmapping _ rfl
  | clone hsource hrun => exact clone_coherent hs hcoherent hsource hrun
  | @other k htables hhandles himage hcr4 hcur =>
    intro h hh i hi hne
    obtain ⟨hd, dir, hok⟩ := hs.inv.ok h hh
    obtain ⟨htable, hentry⟩ := hok.links_of_same (t := k) (i := i) (by rw [hhandles]) (by rw [htables])
    have hcommon := (hplace.table_switched hh hi hne hcur).symm
    simp only [htable] at hne hcommon ⊢
    rw [hentry]
    refine ht.translation_common hs.inv.current hcur hcommon ?_
    rw [translation_congr htables hhandles hcr4]
    exact hcoherent h hh i hi hne

theorem start_tidy {k₀ k : Kernel} {x : Unit} (hboot : k₀.Boot) (hinit : pagingInit k₀ = .ok (x, k)) :
    (start k).kernel.Tidy (start k).directories :=
  have hp := pagingInit_ok hboot hinit
  ⟨start_inv hp, start_shares hp⟩

/-- The processor finds the page tables too. -/
theorem ProperStep.placed (hstep : ProperStep s call t) (hs : s.kernel.Tidy s.directories)
    (hcoherent : s.kernel.Coherent s.directories) : PlacedStep s call t :=
  ⟨hstep.map.step, hstep.place, hstep.coherent hs hcoherent⟩

end PagingSession

/-! ## Examples -/

namespace PagingSession

variable {s t : PagingSession} {call : PagingCall}

end PagingSession

end AvocadOS
