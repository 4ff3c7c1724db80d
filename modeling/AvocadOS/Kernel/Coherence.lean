import AvocadOS.Kernel.Sharing
import AvocadOS.Lib.Writes

/-!
# Mappings are read back

A directory has each page table twice: its address as the kernel sees it, in `directory_virtual`, and
its physical address, in `directory`. The second stays the translation of the first (`Coherent`).

* `PageStep`: one page is mapped;
* `PageStep.hit`, `PageStep.miss`: what is read back then;
* `PageStep.coherent`: if it is not a page with a page table, the two addresses of every page table
  still agree.
-/

namespace AvocadOS

open Kernel

/-! ## Requests -/

/-- Only more memory was asked for. -/
def Asked (s t : Kernel) : Prop := s.requests ≤ t.requests

instance : Std.Refl Asked := ⟨fun s => Nat.le_refl s.requests⟩

instance : Trans Asked Asked Asked where
  trans {s t _} h₁ h₂ := Nat.le_trans (show s.requests ≤ t.requests from h₁) h₂

/-- There was memory for every request from `s` to `t`. -/
def MemoryGranted (s t : Kernel) : Prop := ∀ n, s.requests ≤ n → n < t.requests → s.answers n ≠ 0

section

variable {s t u : Kernel} {l : List Word} {h h' va p flags table phys q : Word}
  {hd hd' : PageDirectoryHandle} {dir dir' : Nat → Word} {i j : Nat}

theorem asked_keeps : PagingKeeps Asked := by
  refine ⟨fun p f s x t h => ?_, fun p f s x t h => ?_, fun size y s x t h => ?_,
    fun size y s x t h => ?_⟩
  · obtain ⟨-, y, -, rfl⟩ := Store.modify_ok h
    exact Nat.le_refl _
  · obtain ⟨-, y, -, rfl⟩ := Store.modify_ok h
    exact Nat.le_refl _
  · rcases Store.alloc_ok h with ⟨-, rfl⟩ | ⟨-, -, rfl⟩ <;> exact Nat.le_succ _
  · rcases Store.alloc_ok h with ⟨-, rfl⟩ | ⟨-, -, rfl⟩ <;> exact Nat.le_succ _

theorem setDirectory_asked (h : Word) (i : Nat) (e : Word) : Keeps Asked (setDirectory h i e) :=
  asked_keeps.setDirectory _ _ _

theorem setDirectoryVirtual_asked (h : Word) (i : Nat) (table : Word) :
    Keeps Asked (setDirectoryVirtual h i table) :=
  asked_keeps.setDirectoryVirtual _ _ _

theorem pagingMapPage_asked (h va p flags : Word) : Keeps Asked (pagingMapPage h va p flags) :=
  asked_keeps.pagingMapPage _ _ _ _

theorem pagingMapPages_asked (h va p flags : Word) (count : Nat) :
    Keeps Asked (pagingMapPages h va p flags count) :=
  asked_keeps.pagingMapPages _ _ _ _ _

theorem MemoryGranted.mono {v : Kernel} (hg : MemoryGranted s v) (hanswers : t.answers = s.answers)
    (hst : s.requests ≤ t.requests) (huv : u.requests ≤ v.requests) : MemoryGranted t u := by
  intro n h₁ h₂
  rw [hanswers]
  exact hg n (Nat.le_trans hst h₁) (Nat.lt_of_lt_of_le h₂ huv)

/-! ## One page -/

/-- Without large pages, what translates has an entry. -/
theorem HandleOk.translation_of_ok (hok : HandleOk s h hd dir)
    (hpse : pageEntryPseBit (dir (vAddrPagedirIndex va)) = 0) (hq : s.translation h va = .ok q) :
    hd.directoryVirtual (vAddrPagedirIndex va) ≠ 0 ∧
      ∃ x, s.tables (hd.directoryVirtual (vAddrPagedirIndex va)) = some x ∧
        q = pageEntryAddr (x (vAddrPagetblIndex va)) + vAddrPageframeIndex va := by
  by_cases hv : hd.directoryVirtual (vAddrPagedirIndex va) = 0
  · have hnull : s.translation h va = .error .nullDeref := by
      rw [Kernel.translation, virtualToPhysicalAddr, bind_eq (Store.load_eq hok.ne_null hok.handle),
        bind_eq (Store.load_eq hok.directory_ne_null hok.directory), if_neg (by simp [hpse]), hv]
      rfl
    rw [hnull] at hq
    cases hq
  · obtain ⟨x, hx⟩ := Option.ne_none_iff_exists'.mp (hok.tables _ (dirIndex_le va) hv)
    rw [hok.translation_small hpse hv hx] at hq
    exact ⟨hv, x, hx, (Except.ok.inj hq).symm⟩

/-- Two addresses with the same indices are on one page. -/
theorem page_eq {a b : Word} (hi : vAddrPagedirIndex a = vAddrPagedirIndex b)
    (hj : vAddrPagetblIndex a = vAddrPagetblIndex b) : a.toNat / 4096 = b.toNat / 4096 := by
  rw [vAddrPagedirIndex_eq, vAddrPagedirIndex_eq] at hi
  rw [vAddrPagetblIndex_eq, vAddrPagetblIndex_eq] at hj
  omega

/-- No page table and no directory is in the range in which directories map themselves. -/
def Kernel.TablesLow (k : Kernel) (l : List Word) : Prop :=
  ∀ h ∈ l, ∀ i < 1024, k.tableOf h i ≠ 0 → vAddrPagedirIndex (k.tableOf h i) < 1023

/-- None of them is on the page of `va`. -/
def Kernel.Untouched (k : Kernel) (l : List Word) (va : Word) : Prop :=
  ∀ h ∈ l, ∀ i < 1024, k.tableOf h i ≠ 0 → (k.tableOf h i).toNat / 4096 ≠ va.toNat / 4096

/-- A translation does not change when an entry for another page is written. -/
theorem written_translation {cur a e : Word} {chd : PageDirectoryHandle} {cdir : Nat → Word}
    (hl : HandlesOk s l) (hsh : s.Shares l) (hh : h ∈ l) (hcur : cur ∈ l) (hok : HandleOk s h hd dir)
    (hc : HandleOk s cur chd cdir) (hi : vAddrPagedirIndex va < 1023)
    (hw : EntryWritten s t hd (vAddrPagedirIndex va) (vAddrPagetblIndex va) e)
    (hpage : a.toNat / 4096 ≠ va.toNat / 4096) (hq : s.translation cur a = .ok q) :
    t.translation cur a = .ok q := by
  have hsmall : pageEntryPseBit (cdir (vAddrPagedirIndex a)) = 0 := by
    rw [← hc.directoryEntry]
    exact hsh.small cur hcur _ (dirIndex_le a)
  obtain ⟨hne, x, hx, rfl⟩ := hc.translation_of_ok hsmall hq
  obtain ⟨y, hy, htables⟩ := hw.tables
  -- the directory is not written
  have hlinks := written_links hl hsh hh hok hi hw hcur (k := vAddrPagedirIndex a)
  have hmono : ∀ b, s.tables b ≠ none → t.tables b ≠ none := by
    intro b hb
    rw [htables]
    exact update_ne_none hb
  obtain ⟨cdir', hc'⟩ := hc.keep (by rw [hw.handles]) hmono
  rw [hc'.directoryEntry, hc.directoryEntry] at hlinks
  have hsmall' : pageEntryPseBit (cdir' (vAddrPagedirIndex a)) = 0 := hlinks.2 ▸ hsmall
  by_cases he : chd.directoryVirtual (vAddrPagedirIndex a) = hd.directoryVirtual (vAddrPagedirIndex va)
  · -- the page table is written, in another entry
    rw [he] at hx
    obtain rfl := Option.some.inj (hy.symm.trans hx)
    have hidx : vAddrPagedirIndex a = vAddrPagedirIndex va := by
      by_cases hch : cur = h
      · subst hch
        obtain ⟨rfl, -⟩ := hok.unique hc
        exact hok.inj _ (dirIndex_le a) _ (dirIndex_le va) hne he
      · refine (hsh.shared cur hcur h hh hch _ (dirIndex_le a) _ (dirIndex_le va) ?_ ?_).1
        · rwa [hc.tableOf]
        · rwa [hc.tableOf, hok.tableOf]
    have hj : vAddrPagetblIndex a ≠ vAddrPagetblIndex va := fun hj => hpage (page_eq hidx hj)
    rw [hc'.translation_small (x := Function.update y (vAddrPagetblIndex va) e) hsmall' hne]
    · rw [Function.update_of_ne hj]
    · rw [he, htables, Function.update_self]
  · refine hc'.translation_small hsmall' hne ?_
    rw [htables, Function.update_of_ne he, hx]

/-- The state in which the address of a new page table is looked up. -/
def Kernel.withTable (s : Kernel) (h : Word) (hd : PageDirectoryHandle) (i : Nat) (table : Word) :
    Kernel :=
  { s with
    tables := Function.update s.tables table (some fun _ => 0)
    handles := Function.update s.handles h (some (hd.withTable i table)) }

/-- What another directory translates is not changed by a new page table. -/
theorem added_translation_other {cur a e : Word} {chd : PageDirectoryHandle} {cdir : Nat → Word}
    (hsh : s.Shares l) (hh : h ∈ l) (hcur : cur ∈ l) (hne : cur ≠ h) (hok : HandleOk s h hd dir)
    (hc : HandleOk s cur chd cdir) (hcr4 : t.cr4 = s.cr4)
    (hadd : TableAdded s t h hd dir i j e flags table phys) :
    t.translation cur a = s.translation cur a ∧
      (s.withTable h hd i table).translation cur a = s.translation cur a := by
  have hkeep : ∀ k < 1024, chd.directoryVirtual k ≠ table ∧ chd.directoryVirtual k ≠ hd.directory :=
    fun k hk => ⟨hc.ne_of_fresh hadd.ne_null hadd.fresh hk, hsh.ne_directory hh hcur hne hok hc hk⟩
  have htables : ∀ k < 1024, t.tables (chd.directoryVirtual k) = s.tables (chd.directoryVirtual k) ∧
      (s.withTable h hd i table).tables (chd.directoryVirtual k) =
        s.tables (chd.directoryVirtual k) := by
    intro k hk
    rw [hadd.tables, Function.update_of_ne (hkeep k hk).2, Function.update_of_ne (hkeep k hk).1]
    exact ⟨rfl, Function.update_of_ne (hkeep k hk).1 _ _⟩
  have hlast := htables 1023 (by omega)
  rw [hc.self] at hlast
  constructor
  · refine translation_of_same (by rw [hadd.handles, Function.update_of_ne hne]) ?_ ?_ hcr4
    · intro hd' hhd'
      obtain rfl := Option.some.inj (hc.handle.symm.trans hhd')
      exact hlast.1
    · intro hd' hhd' _
      obtain rfl := Option.some.inj (hc.handle.symm.trans hhd')
      exact (htables _ (dirIndex_le a)).1
  · refine translation_of_same (Function.update_of_ne hne _ _) ?_ ?_ rfl
    · intro hd' hhd'
      obtain rfl := Option.some.inj (hc.handle.symm.trans hhd')
      exact hlast.2
    · intro hd' hhd' _
      obtain rfl := Option.some.inj (hc.handle.symm.trans hhd')
      exact (htables _ (dirIndex_le a)).2

/-- And what the directory itself translates is not, in other slots. -/
theorem added_translation_self {a e : Word} {x : Nat → Word} (hok : HandleOk s h hd dir)
    (hi : i < 1024) (hpse : pageEntryPseBit (dir (vAddrPagedirIndex a)) = 0)
    (hadd : TableAdded s t h hd dir i j e flags table phys) (ha : vAddrPagedirIndex a < 1023)
    (hne : hd.directoryVirtual (vAddrPagedirIndex a) ≠ 0)
    (hx : s.tables (hd.directoryVirtual (vAddrPagedirIndex a)) = some x) :
    t.translation h a = .ok (pageEntryAddr (x (vAddrPagetblIndex a)) + vAddrPageframeIndex a) := by
  have hai : vAddrPagedirIndex a ≠ i := by
    rintro rfl
    exact hne hadd.unlinked
  refine (hok.added hi hadd).translation_small ?_ ?_ ?_
  · rwa [Function.update_of_ne hai]
  · rwa [withTable_of_ne _ _ _ hai]
  · rw [withTable_of_ne _ _ _ hai, hadd.tables, Function.update_of_ne (hok.ne_directory ha),
      Function.update_of_ne (hok.ne_of_fresh hadd.ne_null hadd.fresh (dirIndex_le a)), hx]

/-- The new page table is where it was looked up. -/
theorem added_translation_new {e : Word} (hok : HandleOk s h hd dir) (hi : i < 1024)
    (hpse : ∀ k < 1024, pageEntryPseBit (dir k) = 0) (hf : flags &&& 0x80 = 0)
    (hadd : TableAdded s t h hd dir i j e flags table phys) (ha : vAddrPagedirIndex table < 1023)
    (hpage : vAddrPagedirIndex table = i → vAddrPagetblIndex table ≠ j)
    (hq : (s.withTable h hd i table).translation h table = .ok q) : t.translation h table = .ok q := by
  have hok' : HandleOk (s.withTable h hd i table) h (hd.withTable i table) dir := by
    refine hok.link (hadd.lt hok hi) hadd.ne_null hadd.fresh (Function.update_self _ _ _) ?_ ?_ ?_
    · exact (Function.update_of_ne (hok.directory_ne_of_fresh hadd.fresh) _ _).trans hok.directory
    · exact fun b hb => update_ne_none hb
    · simp [Kernel.withTable]
  obtain ⟨hne, x, hx, rfl⟩ := hok'.translation_of_ok (hpse _ (dirIndex_le table)) hq
  by_cases hti : vAddrPagedirIndex table = i
  · -- it is its own page table, and was empty then
    rw [hti, withTable_self] at hx
    have hx' : Function.update s.tables table (some fun _ => 0) table = some x := hx
    rw [Function.update_self] at hx'
    obtain rfl := Option.some.inj hx'
    rw [(hok.added hi hadd).translation_small (x := Function.update (fun _ => 0) j e)]
    · rw [Function.update_of_ne (hpage hti)]
    · rw [hti, Function.update_self, pageEntryPseBit_or hadd.phys_aligned]
      exact uint16_pse hf
    · rw [hti, withTable_self]
      exact hadd.ne_null
    · have hdir : table ≠ hd.directory := (hok.directory_ne_of_fresh hadd.fresh).symm
      rw [hti, withTable_self, hadd.tables, Function.update_of_ne hdir, Function.update_self]
  · rw [withTable_of_ne _ _ _ hti] at hne hx
    refine added_translation_self hok hi (hpse _ (dirIndex_le table)) hadd ha hne ?_
    have hfresh := hok.ne_of_fresh hadd.ne_null hadd.fresh (dirIndex_le table)
    exact (Function.update_of_ne hfresh _ _).symm.trans hx

/-! ## Steps -/

/-- `PAGING_CACHE_DISABLE`, …, `PAGING_PRESENT`. -/
def pagingFlags : Word := 0x1f

theorem flags_within (hf : flags &&& ~~~pagingFlags = 0) :
    flags &&& 0x80 = 0 ∧ uint16 flags &&& ADDR_MASK = 0 := by
  have hmask : ~~~pagingFlags &&& (0x80 : Word) = 0x80 := by decide
  have hmask' : ~~~pagingFlags &&& (0xffff &&& ADDR_MASK) = 0xffff &&& ADDR_MASK := by decide
  constructor
  · rw [← hmask, ← BitVec.and_assoc, hf]
    exact BitVec.zero_and
  · rw [uint16, BitVec.and_assoc, ← hmask', ← BitVec.and_assoc, hf]
    exact BitVec.zero_and

/-- The directories are well formed. -/
structure Kernel.Tidy (k : Kernel) (l : List Word) : Prop where
  inv : PagingSession.Inv ⟨k, l⟩
  shares : k.Shares l

/-- What is translated, and to what. -/
theorem Kernel.Tidy.translation_iff (hs : s.Tidy l) (hh : h ∈ l) : s.translation h va = .ok q ↔
    s.tableOf h (vAddrPagedirIndex va) ≠ 0 ∧
      ∃ x, s.tables (s.tableOf h (vAddrPagedirIndex va)) = some x ∧
        q = pageEntryAddr (x (vAddrPagetblIndex va)) + vAddrPageframeIndex va := by
  obtain ⟨hd, dir, hok⟩ := hs.inv.ok h hh
  have hsmall := hs.shares.small h hh _ (dirIndex_le va)
  rw [hok.directoryEntry] at hsmall
  rw [hok.tableOf]
  refine ⟨hok.translation_of_ok hsmall, ?_⟩
  rintro ⟨hne, x, hx, rfl⟩
  exact hok.translation_small hsmall hne hx

/-- One page of `h` is mapped, with memory for its page table. -/
structure PageStep (h : Word) (l : List Word) (s : Kernel) (w : Word × Word) (t : Kernel) : Prop where
  mem : h ∈ l
  tidy : s.Tidy l
  run : ∃ flags, flags &&& ~~~pagingFlags = 0 ∧ pagingMapPage h w.1 w.2 flags s = .ok (0, t)
  below : vAddrPagedirIndex w.1 < 1023
  granted : MemoryGranted s t

variable {w : Word × Word}

theorem Kernel.Tidy.mapped {res : Int} (hs : s.Tidy l) (hh : h ∈ l)
    (hva : vAddrPagedirIndex va < 1023) (hf : flags &&& 0x80 = 0)
    (hrun : pagingMapPage h va p flags s = .ok (res, t)) : t.Tidy l := by
  refine ⟨hs.inv.mapped (pagingMapPage_frame _ _ _ _ hrun)
    (pagingMapPage_handlesOk hs.inv.ok hh hrun), ?_⟩
  exact (pagingMapPage_shares hs.inv.ok hs.shares hs.inv.kernel hh hva hf hrun).1

theorem PageStep.tidy_after (hstep : PageStep h l s w t) : t.Tidy l := by
  obtain ⟨flags, hf, hrun⟩ := hstep.run
  exact hstep.tidy.mapped hstep.mem hstep.below (flags_within hf).1 hrun

/-- Every page table is still where the directory says. -/
theorem PageStep.coherent (hstep : PageStep h l s w t) (htlow : t.TablesLow l)
    (huntouched : t.Untouched l w.1) (hs : s.Coherent l) : t.Coherent l := by
  obtain ⟨flags, hf, hrun⟩ := hstep.run
  obtain ⟨hpse, hmask⟩ := flags_within hf
  have hinv := hstep.tidy.inv
  have hsh := hstep.tidy.shares
  have hrest := (pagingMapPage_frame _ _ _ _ hrun).rest
  have hcr4 : t.cr4 = s.cr4 := by rw [hrest]
  have hcurrent : t.currentDirectory = s.currentDirectory := by rw [hrest]
  obtain ⟨hd, dir, hok⟩ := hinv.ok h hstep.mem
  obtain ⟨chd, cdir, hc⟩ := hinv.ok _ hinv.current
  obtain ⟨-, -, hw | ⟨table, phys, hadd⟩⟩ := pagingMapPage_writes hok hrun
  · intro h' hh' i hi hne
    have hpage := huntouched h' hh' i hi hne
    obtain ⟨htable, hentry⟩ := written_links hinv.ok hsh hstep.mem hok hstep.below hw hh' (k := i)
    rw [htable] at hne hpage ⊢
    rw [hentry, hcurrent]
    exact written_translation hinv.ok hsh hstep.mem hinv.current hok hc hstep.below hw hpage
      (hs h' hh' i hi hne)
  · obtain ⟨htable, hentry, hlinks⟩ :=
      added_links hinv.ok hsh hstep.mem hok (dirIndex_le w.1) hadd
    have hsmall : ∀ k < 1024, pageEntryPseBit (dir k) = 0 := by
      intro k hk
      rw [← hok.directoryEntry]
      exact hsh.small h hstep.mem k hk
    intro h' hh' i hi hne
    have hlow := htlow h' hh' i hi hne
    have hpage := huntouched h' hh' i hi hne
    rw [hcurrent]
    by_cases hnew : h' = h ∧ i = vAddrPagedirIndex w.1
    · -- the new page table: it is where it was looked up
      obtain ⟨rfl, rfl⟩ := hnew
      rw [htable] at hlow hpage ⊢
      rw [hentry, pageEntryAddr_or hadd.phys_aligned hmask]
      have hq : (s.withTable h' hd (vAddrPagedirIndex w.1) table).translation s.currentDirectory
          table = .ok phys :=
        hadd.translation (hstep.granted _ (Nat.le_refl _) hadd.requests)
      by_cases hch : s.currentDirectory = h'
      · rw [hch] at hq ⊢
        refine added_translation_new hok (dirIndex_le w.1) hsmall hpse hadd hlow ?_ hq
        exact fun hidx hj => hpage (page_eq hidx hj)
      · obtain ⟨h₁, h₂⟩ := added_translation_other (a := table) hsh hstep.mem hinv.current hch hok hc
          hcr4 hadd
        rw [h₁, ← h₂]
        exact hq
    · have hdiff : h' ≠ h ∨ i ≠ vAddrPagedirIndex w.1 := not_and_or.mp hnew
      obtain ⟨ht, he⟩ := hlinks h' hh' i hi hdiff
      rw [ht] at hne hlow ⊢
      rw [he]
      have hq := hs h' hh' i hi hne
      by_cases hch : s.currentDirectory = h
      · rw [hch] at hq ⊢
        obtain ⟨hne', x, hx, hqx⟩ := hok.translation_of_ok (hsmall _ (dirIndex_le _)) hq
        rw [hqx]
        exact added_translation_self hok (dirIndex_le w.1) (hsmall _ (dirIndex_le _)) hadd hlow hne' hx
      · rw [(added_translation_other hsh hstep.mem hinv.current hch hok hc hcr4 hadd).1]
        exact hq

/-! ## What is read back -/

/-- The page of an address. -/
def pageOf (va : Word) : Word := va &&& ADDR_MASK

theorem pageOf_add (va : Word) : pageOf va + vAddrPageframeIndex va = va := by
  have hmask : ADDR_MASK ||| 0xfff = BitVec.allOnes 32 := by decide
  have hdisjoint : pageOf va &&& vAddrPageframeIndex va = 0#32 := by
    rw [vAddrPageframeIndex, BitVec.and_comm va, ← BitVec.and_assoc, pageOf,
      ← pageEntryAddr, pageEntryAddr_aligned]
    exact BitVec.zero_and
  rw [BitVec.add_eq_or_of_and_eq_zero _ _ hdisjoint, pageOf, vAddrPageframeIndex,
    ← BitVec.and_or_distrib_left, hmask, BitVec.and_allOnes]

theorem pageOf_page (va : Word) : (pageOf va).toNat / 4096 = va.toNat / 4096 := by
  have hadd := congrArg BitVec.toNat (pageOf_add va)
  have halign := aligned_iff_mod.mp (pageEntryAddr_aligned va)
  rw [BitVec.toNat_add, vAddrPageframeIndex, and_fff_toNat] at hadd
  rw [pageEntryAddr, ← pageOf] at halign
  have := (pageOf va).isLt
  have := va.isLt
  omega

theorem pageOf_dirIndex (va : Word) : vAddrPagedirIndex (pageOf va) = vAddrPagedirIndex va := by
  rw [vAddrPagedirIndex_eq, vAddrPagedirIndex_eq, pageOf_page]

theorem pageOf_tblIndex (va : Word) : vAddrPagetblIndex (pageOf va) = vAddrPagetblIndex va := by
  rw [vAddrPagetblIndex_eq, vAddrPagetblIndex_eq, pageOf_page]

theorem pageOf_entry (k : Kernel) (h va : Word) : k.pageEntry h (pageOf va) = k.pageEntry h va := by
  rw [Kernel.pageEntry, Kernel.pageEntry, pageOf_dirIndex, pageOf_tblIndex]

/-- In the directory `h`, the page at `page` is mapped to `frame`. -/
structure Kernel.Reads (k : Kernel) (h page frame : Word) : Prop where
  aligned : page &&& 0xfff = 0
  linked : k.tableOf h (vAddrPagedirIndex page) ≠ 0
  /-- Where the directory is its own page table, it has the entry. -/
  present : vAddrPagedirIndex page = 1023 → k.pageEntry h page ≠ 0
  frame : pageEntryAddr (k.pageEntry h page) = frame

theorem Kernel.Reads.translation {frame : Word} (hk : s.Tidy l) (hh : h ∈ l)
    (hr : s.Reads h (pageOf va) frame) : s.translation h va = .ok (frame + vAddrPageframeIndex va) := by
  obtain ⟨hd, dir, hok⟩ := hk.inv.ok h hh
  have hne := hr.linked
  rw [pageOf_dirIndex] at hne
  obtain ⟨x, hx⟩ : ∃ x, s.tables (s.tableOf h (vAddrPagedirIndex va)) = some x := by
    rw [hok.tableOf] at hne ⊢
    exact Option.ne_none_iff_exists'.mp (hok.tables _ (dirIndex_le va) hne)
  have hframe := hr.frame
  rw [pageOf_entry, Kernel.pageEntry, hx, Option.elim_some] at hframe
  exact (hk.translation_iff hh).mpr ⟨hne, x, hx, by rw [hframe]⟩

/-- The page that is mapped. -/
theorem PageStep.hit (hstep : PageStep h l s w t) : t.Reads h w.1 w.2 := by
  obtain ⟨flags, hf, hrun⟩ := hstep.run
  obtain ⟨hd, dir, hok⟩ := hstep.tidy.inv.ok h hstep.mem
  obtain ⟨hva, hp, hw | ⟨table, phys, hadd⟩⟩ := pagingMapPage_writes hok hrun
  · obtain ⟨hok', hentry⟩ := written_entries hok hstep.below hw
    refine ⟨hva, ?_, fun hlast => absurd hlast hstep.below.ne, ?_⟩
    · rw [hok'.tableOf]
      exact hw.linked
    · rw [hentry, pageEntryAddr_or hp (flags_within hf).2]
  · refine ⟨hva, ?_, fun hlast => absurd hlast hstep.below.ne, ?_⟩
    · rw [(hok.added (dirIndex_le w.1) hadd).tableOf, withTable_self]
      exact hadd.ne_null
    · rw [added_entry hok hadd, pageEntryAddr_or hp (flags_within hf).2]

/-- A page table that is not written has its entries. -/
theorem Kernel.Reads.keep {page frame : Word} (hr : s.Reads h page frame)
    (htable : t.tableOf h (vAddrPagedirIndex page) = s.tableOf h (vAddrPagedirIndex page))
    (hentry : t.pageEntry h page = s.pageEntry h page) : t.Reads h page frame := by
  refine ⟨hr.aligned, ?_, fun hlast => ?_, ?_⟩
  · rw [htable]
    exact hr.linked
  · rw [hentry]
    exact hr.present hlast
  · rw [hentry]
    exact hr.frame

/-- No page table is lost. -/
def TablesStay (l : List Word) (s t : Kernel) : Prop :=
  ∀ h ∈ l, ∀ i < 1024, s.tableOf h i ≠ 0 → t.tableOf h i = s.tableOf h i

theorem TablesStay.low (hstay : TablesStay l s t) (ht : t.TablesLow l) : s.TablesLow l := by
  intro h hh i hi hne
  have hsame := hstay h hh i hi hne
  rw [← hsame] at hne ⊢
  exact ht h hh i hi hne

theorem TablesStay.untouched (hstay : TablesStay l s t) (ht : t.Untouched l va) :
    s.Untouched l va := by
  intro h hh i hi hne
  have hsame := hstay h hh i hi hne
  rw [← hsame] at hne ⊢
  exact ht h hh i hi hne

theorem pagingMapPage_stay (hs : s.Tidy l) (hh : h ∈ l) (hva : vAddrPagedirIndex va < 1023)
    (hrun : pagingMapPage h va p flags s = .ok (0, t)) : TablesStay l s t := by
  intro h' hh' i hi hne
  obtain ⟨hd, dir, hok⟩ := hs.inv.ok h hh
  obtain ⟨-, -, hw | ⟨table, phys, hadd⟩⟩ := pagingMapPage_writes hok hrun
  · exact (written_links hs.inv.ok hs.shares hh hok hva hw hh').1
  · obtain ⟨-, -, hlinks⟩ := added_links hs.inv.ok hs.shares hh hok (dirIndex_le va) hadd
    refine (hlinks h' hh' i hi ?_).1
    by_contra hboth
    simp only [not_or, ne_eq, not_not] at hboth
    obtain ⟨rfl, rfl⟩ := hboth
    rw [hok.tableOf] at hne
    exact hne hadd.unlinked

/-! ## Ranges -/

/-- A page that is aligned is mapped, if the call returns. -/
theorem pagingMapPage_aligned {res : Int} (hva : va &&& 0xfff = 0) (hp : p &&& 0xfff = 0)
    (hrun : pagingMapPage h va p flags s = .ok (res, t)) : res = 0 := by
  rw [pagingMapPage, if_neg (by simp [aligned_iff.mpr hva, aligned_iff.mpr hp])] at hrun
  obtain ⟨_, u₁, -, hrun⟩ := bind_ok hrun
  obtain ⟨_, u₂, -, hrun⟩ := bind_ok hrun
  obtain ⟨_, u₃, -, hrun⟩ := bind_ok hrun
  exact (pure_ok hrun).1

theorem pagingMapPages_succ {res : Int} {count : Nat} (hva : va &&& 0xfff = 0) (hp : p &&& 0xfff = 0)
    (hrun : pagingMapPages h va p flags (count + 1) s = .ok (res, t)) :
    ∃ u, pagingMapPage h va p flags s = .ok (0, u) ∧
      pagingMapPages h (va + 4096) (p + 4096) flags count u = .ok (res, t) := by
  obtain ⟨res', u, hpage, hrun⟩ := bind_ok hrun
  obtain rfl := pagingMapPage_aligned hva hp hpage
  rw [if_neg (by simp)] at hrun
  exact ⟨u, hpage, hrun⟩

/-- A range is mapped page by page. -/
theorem pagingMapPages_runs {res : Int} {count : Nat} (hs : s.Tidy l) (hh : h ∈ l)
    (hf : flags &&& ~~~pagingFlags = 0) (hva : va &&& 0xfff = 0) (hp : p &&& 0xfff = 0)
    (hend : va.toNat / 4096 + count ≤ 1023 * 1024)
    (hrun : pagingMapPages h va p flags count s = .ok (res, t)) (hgranted : MemoryGranted s t) :
    Runs (PageStep h l) s (pagesFrom va p count) t := by
  induction count generalizing s va p with
  | zero =>
    obtain ⟨-, rfl⟩ := pure_ok hrun
    exact .nil _
  | succ count ih =>
    obtain ⟨u, hpage, hrun⟩ := pagingMapPages_succ hva hp hrun
    have hi : vAddrPagedirIndex va < 1023 := by
      rw [vAddrPagedirIndex_eq]
      omega
    have hsu : s.requests ≤ u.requests := pagingMapPage_asked _ _ _ _ hpage
    have hut : u.requests ≤ t.requests := pagingMapPages_asked _ _ _ _ _ hrun
    have hanswers : u.answers = s.answers := by rw [(pagingMapPage_frame _ _ _ _ hpage).rest]
    have hnext := add_page_toNat (a := va) (by omega)
    have hstep : PageStep h l s (va, p) u :=
      ⟨hh, hs, ⟨flags, hf, hpage⟩, hi, hgranted.mono rfl (Nat.le_refl _) hut⟩
    exact .cons hstep (ih hstep.tidy_after (add_page_aligned hva) (add_page_aligned hp) (by omega) hrun
      (hgranted.mono hanswers hsu (Nat.le_refl _)))

theorem runs_stay {ws : List (Word × Word)} (hrun : Runs (PageStep h l) s ws t) :
    TablesStay l s t := by
  induction hrun with
  | nil s => exact fun _ _ _ _ _ => rfl
  | cons hstep _ ih =>
    intro h' hh' i hi hne
    obtain ⟨flags, -, hpage⟩ := hstep.run
    have hsame := pagingMapPage_stay hstep.tidy hstep.mem hstep.below hpage h' hh' i hi hne
    rw [ih h' hh' i hi (hsame ▸ hne), hsame]

/-- Pages without page tables. -/
theorem runs_coherent {ws : List (Word × Word)} (hrun : Runs (PageStep h l) s ws t)
    (hlow : t.TablesLow l) (hpages : ∀ w ∈ ws, t.Untouched l w.1) (hs : s.Coherent l) :
    t.Coherent l := by
  induction hrun with
  | nil s => exact hs
  | cons hstep hrest ih =>
    have hstay := runs_stay hrest
    refine ih hlow (fun w hw => hpages w (List.mem_cons_of_mem _ hw)) ?_
    exact hstep.coherent (hstay.low hlow) (hstay.untouched (hpages _ List.mem_cons_self)) hs

end

end AvocadOS
