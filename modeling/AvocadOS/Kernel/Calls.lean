import AvocadOS.Kernel.Directories

/-!
# Calls of `paging.h`

* `PagingSession`: the directories that `paging_init` and `paging_clone_directory` made, and the calls
  of `paging.h` on them;
* `PagingSession.runs_inv`: after any calls they are well formed.
-/

namespace AvocadOS

open Kernel

/-! ## Calls -/

/-- The calls of `paging.h` after `paging_init`; `other` is what else the kernel does. -/
inductive PagingCall where
  | mapPage (handle virtAddr pagePtr flags : Word)
  | mapRange (handle virtAddr physAddr : Word) (count : Nat) (flags : Word)
  | mapFromTo (handle virtAddr physBegin physEnd flags : Word)
  | clone (source : Word)
  | other

/-- The pages of a range, with their frames. -/
def pagesFrom (va p : Word) : Nat → List (Word × Word)
  | 0 => []
  | count + 1 => (va, p) :: pagesFrom (va + 4096) (p + 4096) count

/-- The pages that a call maps, with their frames. -/
def PagingCall.pages : PagingCall → List (Word × Word)
  | .mapPage _ va p _ => [(va, p)]
  | .mapRange _ va p count _ => pagesFrom va p count
  | .mapFromTo _ va p q _ => if p ≤ q then pagesFrom va p ((q - p).toNat / PAGING_PAGE_SIZE) else []
  | .clone _ | .other => []

/-- Pages below directory index 1023 only. -/
def PagingCall.BelowLast : PagingCall → Prop
  | .mapPage _ va _ _ => vAddrPagedirIndex va < 1023
  | .mapRange _ va _ count _ => va.toNat / PAGING_PAGE_SIZE + count ≤ 1023 * 1024
  | .mapFromTo _ va p q _ => p ≤ q →
      va.toNat / PAGING_PAGE_SIZE + (q - p).toNat / PAGING_PAGE_SIZE ≤ 1023 * 1024
  | .clone _ => True
  | .other => True

structure PagingSession where
  kernel : Kernel
  /-- `kernel_page_directory`, and the copies. -/
  directories : List Word

namespace PagingSession

/-- After `paging_init`. -/
def start (k : Kernel) : PagingSession := ⟨k, [k.image.kernelPageDirectory]⟩

inductive Step (s : PagingSession) : PagingCall → PagingSession → Prop
  | mapPage {k : Kernel} {h va p flags : Word} {res : Int} : h ∈ s.directories →
      pagingMapPage h va p flags s.kernel = .ok (res, k) →
      Step s (.mapPage h va p flags) ⟨k, s.directories⟩
  | mapRange {k : Kernel} {h va p flags : Word} {count : Nat} {res : Int} : h ∈ s.directories →
      pagingMapRange h va p count flags s.kernel = .ok (res, k) →
      Step s (.mapRange h va p count flags) ⟨k, s.directories⟩
  | mapFromTo {k : Kernel} {h va p q flags : Word} {res : Int} : h ∈ s.directories →
      pagingMapFromTo h va p q flags s.kernel = .ok (res, k) →
      Step s (.mapFromTo h va p q flags) ⟨k, s.directories⟩
  | clone {k : Kernel} {source copy : Word} : source ∈ s.directories →
      pagingCloneDirectory source s.kernel = .ok (copy, k) →
      Step s (.clone source) ⟨k, s.directories ++ [copy]⟩
  | other {k : Kernel} : k.tables = s.kernel.tables → k.handles = s.kernel.handles →
      k.image = s.kernel.image → k.cr4 = s.kernel.cr4 → k.currentDirectory ∈ s.directories →
      Step s .other ⟨k, s.directories⟩

end PagingSession

/-- Every handle of the list is well formed. -/
def HandlesOk (s : Kernel) (l : List Word) : Prop := ∀ h ∈ l, ∃ hd dir, HandleOk s h hd dir

section

variable {s t : Kernel} {h va p flags : Word} {hd : PageDirectoryHandle} {dir : Nat → Word}
  {l : List Word} {res : Int}

/-- A call that fails changes nothing. -/
theorem pagingMapPage_res (hrun : pagingMapPage h va p flags s = .ok (res, t)) : res = 0 ∨ t = s := by
  rw [pagingMapPage] at hrun
  split at hrun
  · exact .inr (pure_ok hrun).2
  · obtain ⟨_, u, -, hrun⟩ := bind_ok hrun
    obtain ⟨_, v, -, hrun⟩ := bind_ok hrun
    obtain ⟨_, w, -, hrun⟩ := bind_ok hrun
    exact .inl (pure_ok hrun).1

/-- A handle keeps its page tables when tables are written and added. -/
theorem HandleOk.keep (hok : HandleOk s h hd dir) (hhandle : t.handles h = s.handles h)
    (htables : ∀ a, s.tables a ≠ none → t.tables a ≠ none) : ∃ dir', HandleOk t h hd dir' := by
  have hne : t.tables hd.directory ≠ none := htables _ (by simp [hok.directory])
  obtain ⟨dir', hdir'⟩ := Option.ne_none_iff_exists'.mp hne
  exact ⟨dir', hok.mono (hhandle.trans hok.handle) hdir' htables⟩

theorem pagingMapPage_handlesOk (hl : HandlesOk s l) (hh : h ∈ l)
    (hrun : pagingMapPage h va p flags s = .ok (res, t)) : HandlesOk t l := by
  have hpaging := pagingMapPage_frame _ _ _ _ hrun
  rcases pagingMapPage_res hrun with rfl | rfl
  swap
  · exact hl
  intro h' hh'
  obtain ⟨hd', dir', hok'⟩ := hl h' hh'
  obtain ⟨hd, dir, hok⟩ := hl h hh
  obtain ⟨-, -, hw | ⟨table, phys, hadd⟩⟩ := pagingMapPage_writes hok hrun
  · exact ⟨hd', hok'.keep (by rw [hw.handles]) hpaging.tables⟩
  · by_cases he : h' = h
    · subst he
      exact ⟨_, _, hok.added (dirIndex_le va) hadd⟩
    · exact ⟨hd', hok'.keep (by rw [hadd.handles, Function.update_of_ne he]) hpaging.tables⟩

theorem pagingMapPages_handlesOk {count : Nat} (hl : HandlesOk s l) (hh : h ∈ l)
    (hrun : pagingMapPages h va p flags count s = .ok (res, t)) : HandlesOk t l := by
  induction count generalizing s va p with
  | zero =>
    obtain ⟨-, rfl⟩ := pure_ok hrun
    exact hl
  | succ count ih =>
    obtain ⟨res', u, hpage, hrun⟩ := bind_ok hrun
    have hu := pagingMapPage_handlesOk hl hh hpage
    split at hrun
    · obtain ⟨-, rfl⟩ := pure_ok hrun
      exact hu
    · exact ih hu hrun

/-- A range that is refused changes nothing, and else it is mapped page by page. -/
theorem pagingMapRange_res {count : Nat}
    (hrun : pagingMapRange h va p count flags s = .ok (res, t)) :
    t = s ∨ pagingMapPages h va p flags count s = .ok (res, t) := by
  rw [pagingMapRange] at hrun
  split at hrun
  · exact .inl (pure_ok hrun).2
  · exact .inr hrun

theorem pagingMapFromTo_res {q : Word} (hrun : pagingMapFromTo h va p q flags s = .ok (res, t)) :
    t = s ∨ p ≤ q ∧
      pagingMapPages h va p flags ((q - p).toNat / PAGING_PAGE_SIZE) s = .ok (res, t) := by
  rw [pagingMapFromTo] at hrun
  split at hrun
  · exact .inl (pure_ok hrun).2
  split at hrun
  · exact .inl (pure_ok hrun).2
  split at hrun
  · exact .inl (pure_ok hrun).2
  · rename_i hle
    exact (pagingMapRange_res hrun).imp_right fun h => ⟨BitVec.not_lt.mp hle, h⟩

end

/-! ## Runs -/

namespace PagingSession

/-- The directories are well formed, and the kernel uses one of them. -/
structure Inv (s : PagingSession) : Prop where
  kernel : s.kernel.image.kernelPageDirectory ∈ s.directories
  current : s.kernel.currentDirectory ∈ s.directories
  ok : HandlesOk s.kernel s.directories

variable {s t : PagingSession} {call : PagingCall}

/-- Mapping keeps the registers and the image. -/
theorem Inv.mapped {k : Kernel} (hs : s.Inv) (hpaging : PagingOnly s.kernel k)
    (hok : HandlesOk k s.directories) : Inv ⟨k, s.directories⟩ := by
  refine ⟨?_, ?_, hok⟩
  · rw [hpaging.rest]
    exact hs.kernel
  · rw [hpaging.rest]
    exact hs.current

theorem Inv.mappedPages {k : Kernel} {h va p flags : Word} {count : Nat} {res : Int} (hs : s.Inv)
    (hh : h ∈ s.directories)
    (hrun : k = s.kernel ∨ pagingMapPages h va p flags count s.kernel = .ok (res, k)) :
    Inv ⟨k, s.directories⟩ := by
  rcases hrun with rfl | hrun
  · exact hs
  · exact hs.mapped (pagingMapPages_frame _ _ _ _ _ hrun) (pagingMapPages_handlesOk hs.ok hh hrun)

/-- What a copy is, in a session. -/
theorem Inv.cloned {k : Kernel} {source copy : Word} (hs : s.Inv) (hsource : source ∈ s.directories)
    (h : pagingCloneDirectory source s.kernel = .ok (copy, k)) :
    ∃ src ker dir kdir D dv d phys, HandleOk s.kernel source src dir ∧
      HandleOk s.kernel s.kernel.image.kernelPageDirectory ker kdir ∧
      Cloned s.kernel k copy D src ker dir kdir dv d phys := by
  obtain ⟨src, dir, hsrc⟩ := hs.ok _ hsource
  obtain ⟨ker, kdir, hker⟩ := hs.ok _ hs.kernel
  obtain ⟨chd, cdir, hcur⟩ := hs.ok _ hs.current
  obtain ⟨D, dv, d, phys, hc⟩ := pagingCloneDirectory_copies hsrc hker hcur h
  exact ⟨src, ker, dir, kdir, D, dv, d, phys, hsrc, hker, hc⟩

theorem step_pagingInv (hs : s.Inv) (h : Step s call t) : t.Inv := by
  cases h with
  | mapPage hh hrun =>
    exact hs.mapped (pagingMapPage_frame _ _ _ _ hrun) (pagingMapPage_handlesOk hs.ok hh hrun)
  | mapRange hh hrun => exact hs.mappedPages hh (pagingMapRange_res hrun)
  | mapFromTo hh hrun => exact hs.mappedPages hh ((pagingMapFromTo_res hrun).imp_right And.right)
  | @clone k source copy hsource hrun =>
    have hpaging := pagingCloneDirectory_frame _ hrun
    obtain ⟨src, ker, dir, kdir, D, dv, d, phys, -, -, hc⟩ := hs.cloned hsource hrun
    refine ⟨?_, ?_, fun h hh => ?_⟩
    · rw [hpaging.rest]
      exact List.mem_append_left _ hs.kernel
    · rw [hpaging.rest]
      exact List.mem_append_left _ hs.current
    · rcases List.mem_append.mp hh with hh | hh
      · obtain ⟨hd, dir, hok⟩ := hs.ok h hh
        refine ⟨hd, hok.keep ?_ hpaging.tables⟩
        rw [hok.handle, hc.kept.handles _ _ hok.handle]
      · rw [List.mem_singleton.mp hh]
        exact ⟨_, _, hc.ok⟩
  | other htables hhandles himage hcr4 hcur =>
    refine ⟨himage ▸ hs.kernel, hcur, fun h hh => ?_⟩
    obtain ⟨hd, dir, hok⟩ := hs.ok h hh
    exact ⟨hd, hok.keep (by rw [hhandles]) fun a ha => by rwa [htables]⟩

theorem start_inv {k₀ k : Kernel} (hp : Paged k₀ k) : (start k).Inv := by
  obtain ⟨hd, dir, hk⟩ := hp.onKernel.directory
  refine ⟨List.mem_singleton_self _, ?_, fun h hh => ?_⟩
  · rw [start, hp.onKernel.current]
    exact List.mem_singleton_self _
  · rw [List.mem_singleton.mp hh]
    exact ⟨hd, dir, hk.handleOk⟩

end PagingSession

end AvocadOS
