import AvocadOS.Kernel.Isolation

/-!
# Directories with any flags

`DirInv` is about the flags that the kernel uses. Here the flags of an entry are what a caller
passes, and a directory is copied from any other.

* `HandleOk`: the handle, its directory and its page tables;
* `pagingMapPage_writes`: `paging_map_page` writes an entry of a page table, or adds a table for it;
* `pagingCloneDirectory_copies`: what each slot of a copy is.
-/

namespace AvocadOS

open Kernel

/-- The handle with another page table for slot `i`. -/
def PageDirectoryHandle.withTable (hd : PageDirectoryHandle) (i : Nat) (table : Word) :
    PageDirectoryHandle :=
  { hd with directoryVirtual := Function.update hd.directoryVirtual i table }

section

variable (hd : PageDirectoryHandle) (i : Nat) (table : Word)

@[simp] theorem withTable_directory : (hd.withTable i table).directory = hd.directory := rfl

@[simp] theorem withTable_self : (hd.withTable i table).directoryVirtual i = table :=
  Function.update_self _ _ _

@[simp] theorem withTable_of_ne {j : Nat} (h : j ≠ i) :
    (hd.withTable i table).directoryVirtual j = hd.directoryVirtual j :=
  Function.update_of_ne h _ _

@[simp] theorem withTable_withTable (table' : Word) :
    (hd.withTable i table).withTable i table' = hd.withTable i table' := by
  simp [PageDirectoryHandle.withTable]

end

/-- The handle `h` is `hd`, with the directory `dir`. -/
structure HandleOk (s : Kernel) (h : Word) (hd : PageDirectoryHandle) (dir : Nat → Word) : Prop where
  ne_null : h ≠ 0
  handle : s.handles h = some hd
  directory_ne_null : hd.directory ≠ 0
  directory : s.tables hd.directory = some dir
  self : hd.directoryVirtual 1023 = hd.directory
  tables : ∀ i < 1024, hd.directoryVirtual i ≠ 0 → s.tables (hd.directoryVirtual i) ≠ none
  inj : ∀ i < 1024, ∀ j < 1024, hd.directoryVirtual i ≠ 0 →
    hd.directoryVirtual i = hd.directoryVirtual j → i = j

section

variable {P : Word → Prop} {s t : Kernel} {h va p flags : Word} {hd : PageDirectoryHandle}
  {dir : Nat → Word} {i j : Nat}

theorem DirInv.handleOk (hinv : DirInv P s h hd dir) : HandleOk s h hd dir :=
  ⟨hinv.ne_null, hinv.handle, hinv.directory_ne_null, hinv.directory, hinv.self, hinv.tables,
    hinv.inj⟩

theorem HandleOk.unique {hd' : PageDirectoryHandle} {dir' : Nat → Word} (hok : HandleOk s h hd dir)
    (hok' : HandleOk s h hd' dir') : hd = hd' ∧ dir = dir' := by
  obtain rfl := Option.some.inj (hok.handle.symm.trans hok'.handle)
  exact ⟨rfl, Option.some.inj (hok.directory.symm.trans hok'.directory)⟩

/-- No other slot has the directory as its page table. -/
theorem HandleOk.ne_directory (hok : HandleOk s h hd dir) (hi : i < 1023) :
    hd.directoryVirtual i ≠ hd.directory := by
  intro he
  rw [← hok.self] at he
  have hne : hd.directoryVirtual i ≠ 0 := by
    rw [he, hok.self]
    exact hok.directory_ne_null
  have := hok.inj i (by omega) 1023 (by omega) hne he
  omega

/-- A new page table is none of the handle's. -/
theorem HandleOk.ne_of_fresh (hok : HandleOk s h hd dir) {table : Word} (hne : table ≠ 0)
    (hfresh : s.tables table = none) (hi : i < 1024) : hd.directoryVirtual i ≠ table := by
  rintro rfl
  exact hok.tables i hi hne hfresh

theorem HandleOk.directory_ne_of_fresh (hok : HandleOk s h hd dir) {table : Word}
    (hfresh : s.tables table = none) : hd.directory ≠ table := by
  rintro rfl
  rw [hok.directory] at hfresh
  cases hfresh

/-! ## `paging_map_page` -/

/-- An entry of a page table that was there. -/
structure EntryWritten (s t : Kernel) (hd : PageDirectoryHandle) (i j : Nat) (e : Word) : Prop where
  linked : hd.directoryVirtual i ≠ 0
  tables : ∃ x, s.tables (hd.directoryVirtual i) = some x ∧
    t.tables = Function.update s.tables (hd.directoryVirtual i) (some (Function.update x j e))
  handles : t.handles = s.handles

/-- A new page table with one entry; `phys` is what the kernel takes for its address. -/
structure TableAdded (s t : Kernel) (h : Word) (hd : PageDirectoryHandle) (dir : Nat → Word)
    (i j : Nat) (e flags table phys : Word) : Prop where
  unlinked : hd.directoryVirtual i = 0
  ne_null : table ≠ 0
  aligned : table &&& 0xfff = 0
  fresh : s.tables table = none
  requests : s.requests < t.requests
  phys_aligned : phys &&& 0xfff = 0
  /-- The address is looked up once the table is in the handle. -/
  translation : s.answers s.requests ≠ 0 →
    Kernel.translation { s with
      tables := Function.update s.tables table (some fun _ => 0)
      handles := Function.update s.handles h (some (hd.withTable i table)) }
      s.currentDirectory table = .ok phys
  handles : t.handles = Function.update s.handles h (some (hd.withTable i table))
  tables : t.tables = Function.update
    (Function.update s.tables table (some (Function.update (fun _ => 0) j e))) hd.directory
    (some (Function.update dir i (phys ||| uint16 flags)))

theorem Store.bind_load {α β : Type} {st : Store α} {k : α → K β} :
    (st.load p >>= k) s = if p = 0 then .error .nullDeref else match st.get s p with
      | none => .error .badDeref
      | some x => k x s := by
  simp only [Bind.bind, StateT.bind, Except.bind, Store.load]
  by_cases hp : p = 0
  · rw [if_pos hp, if_pos hp]
  · rw [if_neg hp, if_neg hp]
    cases st.get s p <;> rfl

/-- A translation reads the handle, its directory and one page table. -/
theorem translation_of_same (hhandle : t.handles h = s.handles h)
    (hdir : ∀ hd, s.handles h = some hd → t.tables hd.directory = s.tables hd.directory)
    (htable : ∀ hd, s.handles h = some hd → hd.directoryVirtual (vAddrPagedirIndex va) ≠ 0 →
      t.tables (hd.directoryVirtual (vAddrPagedirIndex va)) =
        s.tables (hd.directoryVirtual (vAddrPagedirIndex va)))
    (hcr4 : t.cr4 = s.cr4) : t.translation h va = s.translation h va := by
  rw [Kernel.translation, Kernel.translation, virtualToPhysicalAddr, Store.bind_load, Store.bind_load,
    handles_get, handles_get, hhandle]
  split
  · rfl
  cases hhd : s.handles h with
  | none => rfl
  | some hd =>
    simp only [Store.bind_load, tables_get, hdir hd hhd]
    split
    · rfl
    cases s.tables hd.directory with
    | none => rfl
    | some dir =>
      simp only
      split
      · rw [bind_get_eq, bind_get_eq, hcr4]
        split <;> rfl
      · rw [Store.bind_load, Store.bind_load, tables_get, tables_get]
        split
        · rfl
        · rename_i hne
          rw [htable hd hhd hne]
          cases s.tables (hd.directoryVirtual (vAddrPagedirIndex va)) <;> rfl

theorem translation_congr (htables : t.tables = s.tables) (hhandles : t.handles = s.handles)
    (hcr4 : t.cr4 = s.cr4) : t.translation h va = s.translation h va :=
  translation_of_same (by rw [hhandles]) (fun _ _ => by rw [htables]) (fun _ _ _ => by rw [htables])
    hcr4

theorem dirIndex_le (va : Word) : vAddrPagedirIndex va < 1024 := by
  rw [vAddrPagedirIndex_eq]
  exact dirIndex_lt va

/-- Nothing is translated differently when page tables are added. -/
theorem HandleOk.translation_extend (hok : HandleOk s h hd dir) (hkept : Extends s t)
    (hcr4 : t.cr4 = s.cr4) : t.translation h va = s.translation h va := by
  refine translation_of_same ?_ ?_ ?_ hcr4
  · rw [hok.handle, hkept.handles _ _ hok.handle]
  · intro hd' hhd'
    obtain rfl := Option.some.inj (hok.handle.symm.trans hhd')
    rw [hok.directory, hkept.tables _ _ hok.directory]
  · intro hd' hhd' hne
    obtain rfl := Option.some.inj (hok.handle.symm.trans hhd')
    obtain ⟨x, hx⟩ := Option.ne_none_iff_exists'.mp (hok.tables _ (dirIndex_le va) hne)
    rw [hx, hkept.tables _ _ hx]

/-- The first attempt: `table` is NULL if there was no memory. -/
theorem addPageTable_tries (hok : HandleOk s h hd dir) (hv : hd.directoryVirtual i = 0) {x : Unit}
    (hadd : addPageTable h i flags s = .ok (x, t)) :
    ∃ table phys m, tables.alloc PAGING_PAGE_SIZE (fun _ => 0) s = .ok (table, m) ∧
      Kernel.translation { m with handles := Function.update s.handles h (some (hd.withTable i table)) }
        s.currentDirectory table = .ok phys ∧
      phys &&& 0xfff = 0 ∧ t = { m with
        handles := Function.update s.handles h (some (hd.withTable i table))
        tables := Function.update m.tables hd.directory
          (some (Function.update dir i (phys ||| uint16 flags))) } := by
  obtain ⟨-, hd', hhd, hadd⟩ := Store.bind_load_ok hadd
  obtain rfl : hd = hd' := Option.some.inj (hok.handle.symm.trans hhd)
  rw [if_pos hv] at hadd
  obtain ⟨table, m, halloc, hadd⟩ := bind_ok hadd
  obtain ⟨_, m', hset, hadd⟩ := bind_ok hadd
  obtain ⟨phys, m'', hphys, hadd⟩ := bind_ok (bind_get_ok hadd)
  -- `table` is a page, and the directory is another
  have hm : m.handles = s.handles ∧ m.currentDirectory = s.currentDirectory ∧ table &&& 0xfff = 0 ∧
      m.tables hd.directory = some dir := by
    rcases Store.alloc_ok halloc with ⟨rfl, rfl⟩ | ⟨-, hfresh, rfl⟩
    · exact ⟨rfl, rfl, rfl, hok.directory⟩
    · refine ⟨rfl, rfl, aligned_iff_mod.mpr hfresh.1, ?_⟩
      exact (Function.update_of_ne (hok.directory_ne_of_fresh hfresh.vacant.1) _ _).trans hok.directory
  obtain ⟨hmh, hmc, halign, hmd⟩ := hm
  obtain ⟨hd', hhd', rfl⟩ := setDirectoryVirtual_ok hset
  obtain rfl : hd = hd' := Option.some.inj (hok.handle.symm.trans (hmh ▸ hhd'))
  obtain rfl := virtualToPhysicalAddr_state hphys
  obtain ⟨hd', dir', hhd', -, hdir', rfl⟩ := setDirectory_ok hadd
  simp only [Function.update_self, Option.some.injEq] at hhd'
  subst hhd'
  obtain rfl : dir = dir' := Option.some.inj (hmd.symm.trans hdir')
  refine ⟨table, phys, m, halloc, ?_, virtualToPhysicalAddr_aligned halign hphys, ?_⟩
  · rw [← hmc, ← hmh]
    exact translation_ok hphys
  · rw [hmh]
    rfl

/-- NULL is what the allocator answered. -/
theorem alloc_null {size : Nat} {x : Nat → Word} (hsize : size ≠ 0)
    (halloc : tables.alloc size x s = .ok (0, t)) : s.answers s.requests = 0 := by
  obtain ⟨a, u, hk, halloc⟩ := bind_ok halloc
  simp only [kzalloc] at hk
  split at hk
  · rename_i h₀
    exact h₀.resolve_left hsize
  · rename_i h₀
    split at hk
    · cases hk
      rw [if_neg fun ha => h₀ (.inr ha)] at halloc
      exact congrArg Prod.fst (Except.ok.inj halloc)
    · cases hk

/-- After both attempts; `table` is still NULL if there was no memory. -/
structure TableLinked (s t : Kernel) (h : Word) (hd : PageDirectoryHandle) (dir : Nat → Word)
    (i : Nat) (flags table phys : Word) : Prop where
  aligned : table &&& 0xfff = 0
  fresh : table ≠ 0 → s.tables table = none
  requests : s.requests < t.requests
  phys_aligned : phys &&& 0xfff = 0
  translation : s.answers s.requests ≠ 0 →
    Kernel.translation { s with
      tables := Function.update s.tables table (some fun _ => 0)
      handles := Function.update s.handles h (some (hd.withTable i table)) }
      s.currentDirectory table = .ok phys
  handles : t.handles = Function.update s.handles h (some (hd.withTable i table))
  tables : table ≠ 0 → t.tables = Function.update
    (Function.update s.tables table (some fun _ => 0)) hd.directory
    (some (Function.update dir i (phys ||| uint16 flags)))

theorem newTable_linked (hok : HandleOk s h hd dir) (hv : hd.directoryVirtual i = 0) {x y : Unit}
    {u : Kernel} (hadd : addPageTable h i flags s = .ok (x, u))
    (hretry : retryPageTable h i u = .ok (y, t)) :
    ∃ table phys, TableLinked s t h hd dir i flags table phys := by
  obtain ⟨table, phys, m, halloc, hphys, halign, rfl⟩ := addPageTable_tries hok hv hadd
  obtain ⟨-, hd', hhd', hretry⟩ := Store.bind_load_ok hretry
  simp only [handles_get, Function.update_self, Option.some.injEq] at hhd'
  subst hhd'
  simp only [withTable_self] at hretry
  rcases Store.alloc_ok halloc with ⟨rfl, rfl⟩ | ⟨hne, hfresh, rfl⟩
  · have hnull := alloc_null (by decide) halloc
    rw [if_pos rfl] at hretry
    obtain ⟨table, m, halloc', hretry⟩ := bind_ok hretry
    obtain ⟨hd'', hhd'', rfl⟩ := setDirectoryVirtual_ok hretry
    refine ⟨table, phys, ?_⟩
    have hh : m.handles = Function.update s.handles h (some (hd.withTable i 0)) := by
      rcases Store.alloc_ok halloc' with ⟨-, rfl⟩ | ⟨-, -, rfl⟩ <;> rfl
    rw [hh, Function.update_self] at hhd''
    cases hhd''
    have hh' : Function.update m.handles h (some ((hd.withTable i 0).withTable i table)) =
        Function.update s.handles h (some (hd.withTable i table)) := by
      rw [hh, Function.update_idem, withTable_withTable]
    rcases Store.alloc_ok halloc' with ⟨rfl, rfl⟩ | ⟨hne, hfresh, rfl⟩
    · exact ⟨rfl, fun h => absurd rfl h, Nat.lt_add_right 1 (Nat.lt_succ_self _), halign,
        fun h => absurd hnull h, hh', fun h => absurd rfl h⟩
    · have hnone : Function.update s.tables hd.directory
          (some (Function.update dir i (phys ||| uint16 flags))) table = none := hfresh.vacant.1
      have hdir : table ≠ hd.directory := by
        rintro rfl
        simp at hnone
      rw [Function.update_of_ne hdir] at hnone
      refine ⟨aligned_iff_mod.mpr hfresh.1, fun _ => hnone, Nat.lt_add_right 1 (Nat.lt_succ_self _), halign,
        fun h => absurd hnull h, hh', fun _ => ?_⟩
      exact Function.update_comm hdir.symm _ _ _
  · rw [if_neg hne] at hretry
    obtain ⟨-, rfl⟩ := pure_ok hretry
    refine ⟨table, phys, aligned_iff_mod.mpr hfresh.1, fun _ => hfresh.vacant.1, Nat.lt_succ_self _,
      halign, fun _ => ?_, rfl, fun _ => rfl⟩
    rw [← hphys]
    exact translation_congr rfl rfl rfl

theorem newTable_added (hok : HandleOk s h hd dir) {u : Kernel} {table phys e : Word}
    (hv : hd.directoryVirtual i = 0) (hl : TableLinked s u h hd dir i flags table phys) {x : Unit}
    (hset : setPageEntry h i j e u = .ok (x, t)) :
    TableAdded s t h hd dir i j e flags table phys := by
  obtain ⟨-, hd', hhd', hset⟩ := Store.bind_load_ok hset
  rw [handles_get, hl.handles, Function.update_self] at hhd'
  cases hhd'
  obtain ⟨hne, y, hy, rfl⟩ := Store.modify_ok hset
  simp only [withTable_self] at hne hy
  have hfresh := hl.fresh hne
  have hdir := hok.directory_ne_of_fresh hfresh
  have htables := hl.tables hne
  rw [tables_get, htables, Function.update_of_ne hdir.symm, Function.update_self] at hy
  cases hy
  refine ⟨hv, hne, hl.aligned, hfresh, hl.requests, hl.phys_aligned, hl.translation, hl.handles, ?_⟩
  simp only [tables_put, tables_get, htables, withTable_self]
  rw [Function.update_comm hdir, Function.update_idem]

/-- `paging_map_page` writes the entry, to the page table that is there or to a new one. -/
theorem pagingMapPage_writes (hok : HandleOk s h hd dir)
    (hrun : pagingMapPage h va p flags s = .ok (0, t)) :
    va &&& 0xfff = 0 ∧ p &&& 0xfff = 0 ∧
      (EntryWritten s t hd (vAddrPagedirIndex va) (vAddrPagetblIndex va) (p ||| uint16 flags) ∨
        ∃ table phys, TableAdded s t h hd dir (vAddrPagedirIndex va) (vAddrPagetblIndex va)
          (p ||| uint16 flags) flags table phys) := by
  rw [pagingMapPage] at hrun
  split at hrun
  · cases hrun
  rename_i halign
  simp only [Bool.or_eq_true, Bool.not_eq_true', not_or, Bool.not_eq_false, aligned_iff] at halign
  refine ⟨halign.1, halign.2, ?_⟩
  obtain ⟨_, u, hadd, hrun⟩ := bind_ok hrun
  obtain ⟨_, v, hretry, hrun⟩ := bind_ok hrun
  obtain ⟨_, w, hset, hrun⟩ := bind_ok hrun
  obtain ⟨-, rfl⟩ := pure_ok hrun
  by_cases hv : hd.directoryVirtual (vAddrPagedirIndex va) = 0
  · obtain ⟨table, phys, hl⟩ := newTable_linked hok hv hadd hretry
    exact .inr ⟨table, phys, newTable_added hok hv hl hset⟩
  · left
    obtain ⟨-, hd', hhd', hadd⟩ := Store.bind_load_ok hadd
    obtain rfl : hd = hd' := Option.some.inj (hok.handle.symm.trans hhd')
    rw [if_neg hv] at hadd
    obtain ⟨-, rfl⟩ := pure_ok hadd
    obtain ⟨-, hd', hhd', hretry⟩ := Store.bind_load_ok hretry
    obtain rfl : hd = hd' := Option.some.inj (hok.handle.symm.trans hhd')
    rw [if_neg hv] at hretry
    obtain ⟨-, rfl⟩ := pure_ok hretry
    obtain ⟨-, hd', hhd', hset⟩ := Store.bind_load_ok hset
    obtain rfl : hd = hd' := Option.some.inj (hok.handle.symm.trans hhd')
    obtain ⟨-, x, hx, rfl⟩ := Store.modify_ok hset
    exact ⟨hv, ⟨x, hx, rfl⟩, rfl⟩

/-- A handle that is not written keeps its page tables, and its directory if that is not written. -/
theorem HandleOk.mono (hok : HandleOk s h hd dir) {dir' : Nat → Word} (hhandle : t.handles h = some hd)
    (hdir : t.tables hd.directory = some dir') (htables : ∀ a, s.tables a ≠ none → t.tables a ≠ none) :
    HandleOk t h hd dir' :=
  { hok with
    handle := hhandle
    directory := hdir
    tables := fun i hi hv => htables _ (hok.tables i hi hv) }

theorem TableAdded.lt {e table phys : Word} (hadd : TableAdded s t h hd dir i j e flags table phys)
    (hok : HandleOk s h hd dir) (hi : i < 1024) : i < 1023 := by
  have hne : i ≠ 1023 := by
    rintro rfl
    exact hok.directory_ne_null (hok.self.symm.trans hadd.unlinked)
  omega

/-- A handle with one more page table. -/
theorem HandleOk.link {table : Word} {dir' : Nat → Word} (hok : HandleOk s h hd dir) (hi : i < 1023)
    (hne : table ≠ 0) (hfresh : s.tables table = none)
    (hhandle : t.handles h = some (hd.withTable i table)) (hdir : t.tables hd.directory = some dir')
    (htables : ∀ a, s.tables a ≠ none → t.tables a ≠ none) (htable : t.tables table ≠ none) :
    HandleOk t h (hd.withTable i table) dir' := by
  have hold : ∀ k < 1024, hd.directoryVirtual k ≠ table := fun k => hok.ne_of_fresh hne hfresh
  refine ⟨hok.ne_null, hhandle, hok.directory_ne_null, hdir, ?_, ?_, ?_⟩
  · rw [withTable_of_ne _ _ _ hi.ne', hok.self]
    rfl
  · intro k hk hv
    by_cases hki : k = i
    · subst hki
      rw [withTable_self]
      exact htable
    · rw [withTable_of_ne _ _ _ hki] at hv ⊢
      exact htables _ (hok.tables k hk hv)
  · intro k hk l hl hv hkl
    by_cases hki : k = i <;> by_cases hli : l = i
    · rw [hki, hli]
    · subst hki
      rw [withTable_self, withTable_of_ne _ _ _ hli] at hkl
      exact absurd hkl.symm (hold l hl)
    · subst hli
      rw [withTable_self, withTable_of_ne _ _ _ hki] at hkl
      exact absurd hkl (hold k hk)
    · rw [withTable_of_ne _ _ _ hki] at hv hkl
      rw [withTable_of_ne _ _ _ hli] at hkl
      exact hok.inj k hk l hl hv hkl

theorem HandleOk.added {e table phys : Word} (hok : HandleOk s h hd dir) (hi : i < 1024)
    (hadd : TableAdded s t h hd dir i j e flags table phys) :
    HandleOk t h (hd.withTable i table) (Function.update dir i (phys ||| uint16 flags)) := by
  refine hok.link (hadd.lt hok hi) hadd.ne_null hadd.fresh ?_ ?_ (fun a ha => ?_) ?_
  · rw [hadd.handles, Function.update_self]
  · rw [hadd.tables]
    exact Function.update_self _ _ _
  · rw [hadd.tables]
    exact update_ne_none (update_ne_none ha)
  · rw [hadd.tables]
    exact update_ne_none (by simp)

end

/-! ## `paging_clone_directory` -/

/-- A slot of a copy, with its page table and its entry: not there, the kernel's, or a new page table
with the same contents. -/
inductive SlotCopied (s t : Kernel) (src ker : PageDirectoryHandle) (dir kdir : Nat → Word) (i : Nat) :
    Word → Word → Prop
  | absent : dir i = 0 → SlotCopied s t src ker dir kdir i 0 0
  | shared : dir i ≠ 0 → kdir i = dir i →
      SlotCopied s t src ker dir kdir i (ker.directoryVirtual i) (dir i)
  | copied {table phys : Word} {x : Nat → Word} : dir i ≠ 0 → kdir i ≠ dir i → table ≠ 0 →
      s.tables table = none → s.tables (src.directoryVirtual i) = some x → t.tables table = some x →
      phys &&& 0xfff = 0 → s.translation s.currentDirectory table = .ok phys →
      SlotCopied s t src ker dir kdir i table (phys ||| pageEntryFlags (dir i))

/-- The first `n` slots are copied. -/
structure Copying (s m : Kernel) (copy D : Word) (src ker : PageDirectoryHandle)
    (dir kdir : Nat → Word) (n : Nat) (dv d : Nat → Word) : Prop where
  kept : Extends s m
  image : m.image = s.image
  current : m.currentDirectory = s.currentDirectory
  cr4 : m.cr4 = s.cr4
  new : s.handles copy = none
  new' : s.tables D = none
  handle : m.handles copy = some ⟨D, dv⟩
  directory : m.tables D = some d
  slots : ∀ i < n, SlotCopied s m src ker dir kdir i (dv i) (d i)
  rest : ∀ i, n ≤ i → dv i = 0 ∧ d i = 0
  inj : ∀ i < n, ∀ j < n, dv i ≠ 0 → dv i = dv j → i = j
  apart : ∀ i < n, dv i ≠ D

section

variable {s m t : Kernel} {source copy D cur : Word} {src ker : PageDirectoryHandle}
  {dir kdir dv d : Nat → Word} {i n : Nat} {table e : Word}

/-- Only the contents of the page table matter. -/
theorem SlotCopied.mono (hslot : SlotCopied s m src ker dir kdir i table e)
    (hsame : table ≠ 0 → t.tables table = m.tables table) :
    SlotCopied s t src ker dir kdir i table e := by
  cases hslot with
  | absent h₀ => exact .absent h₀
  | shared hne heq => exact .shared hne heq
  | copied hne hne' hn hfresh hx hy halign hphys =>
    exact .copied hne hne' hn hfresh hx ((hsame hn).trans hy) halign hphys

/-- The page table is the kernel's in that slot, or new. -/
theorem SlotCopied.cases (hslot : SlotCopied s m src ker dir kdir i table e) (hne : table ≠ 0) :
    table = ker.directoryVirtual i ∨ s.tables table = none ∧ m.tables table ≠ none := by
  cases hslot with
  | absent h₀ => exact absurd rfl hne
  | shared => exact .inl rfl
  | copied _ _ _ hfresh _ hy => exact .inr ⟨hfresh, by simp [hy]⟩

/-- One more slot. -/
theorem Copying.slot (hc : Copying s m copy D src ker dir kdir n dv d) (hn : n < 1023) {kernel : Word}
    (hker : HandleOk s kernel ker kdir) (hkept : Extends s t) (himage : t.image = m.image)
    (hcurrent : t.currentDirectory = m.currentDirectory) (hcr4 : t.cr4 = m.cr4)
    (hhandle : t.handles copy = some ⟨D, Function.update dv n table⟩)
    (hdirectory : t.tables D = some (Function.update d n e))
    (hslot : SlotCopied s t src ker dir kdir n table e)
    (hother : ∀ a, m.tables a ≠ none → a ≠ D → t.tables a = m.tables a)
    (hnew : table ≠ 0 → table = ker.directoryVirtual n ∨ m.tables table = none) (hD : D ≠ 0) :
    Copying s t copy D src ker dir kdir (n + 1) (Function.update dv n table)
      (Function.update d n e) := by
  -- a page table of the slots before exists
  have hold : ∀ i < n, dv i ≠ 0 → m.tables (dv i) ≠ none := by
    intro i hi hv
    rcases (hc.slots i hi).cases hv with he | ⟨-, hm⟩
    · rw [he] at hv ⊢
      obtain ⟨x, hx⟩ := Option.ne_none_iff_exists'.mp (hker.tables i (by omega) hv)
      simp [hc.kept.tables _ _ hx]
    · exact hm
  have hdiff : ∀ i < n, table ≠ 0 → dv i ≠ table := by
    rintro i hi hne rfl
    rcases hnew hne with he | hnone
    · rcases (hc.slots i hi).cases hne with he' | ⟨hs, -⟩
      · have := hker.inj i (by omega) n (by omega) (he' ▸ hne) (he'.symm.trans he)
        omega
      · exact hker.tables n (by omega) (he ▸ hne) (he ▸ hs)
    · exact hold i hi hne hnone
  refine ⟨hkept, himage.trans hc.image, hcurrent.trans hc.current, hcr4.trans hc.cr4, hc.new, hc.new',
    hhandle, hdirectory, ?_, ?_, ?_, ?_⟩
  · intro i hi
    by_cases hin : i = n
    · subst hin
      simpa using hslot
    · rw [Function.update_of_ne hin, Function.update_of_ne hin]
      have hlt : i < n := by omega
      exact (hc.slots i hlt).mono fun hv => hother _ (hold i hlt hv) (hc.apart i hlt)
  · intro i hi
    have hin : i ≠ n := by omega
    rw [Function.update_of_ne hin, Function.update_of_ne hin]
    exact hc.rest i (by omega)
  · intro i hi j hj hv hij
    by_cases hin : i = n <;> by_cases hjn : j = n
    · rw [hin, hjn]
    · subst hin
      rw [Function.update_self] at hv
      rw [Function.update_self, Function.update_of_ne hjn] at hij
      exact absurd hij.symm (hdiff j (by omega) hv)
    · subst hjn
      rw [Function.update_of_ne hin] at hv
      rw [Function.update_self, Function.update_of_ne hin] at hij
      exact absurd hij (hdiff i (by omega) (hij ▸ hv))
    · rw [Function.update_of_ne hin] at hv hij
      rw [Function.update_of_ne hjn] at hij
      exact hc.inj i (by omega) j (by omega) hv hij
  · intro i hi
    by_cases hin : i = n
    · subst hin
      rw [Function.update_self]
      intro he
      have hne : table ≠ 0 := he ▸ hD
      rcases hnew hne with he' | hnone
      · refine hker.tables i (by omega) (he' ▸ hne) ?_
        rw [← he', he]
        exact hc.new'
      · rw [he, hc.directory] at hnone
        cases hnone
    · rw [Function.update_of_ne hin]
      exact hc.apart i (by omega)

/-- A slot that is not there stays so. -/
theorem Copying.skip (hc : Copying s m copy D src ker dir kdir n dv d) (hn : n < 1023) {kernel : Word}
    (hker : HandleOk s kernel ker kdir) (hD : D ≠ 0) (h₀ : dir n = 0) :
    Copying s m copy D src ker dir kdir (n + 1) dv d := by
  obtain ⟨hv, hd⟩ := hc.rest n (Nat.le_refl n)
  have hdv : Function.update dv n 0 = dv := Function.update_eq_self_iff.mpr hv.symm
  have hdd : Function.update d n 0 = d := Function.update_eq_self_iff.mpr hd.symm
  have := hc.slot hn hker hc.kept rfl rfl rfl (by rw [hdv, hc.handle]) (by rw [hdd, hc.directory])
    (.absent h₀) (fun _ _ _ => rfl) (fun h => absurd rfl h) hD
  rwa [hdv, hdd] at this

/-- Page tables and handles of `s` are kept when what is new is written. -/
theorem Extends.writeTable (hkept : Extends s m) (hnew : s.tables D = none) {x : Nat → Word}
    (htables : t.tables = Function.update m.tables D (some x)) (hhandles : t.handles = m.handles) :
    Extends s t := by
  refine ⟨fun a y hy => ?_, fun a y hy => by rw [hhandles, hkept.handles a y hy]⟩
  rw [htables, Function.update_of_ne, hkept.tables a y hy]
  rintro rfl
  rw [hnew] at hy
  cases hy

theorem Extends.writeHandle (hkept : Extends s m) (hnew : s.handles copy = none)
    {hd : PageDirectoryHandle} (hhandles : t.handles = Function.update m.handles copy (some hd))
    (htables : t.tables = m.tables) : Extends s t := by
  refine ⟨fun a y hy => by rw [htables, hkept.tables a y hy], fun a y hy => ?_⟩
  rw [hhandles, Function.update_of_ne, hkept.handles a y hy]
  rintro rfl
  rw [hnew] at hy
  cases hy

theorem Extends.write (hkept : Extends s m) (hnew : s.handles copy = none)
    {hd : PageDirectoryHandle} (hhandles : t.handles = Function.update m.handles copy (some hd))
    (hnew' : s.tables D = none) {x : Nat → Word}
    (htables : t.tables = Function.update m.tables D (some x)) : Extends s t :=
  (@Extends.writeTable s m { m with tables := t.tables } D hkept hnew' x htables rfl).writeHandle hnew
    hhandles rfl

/-- One iteration. -/
theorem cloneEntry_copies {x : Unit} {cdir : Nat → Word} {chd : PageDirectoryHandle}
    (hc : Copying s m copy D src ker dir kdir n dv d) (hn : n < 1023) (hsrc : HandleOk s source src dir)
    (hker : HandleOk s s.image.kernelPageDirectory ker kdir)
    (hcur : HandleOk s s.currentDirectory chd cdir) (hD : D ≠ 0)
    (h : cloneEntry source copy n m = .ok (x, t)) :
    ∃ dv' d', Copying s t copy D src ker dir kdir (n + 1) dv' d' := by
  obtain ⟨-, src', hsrc', h⟩ := Store.bind_load_ok h
  obtain rfl := Option.some.inj ((hc.kept.handles _ _ hsrc.handle).symm.trans hsrc')
  obtain ⟨-, dir', hdir', h⟩ := Store.bind_load_ok h
  obtain rfl := Option.some.inj ((hc.kept.tables _ _ hsrc.directory).symm.trans hdir')
  simp only at h
  split at h
  · rename_i h₀
    obtain ⟨-, rfl⟩ := pure_ok h
    exact ⟨dv, d, hc.skip hn hker hD h₀⟩
  rename_i h₀
  replace h := bind_get_ok h
  rw [hc.image] at h
  obtain ⟨-, ker', hker', h⟩ := Store.bind_load_ok h
  obtain rfl := Option.some.inj ((hc.kept.handles _ _ hker.handle).symm.trans hker')
  obtain ⟨-, kdir', hkdir', h⟩ := Store.bind_load_ok h
  obtain rfl := Option.some.inj ((hc.kept.tables _ _ hker.directory).symm.trans hkdir')
  split at h
  · rename_i heq
    obtain ⟨_, m₁, hset, h⟩ := bind_ok h
    obtain ⟨hd₁, dir₁, hhd₁, -, hdir₁, rfl⟩ := setDirectory_ok hset
    obtain rfl := Option.some.inj (hc.handle.symm.trans hhd₁)
    obtain rfl := Option.some.inj (hc.directory.symm.trans hdir₁)
    obtain ⟨hd₂, hhd₂, rfl⟩ := setDirectoryVirtual_ok h
    obtain rfl := Option.some.inj (hc.handle.symm.trans hhd₂)
    refine ⟨_, _, hc.slot hn hker ?_ rfl rfl rfl ?_ ?_
      (.shared h₀ heq) ?_ (fun _ => .inl rfl) hD⟩
    · exact hc.kept.write hc.new rfl hc.new' rfl
    · exact Function.update_self _ _ _
    · rw [← heq]
      exact Function.update_self _ _ _
    · exact fun a _ ha => Function.update_of_ne ha _ _
  · rename_i hne
    obtain ⟨table, m₁, halloc, h⟩ := bind_ok h
    obtain ⟨_, m₂, hset, h⟩ := bind_ok h
    obtain ⟨hv, x, hx, h⟩ := Store.bind_load_ok h
    obtain ⟨_, m₃, hput, h⟩ := bind_ok h
    obtain ⟨phys, m₄, hphys, hlast⟩ := bind_ok (bind_get_ok h)
    obtain rfl := virtualToPhysicalAddr_state hphys
    obtain ⟨hne₀, y, hy, hm₄⟩ := Store.modify_ok hput
    obtain ⟨-, hfresh, rfl⟩ := (Store.alloc_ok halloc).resolve_left fun h => hne₀ h.1
    obtain ⟨hd₁, hhd₁, rfl⟩ := setDirectoryVirtual_ok hset
    obtain rfl := Option.some.inj (hc.handle.symm.trans hhd₁)
    -- the page table is new, and so not the directory of the copy
    have hnone : m.tables table = none := hfresh.vacant.1
    have hnone' : s.tables table = none := by
      by_contra hs
      obtain ⟨z, hz⟩ := Option.ne_none_iff_exists'.mp hs
      rw [hc.kept.tables _ _ hz] at hnone
      cases hnone
    have hDt : D ≠ table := by
      rintro rfl
      rw [hc.directory] at hnone
      cases hnone
    have hm₄t : m₄.tables = Function.update m.tables table (some x) := by
      rw [hm₄]
      exact Function.update_idem _ _ _
    have hm₄h : m₄.handles = Function.update m.handles copy (some ⟨D, Function.update dv n table⟩) := by
      rw [hm₄]
      rfl
    obtain ⟨himage, hcurrent, hcr4⟩ : m₄.image = m.image ∧
        m₄.currentDirectory = m.currentDirectory ∧ m₄.cr4 = m.cr4 := by
      rw [hm₄]
      exact ⟨rfl, rfl, rfl⟩
    have hkept₄ : Extends s m₄ := hc.kept.write hc.new hm₄h hnone' hm₄t
    -- the source has its table since before
    obtain ⟨z, hz⟩ := Option.ne_none_iff_exists'.mp (hsrc.tables n (by omega) hv)
    have hxz : s.tables (src.directoryVirtual n) = some x := by
      have hsrct : src.directoryVirtual n ≠ table := by
        intro he
        rw [he, hnone'] at hz
        cases hz
      have hx' : Function.update m.tables table (some fun _ => 0) (src.directoryVirtual n) = some x := hx
      rw [Function.update_of_ne hsrct, hc.kept.tables _ _ hz] at hx'
      rw [hz, hx']
    have htrans : s.translation s.currentDirectory table = .ok phys := by
      rw [← hcur.translation_extend hkept₄ (hcr4.trans hc.cr4), ← hc.current, ← hcurrent]
      exact translation_ok hphys
    obtain ⟨hd₅, dir₅, hhd₅, -, hdir₅, rfl⟩ := setDirectory_ok hlast
    obtain rfl : (⟨D, Function.update dv n table⟩ : PageDirectoryHandle) = hd₅ := by
      rw [hm₄h, Function.update_self] at hhd₅
      exact Option.some.inj hhd₅
    obtain rfl : d = dir₅ := by
      have : m₄.tables D = some dir₅ := hdir₅
      rw [hm₄t, Function.update_of_ne hDt, hc.directory] at this
      exact Option.some.inj this
    refine ⟨_, _, hc.slot hn hker ?_ himage hcurrent hcr4 ?_ ?_
      (.copied h₀ hne hne₀ hnone' hxz ?_ ?_ htrans) ?_ (fun _ => .inr hnone) hD⟩
    · exact hkept₄.writeTable hc.new' rfl rfl
    · exact hhd₅
    · exact Function.update_self _ _ _
    · refine (Function.update_of_ne hDt.symm _ _).trans ?_
      rw [hm₄t, Function.update_self]
    · exact virtualToPhysicalAddr_aligned (aligned_iff_mod.mpr hfresh.1) hphys
    · intro a ha haD
      have hat : a ≠ table := by
        rintro rfl
        exact ha hnone
      refine (Function.update_of_ne haD _ _).trans ?_
      rw [hm₄t, Function.update_of_ne hat]

theorem cloneEntries_copies {x : Unit} {cdir : Nat → Word} {chd : PageDirectoryHandle}
    (hsrc : HandleOk s source src dir) (hker : HandleOk s s.image.kernelPageDirectory ker kdir)
    (hcur : HandleOk s s.currentDirectory chd cdir) (hD : D ≠ 0) (hn : n ≤ 1023)
    (hc : Copying s m copy D src ker dir kdir (1023 - n) dv d)
    (h : cloneEntries source copy n m = .ok (x, t)) :
    ∃ dv' d', Copying s t copy D src ker dir kdir 1023 dv' d' := by
  induction n generalizing m dv d with
  | zero =>
    obtain ⟨-, rfl⟩ := pure_ok h
    exact ⟨dv, d, hc⟩
  | succ n ih =>
    obtain ⟨_, u, hentry, h⟩ := bind_ok h
    obtain ⟨dv', d', hc'⟩ := cloneEntry_copies hc (by omega) hsrc hker hcur hD hentry
    have hsucc : 1023 - (n + 1) + 1 = 1023 - n := by omega
    exact ih (by omega) (hsucc ▸ hc') h

/-- What `paging_clone_directory` returns: a new handle, whose last entry is for itself. -/
structure Cloned (s t : Kernel) (copy D : Word) (src ker : PageDirectoryHandle)
    (dir kdir dv d : Nat → Word) (phys : Word) : Prop where
  kept : Extends s t
  new : s.handles copy = none
  new' : s.tables D = none
  ok : HandleOk t copy ⟨D, dv⟩ d
  slots : ∀ i < 1023, SlotCopied s t src ker dir kdir i (dv i) (d i)
  aligned : phys &&& 0xfff = 0
  translation : s.translation s.currentDirectory D = .ok phys
  last : d 1023 = phys ||| (PAGING_WRITABLE_PAGE ||| PAGING_PRESENT)

theorem pagingCloneDirectory_copies {cdir : Nat → Word} {chd : PageDirectoryHandle}
    (hsrc : HandleOk s source src dir) (hker : HandleOk s s.image.kernelPageDirectory ker kdir)
    (hcur : HandleOk s s.currentDirectory chd cdir)
    (h : pagingCloneDirectory source s = .ok (copy, t)) :
    ∃ D dv d phys, Cloned s t copy D src ker dir kdir dv d phys := by
  obtain ⟨D, m, u, v, phys, hcopy, hD, halign, hnew, hnew', hm, hclone, hlast, hphys, hset⟩ :=
    pagingCloneDirectory_parts h
  -- before the loop
  have hc : Copying s m copy D src ker dir kdir 0 (fun _ => 0) (fun _ => 0) := by
    refine ⟨?_, by rw [hm], by rw [hm], by rw [hm], hnew, hnew', ?_, ?_, ?_, fun _ _ => ⟨rfl, rfl⟩, ?_,
      ?_⟩
    · exact .of_new hnew hnew' (by rw [hm]) (by rw [hm])
    · rw [hm]
      exact Function.update_self _ _ _
    · rw [hm]
      exact Function.update_self _ _ _
    all_goals exact fun i hi => absurd hi (Nat.not_lt_zero i)
  obtain ⟨dv, d, hc⟩ := cloneEntries_copies hsrc hker hcur hD (Nat.le_refl 1023) hc hclone
  -- and behind it
  obtain ⟨hd₅, hhd₅, hv⟩ := setDirectoryVirtual_ok hlast
  obtain rfl := Option.some.inj (hc.handle.symm.trans hhd₅)
  have hvh : v.handles = Function.update u.handles copy (some ⟨D, Function.update dv 1023 D⟩) := by
    rw [hv]
  have hvt : v.tables = u.tables := by rw [hv]
  have hkept : Extends s v := hc.kept.writeHandle hc.new hvh hvt
  obtain ⟨hd₆, dir₆, hhd₆, -, hdir₆, ht⟩ := setDirectory_ok hset
  rw [hvh, Function.update_self] at hhd₆
  cases hhd₆
  rw [hvt, hc.directory] at hdir₆
  cases hdir₆
  have hth : t.handles = v.handles := by rw [ht]
  have htt : t.tables = Function.update u.tables D (some (Function.update d 1023
      (phys ||| (PAGING_WRITABLE_PAGE ||| PAGING_PRESENT)))) := by rw [ht, hvt]
  -- the page tables of the copy are there
  have htable : ∀ i < 1023, dv i ≠ 0 → u.tables (dv i) ≠ none := by
    intro i hi hne
    rcases (hc.slots i hi).cases hne with he | ⟨-, hu⟩
    · rw [he] at hne ⊢
      obtain ⟨x, hx⟩ := Option.ne_none_iff_exists'.mp (hker.tables i (by omega) hne)
      simp [hc.kept.tables _ _ hx]
    · exact hu
  refine ⟨D, Function.update dv 1023 D, Function.update d 1023 (phys ||| _), phys,
    hkept.writeTable hnew' (htt.trans (by rw [hvt])) hth, hnew, hnew', ⟨hcopy, ?_, hD, ?_, ?_, ?_, ?_⟩,
    ?_, virtualToPhysicalAddr_aligned halign hphys, ?_, Function.update_self _ _ _⟩
  · rw [hth, hvh, Function.update_self]
  · rw [htt]
    exact Function.update_self _ _ _
  · exact Function.update_self 1023 D dv
  · intro i hi hne
    rw [htt]
    by_cases hlast : i = 1023
    · subst hlast
      simp
    · simp only [Function.update_of_ne hlast] at hne ⊢
      exact update_ne_none (htable i (by omega) hne)
  · intro i hi j hj hne hij
    by_cases hil : i = 1023 <;> by_cases hjl : j = 1023
    · rw [hil, hjl]
    · subst hil
      simp only [Function.update_self, Function.update_of_ne hjl] at hij
      exact absurd hij.symm (hc.apart j (by omega))
    · subst hjl
      simp only [Function.update_self, Function.update_of_ne hil] at hij
      exact absurd hij (hc.apart i (by omega))
    · simp only [Function.update_of_ne hil, Function.update_of_ne hjl] at hne hij
      exact hc.inj i (by omega) j (by omega) hne hij
  · intro i hi
    have hil : i ≠ 1023 := by omega
    rw [Function.update_of_ne hil, Function.update_of_ne hil]
    refine (hc.slots i hi).mono fun hne => ?_
    rw [htt, Function.update_of_ne (hc.apart i hi)]
  · rw [← hcur.translation_extend hkept (by rw [hv, hc.cr4]), ← hc.current]
    have : u.currentDirectory = v.currentDirectory := by rw [hv]
    rw [this]
    exact translation_ok hphys

end

end AvocadOS
