import AvocadOS.Kernel.Links
import AvocadOS.Lib.TwoLevel
import Mathlib.Tactic.ByContra

/-!
# Page tables as two-level tables

`Kernel.space s h` are the page tables of the handle `h`, below entry 1023, as a two-level table
from page numbers to entries. `DirInv` relates the handle, its directory and its tables.

* `translate_eq`: `virtual_to_physical_addr` reads the entry of the page;
* `pagingMapPage_ok`: `paging_map_page` is a `TwoLevel.set`, and writes nothing that was there in
  an earlier state `s₀` whose objects the handle does not own;
* `pagingMapPages_ok`, `pagingMapFromTo_ok`: the same for ranges, with `TwoLevel.setRange`.
-/

namespace AvocadOS

open Kernel

/-! ## Addresses and entries -/

theorem vAddrPagedirIndex_eq (va : Word) : vAddrPagedirIndex va = va.toNat / 4096 / 1024 := by
  rw [vAddrPagedirIndex, Nat.shiftRight_eq_div_pow, Nat.div_div_eq_div_mul]

theorem vAddrPagetblIndex_eq (va : Word) : vAddrPagetblIndex va = va.toNat / 4096 % 1024 := by
  rw [vAddrPagetblIndex, Nat.shiftRight_eq_div_pow]
  exact Nat.and_two_pow_sub_one_eq_mod _ 10

theorem pageEntryAddr_or {p f : Word} (hp : p &&& 0xfff = 0) (hf : f &&& ADDR_MASK = 0) :
    pageEntryAddr (p ||| f) = p := by
  have hmask : ADDR_MASK ||| 0xfff = BitVec.allOnes 32 := by decide
  calc pageEntryAddr (p ||| f) = p &&& ADDR_MASK ||| f &&& ADDR_MASK := BitVec.and_or_distrib_right ..
    _ = p &&& ADDR_MASK ||| p &&& 0xfff := by rw [hf, hp]
    _ = p := by rw [← BitVec.and_or_distrib_left, hmask, BitVec.and_allOnes]

theorem pageEntryPseBit_or {p f : Word} (hp : p &&& 0xfff = 0) :
    pageEntryPseBit (p ||| f) = pageEntryPseBit f := by
  have hmask : (0x80 : Word) = 0xfff &&& 0x80 := by decide
  have hp' : p &&& 0x80 = 0 := by
    rw [hmask, ← BitVec.and_assoc, hp]
    exact BitVec.zero_and
  rw [pageEntryPseBit, BitVec.and_or_distrib_right, hp']
  exact BitVec.zero_or

theorem aligned_iff {a : Word} : pagingAddrIsPageAligned a = true ↔ a &&& 0xfff = 0 := by
  simp [pagingAddrIsPageAligned]

theorem and_fff_toNat (a : Word) : (a &&& 0xfff).toNat = a.toNat % 4096 := by
  rw [BitVec.toNat_and]
  exact Nat.and_two_pow_sub_one_eq_mod _ 12

theorem aligned_iff_mod {a : Word} : a &&& 0xfff = 0 ↔ a.toNat % 4096 = 0 := by
  rw [← and_fff_toNat, ← BitVec.toNat_inj]
  rfl

/-- The address of an entry, and what is added to it, have no bits in common. -/
theorem pageEntryAddr_aligned (e : Word) : pageEntryAddr e &&& 0xfff = 0 := by
  have hmask : ADDR_MASK &&& 0xfff = 0 := by decide
  rw [pageEntryAddr, BitVec.and_assoc, hmask]
  exact BitVec.and_zero

/-! ## Directories -/

/-- A frame or a table at a physical address with `P`, with the flags that the kernel uses. -/
def Entry (P : Word → Prop) (e : Word) : Prop :=
  ∃ phys flags, P phys ∧ phys &&& 0xfff = 0 ∧ (flags = 3 ∨ flags = 7) ∧ e = phys ||| flags

theorem Entry.pse {P : Word → Prop} {e : Word} (h : Entry P e) : pageEntryPseBit e = 0 := by
  obtain ⟨phys, flags, -, hphys, hflags, rfl⟩ := h
  rw [pageEntryPseBit_or hphys]
  rcases hflags with rfl | rfl <;> decide

theorem Entry.addr {P : Word → Prop} {e : Word} (h : Entry P e) : P (pageEntryAddr e) := by
  obtain ⟨phys, flags, hP, hphys, hflags, rfl⟩ := h
  rw [pageEntryAddr_or hphys (by rcases hflags with rfl | rfl <;> decide)]
  exact hP

theorem or_present {p flags : Word} (hf : flags = 3 ∨ flags = 7) :
    (p ||| flags) &&& PAGING_PRESENT ≠ 0 := by
  intro h
  rw [BitVec.and_or_distrib_right] at h
  have := (BitVec.or_eq_zero_iff.mp h).2
  rcases hf with rfl | rfl <;> exact absurd this (by decide)

theorem Entry.is_present {P : Word → Prop} {e : Word} (h : Entry P e) : e &&& PAGING_PRESENT ≠ 0 := by
  obtain ⟨phys, flags, -, -, hf, rfl⟩ := h
  exact or_present hf

theorem Entry.ne_zero {P : Word → Prop} {e : Word} (h : Entry P e) : e ≠ 0 := by
  rintro rfl
  exact h.is_present rfl

/-- The handle `h` is `hd`, with the directory `dir`, whose tables are at addresses with `P`. -/
structure DirInv (P : Word → Prop) (s : Kernel) (h : Word) (hd : PageDirectoryHandle)
    (dir : Nat → Word) : Prop where
  ne_null : h ≠ 0
  handle : s.handles h = some hd
  directory_ne_null : hd.directory ≠ 0
  directory : s.tables hd.directory = some dir
  self : hd.directoryVirtual 1023 = hd.directory
  tables : ∀ i < 1024, hd.directoryVirtual i ≠ 0 → s.tables (hd.directoryVirtual i) ≠ none
  inj : ∀ i < 1024, ∀ j < 1024, hd.directoryVirtual i ≠ 0 →
    hd.directoryVirtual i = hd.directoryVirtual j → i = j
  present : ∀ i < 1024, hd.directoryVirtual i ≠ 0 → Entry P (dir i)
  absent : ∀ i < 1024, hd.directoryVirtual i = 0 → dir i = 0

/-- The page tables below entry 1023. -/
def Kernel.space (s : Kernel) (h : Word) : TwoLevel Word := fun i =>
  if i < 1023 then
    (s.handles h).bind fun hd =>
      if hd.directoryVirtual i = 0 then none else s.tables (hd.directoryVirtual i)
  else none

/-- The entry for the page of an address. -/
def Kernel.entryAt (s : Kernel) (h va : Word) : Option Word := (s.space h).get 1024 (va.toNat / 4096)

section

variable {P : Word → Prop} {s t : Kernel} {h va : Word} {hd : PageDirectoryHandle} {dir : Nat → Word}

theorem DirInv.space_eq (hinv : DirInv P s h hd dir) {i : Nat} (hi : i < 1023) :
    s.space h i =
      if hd.directoryVirtual i = 0 then none else s.tables (hd.directoryVirtual i) := by
  rw [Kernel.space, if_pos hi, hinv.handle]
  rfl

theorem DirInv.pse (hinv : DirInv P s h hd dir) {i : Nat} (hi : i < 1024) :
    pageEntryPseBit (dir i) = 0 := by
  by_cases hv : hd.directoryVirtual i = 0
  · rw [hinv.absent i hi hv]
    rfl
  · exact (hinv.present i hi hv).pse

/-- Only handles and page tables matter. -/
theorem DirInv.congr (hinv : DirInv P s h hd dir) (hhandles : t.handles = s.handles)
    (htables : t.tables = s.tables) : DirInv P t h hd dir ∧ t.space h = s.space h := by
  refine ⟨{ hinv with
    handle := by
      rw [hhandles]
      exact hinv.handle
    directory := by
      rw [htables]
      exact hinv.directory
    tables := by
      rw [htables]
      exact hinv.tables }, ?_⟩
  funext i
  rw [Kernel.space, Kernel.space, hhandles, htables]

theorem DirInv.directoryAddr (hinv : DirInv P s h hd dir) :
    s.directoryAddr h = some (pageEntryAddr (dir 1023)) := by
  simp [Kernel.directoryAddr, hinv.handle, hinv.directory]

theorem dirIndex_lt (va : Word) : va.toNat / 4096 / 1024 < 1024 := by
  have := va.isLt
  omega

/-- `virtual_to_physical_addr` looks the page up. -/
theorem DirInv.translate_eq (hinv : DirInv P s h hd dir) (hi : va.toNat / 4096 / 1024 < 1023) :
    virtualToPhysicalAddr h va s = match s.entryAt h va with
      | none => .error .nullDeref
      | some e => .ok (pageEntryAddr e + vAddrPageframeIndex va, s) := by
  have hpse := hinv.pse (i := vAddrPagedirIndex va) (by rw [vAddrPagedirIndex_eq]; omega)
  rw [virtualToPhysicalAddr, bind_eq (Store.load_eq hinv.ne_null hinv.handle),
    bind_eq (Store.load_eq hinv.directory_ne_null hinv.directory), if_neg (by simp [hpse])]
  rw [vAddrPagedirIndex_eq, vAddrPagetblIndex_eq, Kernel.entryAt, TwoLevel.get, hinv.space_eq hi]
  by_cases hv : hd.directoryVirtual (va.toNat / 4096 / 1024) = 0
  · rw [if_pos hv, hv]
    rfl
  · obtain ⟨u, hu⟩ := Option.ne_none_iff_exists'.mp (hinv.tables _ (by omega) hv)
    rw [bind_eq (Store.load_eq hv hu), if_neg hv, hu]
    rfl

/-- Through entry 1023 the directory is its own page table. -/
theorem DirInv.translate_last (hinv : DirInv P s h hd dir) (hi : va.toNat / 4096 / 1024 = 1023) :
    virtualToPhysicalAddr h va s =
      .ok (pageEntryAddr (dir (va.toNat / 4096 % 1024)) + vAddrPageframeIndex va, s) := by
  have hpse := hinv.pse (i := 1023) (by omega)
  rw [virtualToPhysicalAddr, bind_eq (Store.load_eq hinv.ne_null hinv.handle),
    bind_eq (Store.load_eq hinv.directory_ne_null hinv.directory)]
  simp only [vAddrPagedirIndex_eq, vAddrPagetblIndex_eq, hi]
  rw [if_neg (by simp [hpse]), hinv.self,
    bind_eq (Store.load_eq hinv.directory_ne_null hinv.directory)]
  rfl

/-! ## Writing a page table, and adding one -/

theorem DirInv.ne_directory (hinv : DirInv P s h hd dir) {i : Nat} (hi : i < 1023)
    (hv : hd.directoryVirtual i ≠ 0) : hd.directoryVirtual i ≠ hd.directory := by
  intro he
  rw [← hinv.self] at he
  have := hinv.inj i (by omega) 1023 (by omega) hv he
  omega

theorem DirInv.writeTable (hinv : DirInv P s h hd dir) {i : Nat} (hi : i < 1023)
    (hv : hd.directoryVirtual i ≠ 0) {x : Nat → Word} (hhandles : t.handles = s.handles)
    (htables : t.tables = Function.update s.tables (hd.directoryVirtual i) (some x)) :
    DirInv P t h hd dir ∧ t.space h = Function.update (s.space h) i (some x) := by
  have hinv' : DirInv P t h hd dir := { hinv with
    handle := by rw [hhandles, hinv.handle]
    directory := by
      rw [htables, Function.update_of_ne (hinv.ne_directory hi hv).symm, hinv.directory]
    tables := fun j hj hj' => by
      rw [htables]
      exact update_ne_none (hinv.tables j hj hj') }
  refine ⟨hinv', ?_⟩
  funext j
  by_cases hj : j < 1023
  · rw [hinv'.space_eq hj, htables]
    by_cases hji : j = i
    · subst hji
      rw [if_neg hv, Function.update_self, Function.update_self]
    · rw [Function.update_of_ne hji, hinv.space_eq hj]
      by_cases hv' : hd.directoryVirtual j = 0
      · rw [if_pos hv', if_pos hv']
      · have hne : hd.directoryVirtual j ≠ hd.directoryVirtual i :=
          fun he => hji (hinv.inj j (by omega) i (by omega) hv' he)
        rw [if_neg hv', if_neg hv', Function.update_of_ne hne]
  · have hji : j ≠ i := by omega
    rw [Function.update_of_ne hji, Kernel.space, if_neg hj, Kernel.space, if_neg hj]

theorem DirInv.addTable (hinv : DirInv P s h hd dir) {i : Nat} (hi : i < 1023)
    (hv : hd.directoryVirtual i = 0) {table e : Word} {x : Nat → Word} (hne : table ≠ 0)
    (hfresh : s.tables table = none) (he : Entry P e)
    (hhandle : t.handles h = some { hd with
      directoryVirtual := Function.update hd.directoryVirtual i table })
    (htable : t.tables table = some x)
    (hdirectory : t.tables hd.directory = some (Function.update dir i e))
    (hother : ∀ a, a ≠ table → a ≠ hd.directory → t.tables a = s.tables a) :
    DirInv P t h { hd with directoryVirtual := Function.update hd.directoryVirtual i table }
        (Function.update dir i e) ∧
      t.space h = Function.update (s.space h) i (some x) := by
  -- the tables of the handle are not the new one
  have hold : ∀ j < 1024, hd.directoryVirtual j ≠ table := by
    intro j hj hjt
    exact hinv.tables j hj (by rw [hjt]; exact hne) (by rw [hjt]; exact hfresh)
  have hinv' : DirInv P t h { hd with
      directoryVirtual := Function.update hd.directoryVirtual i table } (Function.update dir i e) := by
    refine ⟨hinv.ne_null, hhandle, hinv.directory_ne_null, hdirectory, ?_, ?_, ?_, ?_, ?_⟩
    · have h1023 : (1023 : Nat) ≠ i := by omega
      simp [h1023, hinv.self]
    · intro j hj hj'
      by_cases hji : j = i
      · subst hji
        simp [htable]
      · simp only [Function.update_of_ne hji] at hj' ⊢
        by_cases hjd : hd.directoryVirtual j = hd.directory
        · simp [hjd, hdirectory]
        · rw [hother _ (hold j hj) hjd]
          exact hinv.tables j hj hj'
    · intro j hj k hk hj' hjk
      by_cases hji : j = i <;> by_cases hki : k = i
      · rw [hji, hki]
      · subst hji
        simp only [Function.update_self, Function.update_of_ne hki] at hjk
        exact absurd hjk.symm (hold k hk)
      · subst hki
        simp only [Function.update_self, Function.update_of_ne hji] at hjk
        exact absurd hjk (hold j hj)
      · simp only [Function.update_of_ne hji, Function.update_of_ne hki] at hj' hjk
        exact hinv.inj j hj k hk hj' hjk
    · intro j hj hj'
      by_cases hji : j = i
      · subst hji
        simpa using he
      · simp only [Function.update_of_ne hji] at hj' ⊢
        exact hinv.present j hj hj'
    · intro j hj hj'
      by_cases hji : j = i
      · subst hji
        simp only [Function.update_self] at hj'
        exact absurd hj' hne
      · simp only [Function.update_of_ne hji] at hj' ⊢
        exact hinv.absent j hj hj'
  refine ⟨hinv', ?_⟩
  funext j
  by_cases hj : j < 1023
  · rw [hinv'.space_eq hj]
    by_cases hji : j = i
    · subst hji
      simp only [Function.update_self]
      rw [if_neg hne, htable]
    · simp only [Function.update_of_ne hji]
      rw [hinv.space_eq hj]
      by_cases hv' : hd.directoryVirtual j = 0
      · rw [if_pos hv', if_pos hv']
      · rw [if_neg hv', if_neg hv', hother _ (hold j (by omega)) (hinv.ne_directory hj hv')]
  · have hji : j ≠ i := by omega
    rw [Function.update_of_ne hji, Kernel.space, if_neg hj, Kernel.space, if_neg hj]

/-! ## One page -/

/-- The page tables and handles of `s₀` are in `s`, with the same contents. -/
structure Extends (s₀ s : Kernel) : Prop where
  tables : ∀ a x, s₀.tables a = some x → s.tables a = some x
  handles : ∀ a x, s₀.handles a = some x → s.handles a = some x

/-- The handle and its directory are newer than `s₀`, and so are its tables at the entries `U`. -/
structure Owned (U : Nat → Prop) (s₀ : Kernel) (h : Word) (hd : PageDirectoryHandle) : Prop where
  handle : s₀.handles h = none
  directory : s₀.tables hd.directory = none
  tables : ∀ i < 1023, U i → hd.directoryVirtual i ≠ 0 → s₀.tables (hd.directoryVirtual i) = none

/-- While the handle `h` is written, with `s₀` kept. -/
structure Builds (P : Word → Prop) (U : Nat → Prop) (s₀ s : Kernel) (h : Word)
    (hd : PageDirectoryHandle) (dir : Nat → Word) : Prop where
  inv : DirInv P s h hd dir
  kept : Extends s₀ s
  owned : Owned U s₀ h hd
  current : s.currentDirectory = s₀.currentDirectory
  cr4 : s.cr4 = s₀.cr4

/-- Through the current directory of `s₀`, pages translate to addresses with `P`. -/
def Physical (P : Word → Prop) (s₀ : Kernel) : Prop :=
  ∀ s va phys, Extends s₀ s → s.currentDirectory = s₀.currentDirectory → s.cr4 = s₀.cr4 →
    va &&& 0xfff = 0 → virtualToPhysicalAddr s.currentDirectory va s = .ok (phys, s) → P phys

/-- A page translates to a page. -/
theorem virtualToPhysicalAddr_aligned {phys : Word} (hva : va &&& 0xfff = 0)
    (hv : virtualToPhysicalAddr h va s = .ok (phys, t)) : phys &&& 0xfff = 0 := by
  obtain ⟨-, x, -, hv⟩ := Store.bind_load_ok hv
  obtain ⟨-, d, -, hv⟩ := Store.bind_load_ok hv
  simp only at hv
  split at hv
  · replace hv := bind_get_ok hv
    split at hv
    · cases hv
    · obtain ⟨rfl, -⟩ := pure_ok hv
      have h₁ := aligned_iff_mod.mp (pageEntryAddr_aligned (d (vAddrPagedirIndex va)))
      have h₂ : (vAddrPageframeIndexPse va).toNat % 4096 = 0 := by
        have : (vAddrPageframeIndexPse va).toNat = va.toNat % 2 ^ 22 := by
          rw [vAddrPageframeIndexPse, BitVec.toNat_and]
          exact Nat.and_two_pow_sub_one_eq_mod _ 22
        have := aligned_iff_mod.mp hva
        omega
      rw [aligned_iff_mod, BitVec.toNat_add]
      omega
  · obtain ⟨-, u, -, hv⟩ := Store.bind_load_ok hv
    obtain ⟨rfl, -⟩ := pure_ok hv
    rw [vAddrPageframeIndex, hva]
    simpa using pageEntryAddr_aligned _

variable {U : Nat → Prop} {s₀ : Kernel} {p flags : Word} {i j : Nat}

theorem uint16_flags (hf : flags = 3 ∨ flags = 7) : uint16 flags = flags := by
  rcases hf with rfl | rfl <;> rfl

/-- The entry that `paging_map_page` puts into the directory. -/
theorem Physical.entry (hP : Physical P s₀) (hkept : Extends s₀ s)
    (hcur : s.currentDirectory = s₀.currentDirectory) (hcr4 : s.cr4 = s₀.cr4)
    (hva : va &&& 0xfff = 0) {phys : Word} (hf : flags = 3 ∨ flags = 7)
    (hv : virtualToPhysicalAddr s.currentDirectory va s = .ok (phys, t)) :
    t = s ∧ Entry P (phys ||| uint16 flags) := by
  obtain rfl := virtualToPhysicalAddr_state hv
  refine ⟨rfl, phys, flags, hP t va phys hkept hcur hcr4 hva hv,
    virtualToPhysicalAddr_aligned hva hv, hf, ?_⟩
  rw [uint16_flags hf]

theorem setDirectoryVirtual_ok {table : Word} {x : Unit}
    (hset : setDirectoryVirtual h i table s = .ok (x, t)) :
    ∃ hd, s.handles h = some hd ∧ t = { s with
      handles := Function.update s.handles h (some { hd with
        directoryVirtual := Function.update hd.directoryVirtual i table }) } := by
  obtain ⟨-, hd, hhd, rfl⟩ := Store.modify_ok hset
  exact ⟨hd, hhd, rfl⟩

theorem setDirectory_ok {e : Word} {x : Unit} (hset : setDirectory h i e s = .ok (x, t)) :
    ∃ hd dir, s.handles h = some hd ∧ hd.directory ≠ 0 ∧ s.tables hd.directory = some dir ∧
      t = { s with
        tables := Function.update s.tables hd.directory (some (Function.update dir i e)) } := by
  obtain ⟨-, hd, hhd, hset⟩ := Store.bind_load_ok hset
  obtain ⟨hne, dir, hdir, rfl⟩ := Store.modify_ok hset
  exact ⟨hd, dir, hhd, hne, hdir, rfl⟩

/-- The state with a page table more. -/
theorem Builds.addTable (hb : Builds P U s₀ s h hd dir) (hi : i < 1023)
    (hv : hd.directoryVirtual i = 0) {table e : Word} {x : Nat → Word} (hne : table ≠ 0)
    (hfresh : s.tables table = none) (he : Entry P e)
    (hhandles : t.handles = Function.update s.handles h (some { hd with
      directoryVirtual := Function.update hd.directoryVirtual i table }))
    (htable : t.tables table = some x)
    (hdirectory : t.tables hd.directory = some (Function.update dir i e))
    (hother : ∀ a, a ≠ table → a ≠ hd.directory → t.tables a = s.tables a)
    (hcur : t.currentDirectory = s.currentDirectory) (hcr4 : t.cr4 = s.cr4) :
    Builds P U s₀ t h { hd with directoryVirtual := Function.update hd.directoryVirtual i table }
        (Function.update dir i e) ∧
      t.space h = Function.update (s.space h) i (some x) := by
  have hnew : s₀.tables table = none := by
    by_contra hx
    obtain ⟨y, hy⟩ := Option.ne_none_iff_exists'.mp hx
    rw [hb.kept.tables _ _ hy] at hfresh
    cases hfresh
  obtain ⟨hinv, hspace⟩ := hb.inv.addTable hi hv hne hfresh he
    (by rw [hhandles, Function.update_self]) htable hdirectory hother
  refine ⟨⟨hinv, ⟨fun a y hy => ?_, fun a y hy => ?_⟩, ⟨hb.owned.handle, hb.owned.directory, ?_⟩,
    hcur.trans hb.current, hcr4.trans hb.cr4⟩, hspace⟩
  · rw [hother a, hb.kept.tables a y hy]
    · rintro rfl
      rw [hnew] at hy
      cases hy
    · rintro rfl
      rw [hb.owned.directory] at hy
      cases hy
  · rw [hhandles, Function.update_of_ne, hb.kept.handles a y hy]
    rintro rfl
    rw [hb.owned.handle] at hy
    cases hy
  · intro j hj hUj hv'
    by_cases hji : j = i
    · subst hji
      simpa using hnew
    · simp only [Function.update_of_ne hji] at hv' ⊢
      exact hb.owned.tables j hj hUj hv'

/-- The state with an entry of a page table written. -/
theorem Builds.writeTable (hb : Builds P U s₀ s h hd dir) (hi : i < 1023) (hU : U i)
    (hv : hd.directoryVirtual i ≠ 0) {x : Nat → Word} (hhandles : t.handles = s.handles)
    (htables : t.tables = Function.update s.tables (hd.directoryVirtual i) (some x))
    (hcur : t.currentDirectory = s.currentDirectory) (hcr4 : t.cr4 = s.cr4) :
    Builds P U s₀ t h hd dir ∧ t.space h = Function.update (s.space h) i (some x) := by
  obtain ⟨hinv, hspace⟩ := hb.inv.writeTable hi hv hhandles htables
  refine ⟨⟨hinv, ⟨fun a y hy => ?_, fun a y hy => ?_⟩, hb.owned, hcur.trans hb.current,
    hcr4.trans hb.cr4⟩, hspace⟩
  · rw [htables, Function.update_of_ne, hb.kept.tables a y hy]
    rintro rfl
    rw [hb.owned.tables i hi hU hv] at hy
    cases hy
  · rw [hhandles, hb.kept.handles a y hy]

/-- What `addPageTable` writes where there is no table: `table` is NULL if there was no memory. -/
structure TableTried (P : Word → Prop) (s t : Kernel) (h : Word) (hd : PageDirectoryHandle)
    (dir : Nat → Word) (i : Nat) (table e : Word) : Prop where
  entry : Entry P e
  handles : t.handles = Function.update s.handles h (some { hd with
    directoryVirtual := Function.update hd.directoryVirtual i table })
  fresh : table ≠ 0 → s.tables table = none ∧ t.tables table = some fun _ => 0
  directory : t.tables hd.directory = some (Function.update dir i e)
  other : ∀ a, (table ≠ 0 → a ≠ table) → a ≠ hd.directory → t.tables a = s.tables a
  current : t.currentDirectory = s.currentDirectory
  cr4 : t.cr4 = s.cr4

theorem addPageTable_ok (hb : Builds P U s₀ s h hd dir) (hP : Physical P s₀)
    (hv : hd.directoryVirtual i = 0) (hf : flags = 3 ∨ flags = 7) {x : Unit}
    (hadd : addPageTable h i flags s = .ok (x, t)) : ∃ table e, TableTried P s t h hd dir i table e := by
  obtain ⟨-, hd', hhd, hadd⟩ := Store.bind_load_ok hadd
  obtain rfl : hd = hd' := Option.some.inj (hb.inv.handle.symm.trans hhd)
  rw [if_pos hv] at hadd
  obtain ⟨table, m, halloc, hadd⟩ := bind_ok hadd
  obtain ⟨_, m', hset, hadd⟩ := bind_ok hadd
  obtain ⟨phys, m'', hphys, hadd⟩ := bind_ok (bind_get_ok hadd)
  -- the state after the allocation: `table` is NULL or a fresh table
  have hm : m.handles = s.handles ∧ m.currentDirectory = s.currentDirectory ∧ m.cr4 = s.cr4 ∧
      table &&& 0xfff = 0 ∧ (table ≠ 0 → s.tables table = none ∧ m.tables table = some fun _ => 0) ∧
      (∀ a, (table ≠ 0 → a ≠ table) → m.tables a = s.tables a) := by
    rcases Store.alloc_ok halloc with ⟨rfl, rfl⟩ | ⟨hne, hfresh, rfl⟩
    · exact ⟨rfl, rfl, rfl, rfl, fun h => absurd rfl h, fun _ _ => rfl⟩
    · refine ⟨rfl, rfl, rfl, aligned_iff_mod.mpr hfresh.1, fun _ => ⟨hfresh.vacant.1, ?_⟩,
        fun a ha => ?_⟩
      · exact Function.update_self _ _ _
      · exact Function.update_of_ne (ha hne) _ _
  obtain ⟨hmh, hmc, hmcr4, halign, hfresh, hother⟩ := hm
  obtain ⟨hd'', hhd'', rfl⟩ := setDirectoryVirtual_ok hset
  obtain rfl : hd = hd'' := Option.some.inj (hb.inv.handle.symm.trans (hmh ▸ hhd''))
  have hkept : Extends s₀ { m with handles := Function.update m.handles h (some { hd with
      directoryVirtual := Function.update hd.directoryVirtual i table }) } := by
    refine ⟨fun a y hy => ?_, fun a y hy => ?_⟩
    · rw [← hb.kept.tables a y hy]
      refine hother a fun hne => ?_
      rintro rfl
      rw [hb.kept.tables a y hy] at hfresh
      cases (hfresh hne).1
    · rw [← hb.kept.handles a y hy, ← hmh]
      refine Function.update_of_ne ?_ _ _
      rintro rfl
      rw [hb.owned.handle] at hy
      cases hy
  obtain ⟨rfl, hentry⟩ := hP.entry hkept (hmc.trans hb.current) (hmcr4.trans hb.cr4) halign hf hphys
  obtain ⟨hd', dir', hhd', -, hdir', rfl⟩ := setDirectory_ok hadd
  simp only [Function.update_self, Option.some.injEq] at hhd'
  subst hhd'
  have hne : table ≠ 0 → hd.directory ≠ table := by
    rintro h₀ he
    have := hb.inv.directory
    rw [he, (hfresh h₀).1] at this
    cases this
  obtain rfl : dir = dir' := by
    have hdir : m.tables hd.directory = some dir := (hother _ hne).trans hb.inv.directory
    exact Option.some.inj (hdir.symm.trans hdir')
  refine ⟨table, _, hentry, by rw [hmh], fun h₀ => ⟨(hfresh h₀).1, ?_⟩, Function.update_self _ _ _,
    fun a ha ha' => ?_, hmc, hmcr4⟩
  · exact (Function.update_of_ne (hne h₀).symm _ _).trans (hfresh h₀).2
  · exact (Function.update_of_ne ha' _ _).trans (hother a ha)

/-- After both attempts there is a table, or its address is still NULL. -/
theorem newTable_ok (hb : Builds P U s₀ s h hd dir) (hP : Physical P s₀) (hi : i < 1023)
    (hv : hd.directoryVirtual i = 0) (hf : flags = 3 ∨ flags = 7) {x y : Unit} {u : Kernel}
    (hadd : addPageTable h i flags s = .ok (x, u)) (hretry : retryPageTable h i u = .ok (y, t)) :
    (∃ hd', t.handles h = some hd' ∧ hd'.directoryVirtual i = 0) ∨
      ∃ table e, table ≠ 0 ∧
        Builds P U s₀ t h { hd with directoryVirtual := Function.update hd.directoryVirtual i table }
          (Function.update dir i e) ∧
        t.space h = Function.update (s.space h) i (some fun _ => 0) := by
  obtain ⟨table, e, htried⟩ := addPageTable_ok hb hP hv hf hadd
  obtain ⟨-, hd', hhd', hretry⟩ := Store.bind_load_ok hretry
  rw [handles_get, htried.handles, Function.update_self] at hhd'
  cases hhd'
  simp only [Function.update_self] at hretry
  split at hretry
  · rename_i h₀
    subst h₀
    obtain ⟨table, m, halloc, hretry⟩ := bind_ok hretry
    obtain ⟨hd'', hhd'', rfl⟩ := setDirectoryVirtual_ok hretry
    rcases Store.alloc_ok halloc with ⟨rfl, rfl⟩ | ⟨hne, hfresh, rfl⟩
    · exact .inl ⟨_, Function.update_self _ _ _, by simp⟩
    · have hu : u.handles h = some hd'' := hhd''
      rw [htried.handles, Function.update_self] at hu
      cases hu
      have hnone : u.tables table = none := hfresh.vacant.1
      have hdir : hd.directory ≠ table := by
        rintro he
        have := htried.directory
        rw [he, hnone] at this
        cases this
      have hnone' : s.tables table = none := by
        rw [← htried.other table (fun h => absurd rfl h) hdir.symm, hnone]
      refine .inr ⟨table, e, hne, hb.addTable hi hv hne hnone' htried.entry ?_ ?_ ?_ ?_
        htried.current htried.cr4⟩
      · change Function.update u.handles h _ = _
        rw [htried.handles, Function.update_idem]
        simp only [Function.update_idem]
      · exact Function.update_self _ _ _
      · exact (Function.update_of_ne hdir _ _).trans htried.directory
      · intro a ha ha'
        exact (Function.update_of_ne ha _ _).trans (htried.other a (fun h => absurd rfl h) ha')
  · rename_i h₀
    obtain ⟨-, rfl⟩ := pure_ok hretry
    obtain ⟨hfresh, htable⟩ := htried.fresh h₀
    exact .inr ⟨table, e, h₀, hb.addTable hi hv h₀ hfresh htried.entry htried.handles htable
      htried.directory (fun a ha => htried.other a fun _ => ha) htried.current htried.cr4⟩

theorem setPageEntry_ok (hb : Builds P U s₀ s h hd dir) (hi : i < 1023) (hU : U i) {e : Word} {x : Unit}
    (hset : setPageEntry h i j e s = .ok (x, t)) :
    hd.directoryVirtual i ≠ 0 ∧ Builds P U s₀ t h hd dir ∧
      t.space h = Function.update (s.space h) i
        (some (Function.update ((s.space h i).getD fun _ => 0) j e)) := by
  obtain ⟨-, hd', hhd', hset⟩ := Store.bind_load_ok hset
  obtain rfl : hd = hd' := Option.some.inj (hb.inv.handle.symm.trans hhd')
  obtain ⟨hv, u, hu, rfl⟩ := Store.modify_ok hset
  obtain ⟨hb', hspace⟩ := hb.writeTable hi hU hv (x := Function.update u j e)
    (t := tables.put s (Function.update (tables.get s) _ _)) rfl rfl rfl rfl
  refine ⟨hv, hb', ?_⟩
  rw [hspace, hb.inv.space_eq hi, if_neg hv, show s.tables _ = some u from hu]
  rfl

/-- Where there is a table, neither attempt does anything. -/
theorem oldTable_ok (hb : Builds P U s₀ s h hd dir) (hv : hd.directoryVirtual i ≠ 0) {x y : Unit}
    {u : Kernel} (hadd : addPageTable h i flags s = .ok (x, u))
    (hretry : retryPageTable h i u = .ok (y, t)) : t = s := by
  obtain ⟨-, hd', hhd', hadd⟩ := Store.bind_load_ok hadd
  obtain rfl : hd = hd' := Option.some.inj (hb.inv.handle.symm.trans hhd')
  rw [if_neg hv] at hadd
  obtain ⟨-, rfl⟩ := pure_ok hadd
  obtain ⟨-, hd', hhd', hretry⟩ := Store.bind_load_ok hretry
  obtain rfl : hd = hd' := Option.some.inj (hb.inv.handle.symm.trans hhd')
  rw [if_neg hv] at hretry
  exact (pure_ok hretry).2

/-- `paging_map_page` sets the entry of the page. -/
theorem pagingMapPage_ok (hb : Builds P U s₀ s h hd dir) (hP : Physical P s₀)
    (hf : flags = 3 ∨ flags = 7) (hva : va &&& 0xfff = 0) (hp : p &&& 0xfff = 0)
    (hi : va.toNat / 4096 / 1024 < 1023) (hU : U (va.toNat / 4096 / 1024)) {res : Int}
    (hrun : pagingMapPage h va p flags s = .ok (res, t)) :
    res = 0 ∧ (∃ hd' dir', Builds P U s₀ t h hd' dir' ∧ hd'.directory = hd.directory) ∧
      t.space h = (s.space h).set 1024 0 (va.toNat / 4096) (p ||| flags) := by
  rw [pagingMapPage, if_neg (by simp [aligned_iff.mpr hva, aligned_iff.mpr hp])] at hrun
  simp only [vAddrPagedirIndex_eq, vAddrPagetblIndex_eq, uint16_flags hf] at hrun
  obtain ⟨_, u, hadd, hrun⟩ := bind_ok hrun
  obtain ⟨_, v, hretry, hrun⟩ := bind_ok hrun
  obtain ⟨_, w, hset, hrun⟩ := bind_ok hrun
  obtain ⟨rfl, rfl⟩ := pure_ok hrun
  refine ⟨rfl, ?_⟩
  rw [TwoLevel.set]
  by_cases hv : hd.directoryVirtual (va.toNat / 4096 / 1024) = 0
  · rcases newTable_ok hb hP hi hv hf hadd hretry with ⟨hd', hhd', hv'⟩ | ⟨table, e, -, hb', hspace⟩
    · obtain ⟨-, hd'', hhd'', hset⟩ := Store.bind_load_ok hset
      obtain rfl : hd' = hd'' := Option.some.inj (hhd'.symm.trans hhd'')
      exact absurd hv' (Store.modify_ok hset).1
    · obtain ⟨-, hb'', hspace'⟩ := setPageEntry_ok hb' hi hU hset
      refine ⟨⟨_, _, hb'', rfl⟩, ?_⟩
      rw [hspace', hspace, Function.update_self, Function.update_idem, hb.inv.space_eq hi, if_pos hv]
      rfl
  · obtain rfl := oldTable_ok hb hv hadd hretry
    obtain ⟨-, hb', hspace⟩ := setPageEntry_ok hb hi hU hset
    exact ⟨⟨hd, dir, hb', rfl⟩, hspace⟩

/-! ## Ranges -/

theorem add_page_aligned {a : Word} (ha : a &&& 0xfff = 0) : (a + 4096) &&& 0xfff = 0 := by
  rw [aligned_iff_mod] at *
  rw [BitVec.toNat_add]
  change (a.toNat + 4096) % 2 ^ 32 % 4096 = 0
  omega

theorem add_page_toNat {a : Word} (ha : a.toNat / 4096 + 1 ≤ 1023 * 1024) :
    (a + 4096).toNat / 4096 = a.toNat / 4096 + 1 := by
  rw [BitVec.toNat_add]
  change (a.toNat + 4096) % 2 ^ 32 / 4096 = _
  omega

/-- The entries for `p` and the frames behind it. -/
def frames (p flags : Word) (k : Nat) : Word := p + BitVec.ofNat 32 (4096 * k) ||| flags

theorem frames_succ (p flags : Word) (k : Nat) : frames (p + 4096) flags k = frames p flags (k + 1) := by
  have : (4096 : Word) + BitVec.ofNat 32 (4096 * k) = BitVec.ofNat 32 (4096 * (k + 1)) := by
    rw [show 4096 * (k + 1) = 4096 + 4096 * k by omega, BitVec.ofNat_add]
    rfl
  rw [frames, frames, BitVec.add_assoc, this]

theorem pagingMapPages_ok {count : Nat} (hP : Physical P s₀) (hf : flags = 3 ∨ flags = 7)
    (hb : Builds P U s₀ s h hd dir) (hva : va &&& 0xfff = 0) (hp : p &&& 0xfff = 0)
    (hend : va.toNat / 4096 + count ≤ 1023 * 1024)
    (hU : ∀ k < count, U ((va.toNat / 4096 + k) / 1024)) {res : Int}
    (hrun : pagingMapPages h va p flags count s = .ok (res, t)) :
    res = 0 ∧ (∃ hd' dir', Builds P U s₀ t h hd' dir' ∧ hd'.directory = hd.directory) ∧
      t.space h = (s.space h).setRange 1024 0 (va.toNat / 4096) (frames p flags) count := by
  induction count generalizing s va p hd dir with
  | zero =>
    obtain ⟨rfl, rfl⟩ := pure_ok hrun
    exact ⟨rfl, ⟨hd, dir, hb, rfl⟩, rfl⟩
  | succ count ih =>
    obtain ⟨res', u, hpage, hrun⟩ := bind_ok hrun
    have hi : va.toNat / 4096 / 1024 < 1023 := by omega
    obtain ⟨rfl, ⟨hd', dir', hb', hdir'⟩, hspace⟩ :=
      pagingMapPage_ok hb hP hf hva hp hi (hU 0 (by omega)) hpage
    rw [if_neg (by simp)] at hrun
    have hnext := add_page_toNat (a := va) (by omega)
    obtain ⟨hres, ⟨hd'', dir'', hb'', hdir''⟩, hspace'⟩ :=
      ih hb' (add_page_aligned hva) (add_page_aligned hp) (by omega) (fun k hk => by
        rw [hnext, Nat.add_assoc, Nat.add_comm 1 k]
        exact hU (k + 1) (by omega)) hrun
    refine ⟨hres, ⟨hd'', dir'', hb'', hdir''.trans hdir'⟩, ?_⟩
    have hfirst : frames p flags 0 = p ||| flags := by simp [frames]
    have hrest : frames (p + 4096) flags = fun k => frames p flags (k + 1) := by
      funext k
      exact frames_succ p flags k
    rw [hspace', hspace, hnext, hrest, TwoLevel.setRange, hfirst]

/-- A successful `paging_map_from_to`: it has passed all checks. -/
theorem pagingMapFromTo_parts {q : Word} (hrun : pagingMapFromTo h va p q flags s = .ok (0, t)) :
    va &&& 0xfff = 0 ∧ p &&& 0xfff = 0 ∧ q &&& 0xfff = 0 ∧ p ≤ q ∧
      pagingMapPages h va p flags ((q - p).toNat / 4096) s = .ok (0, t) := by
  rw [pagingMapFromTo] at hrun
  split at hrun
  · cases hrun
  rename_i halign
  split at hrun
  · cases hrun
  rename_i halign'
  split at hrun
  · cases hrun
  rename_i hle
  rw [pagingMapRange, if_neg halign] at hrun
  simp only [Bool.or_eq_true, Bool.not_eq_true', not_or, Bool.not_eq_false, aligned_iff]
    at halign halign'
  exact ⟨halign.1, halign.2, halign', BitVec.not_lt.mp hle, hrun⟩

theorem pagingMapFromTo_ok {q : Word} (hP : Physical P s₀) (hf : flags = 3 ∨ flags = 7)
    (hb : Builds P U s₀ s h hd dir) {count : Nat}
    (hcount : p &&& 0xfff = 0 → p ≤ q → count = (q - p).toNat / 4096)
    (hend : va.toNat / 4096 + count ≤ 1023 * 1024)
    (hU : ∀ k < count, U ((va.toNat / 4096 + k) / 1024))
    (hrun : pagingMapFromTo h va p q flags s = .ok (0, t)) :
    (∃ hd' dir', Builds P U s₀ t h hd' dir' ∧ hd'.directory = hd.directory) ∧
      t.space h = (s.space h).setRange 1024 0 (va.toNat / 4096) (frames p flags) count := by
  obtain ⟨hva, hp, -, hle, hrun⟩ := pagingMapFromTo_parts hrun
  rw [← hcount hp hle] at hrun
  exact (pagingMapPages_ok hP hf hb hva hp hend hU hrun).2

end

end AvocadOS
