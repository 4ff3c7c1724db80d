import AvocadOS.Kernel.ReadBack

/-!
# Page tables in memory

To the model page tables and directories are objects at their virtual addresses. The processor has
memory only: it stores to the frame where it finds an address, by the page tables and directories that
are in memory themselves (the TLB is left out). While they stay in place, that comes to the same.

* `PhysMemory.place`, `load`, `store`: an access through the directory in CR3;
* `PhysMemory.mapPage`, `cloneDirectory`: what the calls store;
* `Mirrored`: memory has what the kernel wrote, and the processor finds it there;
* `PageStored.mirrored`, `clone_mirrored`, `other_mirrored`: a call keeps it so;
* `runs_translates`: and so does every run from `paging_init` on.
-/

namespace AvocadOS

open Kernel PagingSession

/-! ## Accesses -/

namespace PhysMemory

variable (pm : PhysMemory) (cr3 a : Word)

/-- Where the processor finds an address. -/
def place : Word := pageEntryAddr (pm.entry cr3 a) + vAddrPageframeIndex a

/-- `page[j]`. -/
def load (j : Nat) : Word := pm (pm.place cr3 a) j

/-- `page[j] = e`. -/
def store (j : Nat) (e : Word) : PhysMemory :=
  Function.update pm (pm.place cr3 a) (Function.update (pm (pm.place cr3 a)) j e)

/-- All words of a page. -/
def storePage (x : Nat → Word) : PhysMemory := Function.update pm (pm.place cr3 a) x

/-- `memset(page, 0, PAGING_PAGE_SIZE)`. -/
def clear : PhysMemory := pm.storePage cr3 a fun _ => 0

/-- Pages, one after the other. -/
def storePages (pages : List (Word × (Nat → Word))) : PhysMemory :=
  pages.foldl (fun m page => m.storePage cr3 page.1 page.2) pm

/-- What `paging_map_page` stores on its way from `s` to `t`: a new page table with its entry in the
directory, where there was none, and then the entry of the page. (Handles are not looked at.) -/
def mapPage (s t : Kernel) (h va : Word) : PhysMemory :=
  let i := vAddrPagedirIndex va
  let table := t.tableOf h i
  let linked := if s.tableOf h i = 0 then
      (pm.clear s.cr3 table).store s.cr3 (t.tableOf h 1023) i (t.directoryEntry h i)
    else pm
  linked.store s.cr3 table (vAddrPagetblIndex va) (t.pageEntry h va)

/-- The page tables of a directory that were not there in `s`, and the directory. -/
def newPages (s t : Kernel) (h : Word) : List (Word × (Nat → Word)) :=
  (List.range 1024).filterMap fun i =>
    if t.tableOf h i ≠ 0 ∧ s.tables (t.tableOf h i) = none then
      (t.tables (t.tableOf h i)).map (Prod.mk (t.tableOf h i))
    else none

/-- What `paging_clone_directory` stores. Nobody uses the copy yet: its pages are stored as they are in
the end. -/
def cloneDirectory (s t : Kernel) (copy : Word) : PhysMemory :=
  pm.storePages s.cr3 (newPages s t copy)

theorem mem_newPages {s t : Kernel} {h : Word} {page : Word × (Nat → Word)} :
    page ∈ newPages s t h ↔ ∃ i < 1024, t.tableOf h i = page.1 ∧ page.1 ≠ 0 ∧ s.tables page.1 = none ∧
      t.tables page.1 = some page.2 := by
  obtain ⟨b, x⟩ := page
  simp only [newPages, List.mem_filterMap, List.mem_range, Option.ite_none_right_eq_some,
    Option.map_eq_some_iff, Prod.mk.injEq]
  constructor
  · rintro ⟨i, hi, ⟨hne, hnew⟩, y, hy, rfl, rfl⟩
    exact ⟨i, hi, rfl, hne, hnew, hy⟩
  · rintro ⟨i, hi, rfl, hne, hnew, hy⟩
    exact ⟨i, hi, ⟨hne, hnew⟩, x, hy, rfl, rfl⟩

variable {pm cr3 a} {pm' : PhysMemory}

/-- The processor reads two words to find an address. -/
theorem place_congr (hdir : pm' cr3 (vAddrPagedirIndex a) = pm cr3 (vAddrPagedirIndex a))
    (htable : pm' (pageEntryAddr (pm cr3 (vAddrPagedirIndex a))) (vAddrPagetblIndex a) =
      pm (pageEntryAddr (pm cr3 (vAddrPagedirIndex a))) (vAddrPagetblIndex a)) :
    pm'.place cr3 a = pm.place cr3 a := by
  rw [place, place, entry, entry, directoryEntry, directoryEntry, hdir, htable]

end PhysMemory

/-! ## Frames -/

/-- No two page tables have the same frame. -/
def Kernel.Apart (k : Kernel) (l : List Word) : Prop :=
  ∀ h ∈ l, ∀ i < 1024, ∀ h' ∈ l, ∀ i' < 1024, k.tableOf h i ≠ 0 → k.tableOf h' i' ≠ 0 →
    pageEntryAddr (k.directoryEntry h i) = pageEntryAddr (k.directoryEntry h' i') →
      k.tableOf h i = k.tableOf h' i'

/-- The directory in CR3 is `d`, and with it the pages of page tables are where the kernel has them. -/
structure Kernel.Seen (k : Kernel) (l : List Word) (d : Word) : Prop where
  mem : d ∈ l
  cr3 : k.cr3 = k.directoryFrame d
  same : ∀ h ∈ l, ∀ i < 1024, k.tableOf h i ≠ 0 →
    k.tableOf d (vAddrPagedirIndex (k.tableOf h i)) =
      k.tableOf k.currentDirectory (vAddrPagedirIndex (k.tableOf h i))

/-- The page tables are in memory, and the processor finds them there. -/
structure Mirrored (l : List Word) (d : Word) (k : Kernel) (pm : PhysMemory) : Prop where
  coherent : k.Coherent l
  seen : k.Seen l d
  memory : k.InMemory l pm

section

variable {s t k : Kernel} {l : List Word} {h d a b : Word} {hd : PageDirectoryHandle}
  {dir x : Nat → Word} {pm : PhysMemory} {i j : Nat}

/-- Where an address is, by its page. -/
def Kernel.placeOf (k : Kernel) (a : Word) : Word :=
  k.frameOf (a.toNat / 4096) + vAddrPageframeIndex a

theorem Kernel.Tidy.placeOf {q : Word} (hk : k.Tidy l)
    (hq : k.translation k.currentDirectory a = .ok q) : q = k.placeOf a := by
  obtain ⟨-, x, hx, rfl⟩ := (hk.translation_iff hk.inv.current).mp hq
  rw [Kernel.placeOf, Kernel.frameOf, ← vAddrPagedirIndex_eq, ← vAddrPagetblIndex_eq, hx,
    Option.elim_some]

/-- Two addresses with one translation are on pages with one frame, at the same offset. -/
theorem frame_add_inj {f g : Word} (hf : f &&& 0xfff = 0) (hg : g &&& 0xfff = 0)
    (he : f + vAddrPageframeIndex a = g + vAddrPageframeIndex b) :
    f = g ∧ a.toNat % 4096 = b.toNat % 4096 := by
  have hadd := congrArg BitVec.toNat he
  rw [aligned_iff_mod] at hf hg
  rw [BitVec.toNat_add, BitVec.toNat_add, vAddrPageframeIndex, vAddrPageframeIndex, and_fff_toNat,
    and_fff_toNat] at hadd
  have := f.isLt
  have := g.isLt
  exact ⟨BitVec.eq_of_toNat_eq (by omega), by omega⟩

/-- Page tables on frames of their own. -/
theorem apart_of_inPlace {s t : PagingSession} {call : PagingCall} (hplace : InPlace s call t)
    (ht : t.kernel.Tidy t.directories) (hcoherent : t.kernel.Coherent t.directories) :
    t.kernel.Apart t.directories := by
  intro h hh i hi h' hh' i' hi' hne hne' he
  have hq := ht.placeOf (hcoherent h hh i hi hne)
  have hq' := ht.placeOf (hcoherent h' hh' i' hi' hne')
  rw [he] at hq
  obtain ⟨hframe, hoffset⟩ :=
    frame_add_inj (pageEntryAddr_aligned _) (pageEntryAddr_aligned _) (hq.symm.trans hq')
  by_contra hdiff
  refine hplace.apart _ _ (.table hh hi hne) (.table hh' hi' hne') (fun hpage => hdiff ?_) hframe
  exact BitVec.eq_of_toNat_eq (by omega)

/-- The directories in use have the same page tables for their pages. -/
theorem seen_of_inPlace {s t : PagingSession} {call : PagingCall} (hplace : InPlace s call t)
    (hcur : t.kernel.currentDirectory ∈ t.directories) (hd : d ∈ t.directories)
    (hcr3 : t.kernel.cr3 = t.kernel.directoryFrame d) : t.kernel.Seen t.directories d := by
  refine ⟨hd, hcr3, fun h hh i hi hne => ?_⟩
  have hn : t.Occupied ((t.kernel.tableOf h i).toNat / 4096) := .table hh hi hne
  rw [vAddrPagedirIndex_eq, hplace.switched _ hn d hd (.inr hcr3),
    hplace.switched _ hn _ hcur (.inl rfl)]

/-- Where the processor finds an address, with the directory `h`. -/
theorem Mirrored.place_eq (hm : Mirrored l d k pm) (hl : HandlesOk k l) (hh : h ∈ l)
    (hb : k.tableOf h (vAddrPagedirIndex a) = b) (hne : b ≠ 0) (hx : k.tables b = some x) :
    pm.place (k.directoryFrame h) a =
      pageEntryAddr (x (vAddrPagetblIndex a)) + vAddrPageframeIndex a := by
  subst hb
  obtain ⟨hd, dir, hok⟩ := hl h hh
  have hwalk := (hm.memory.walk hm.coherent hh hok hne).2
  rw [PhysMemory.place, hwalk, Kernel.pageEntry, hx, Option.elim_some]

/-- That is where `virtual_to_physical_addr` has it. -/
theorem Mirrored.translates {q : Word} (hm : Mirrored l d k pm) (hk : k.Tidy l) (hh : h ∈ l)
    (hq : k.translation h a = .ok q) : pm.place (k.directoryFrame h) a = q := by
  obtain ⟨hlinked, x, hx, rfl⟩ := (hk.translation_iff hh).mp hq
  exact hm.place_eq hk.inv.ok hh rfl hlinked hx

/-- Where the directory in CR3 has the page table of the current one. -/
theorem Mirrored.place_of_translation {q : Word} (hm : Mirrored l d k pm) (hk : k.Tidy l)
    (hsame : k.tableOf d (vAddrPagedirIndex a) = k.tableOf k.currentDirectory (vAddrPagedirIndex a))
    (hq : k.translation k.currentDirectory a = .ok q) :
    k.tableOf d (vAddrPagedirIndex a) ≠ 0 ∧ pm.place k.cr3 a = q := by
  obtain ⟨hlinked, x, hx, rfl⟩ := (hk.translation_iff hk.inv.current).mp hq
  refine ⟨hsame ▸ hlinked, ?_⟩
  rw [hm.seen.cr3]
  exact hm.place_eq hk.inv.ok hm.seen.mem hsame hlinked hx

/-- The page tables themselves. -/
theorem Mirrored.place (hm : Mirrored l d k pm) (hk : k.Tidy l) (hh : h ∈ l) (hi : i < 1024)
    (hne : k.tableOf h i ≠ 0) : k.tableOf d (vAddrPagedirIndex (k.tableOf h i)) ≠ 0 ∧
      pm.place k.cr3 (k.tableOf h i) = pageEntryAddr (k.directoryEntry h i) :=
  hm.place_of_translation hk (hm.seen.same h hh i hi hne) (hm.coherent h hh i hi hne)

/-- The processor reads the words that the kernel wrote. -/
theorem Mirrored.load (hm : Mirrored l d k pm) (hk : k.Tidy l) (hh : h ∈ l) (hi : i < 1024)
    (hne : k.tableOf h i ≠ 0) (hx : k.tables (k.tableOf h i) = some x) (hj : j < 1024) :
    pm.load k.cr3 (k.tableOf h i) j = x j := by
  rw [PhysMemory.load, (hm.place hk hh hi hne).2]
  exact hm.memory.table hm.coherent hh hi hne hx hj

/-! ## Stores -/

variable {e flags table phys : Word}

/-- An entry of a page table that was there. -/
theorem Mirrored.written (hm : Mirrored l d s pm) (hs : s.Tidy l) (hh : h ∈ l)
    (hok : HandleOk s h hd dir) (hi : i < 1023) (hw : EntryWritten s t hd i j e)
    (hcoherent : t.Coherent l) (hapart : t.Apart l) :
    t.InMemory l (pm.store s.cr3 (s.tableOf h i) j e) := by
  obtain ⟨y, hy, htables⟩ := hw.tables
  have hlinked : s.tableOf h i ≠ 0 := by
    rw [hok.tableOf]
    exact hw.linked
  rw [← hok.tableOf] at hy htables
  rw [PhysMemory.store, (hm.place hs hh (by omega) hlinked).2]
  have hlinks : ∀ {h'}, h' ∈ l → ∀ {k}, t.tableOf h' k = s.tableOf h' k ∧
      t.directoryEntry h' k = s.directoryEntry h' k :=
    fun hh' => written_links hs.inv.ok hs.shares hh hok hi hw hh'
  intro h' hh' k hk hne z hz
  refine ⟨_, hcoherent h' hh' k hk hne, fun j' hj' => ?_⟩
  have hne₀ : s.tableOf h' k ≠ 0 := by rwa [← (hlinks hh').1]
  have hold : ∀ {w}, s.tables (s.tableOf h' k) = some w →
      pm (pageEntryAddr (t.directoryEntry h' k)) j' = w j' := by
    intro w hx
    rw [(hlinks hh').2]
    exact hm.memory.table hm.coherent hh' hk hne₀ hx hj'
  rw [(hlinks hh').1, htables] at hz
  by_cases hsame : s.tableOf h' k = s.tableOf h i
  · -- the page table that is written has one frame
    have hframe : pageEntryAddr (t.directoryEntry h' k) = pageEntryAddr (s.directoryEntry h i) := by
      rw [(hlinks hh').2, ← (hm.place hs hh' hk hne₀).2, hsame, (hm.place hs hh (by omega) hlinked).2]
    rw [hsame, Function.update_self] at hz
    obtain rfl := Option.some.inj hz
    rw [hframe, Function.update_self]
    by_cases hjj : j' = j
    · rw [hjj, Function.update_self, Function.update_self]
    · rw [Function.update_of_ne hjj, Function.update_of_ne hjj, ← hframe]
      exact hold (hsame ▸ hy)
  · have hframe : pageEntryAddr (t.directoryEntry h' k) ≠ pageEntryAddr (s.directoryEntry h i) := by
      intro he
      rw [← (hlinks hh (k := i)).2] at he
      have := hapart h' hh' k hk h hh i (by omega) hne (by rwa [(hlinks hh).1]) he
      rw [(hlinks hh').1, (hlinks hh).1] at this
      exact hsame this
    rw [Function.update_of_ne hsame] at hz
    rw [Function.update_of_ne hframe]
    exact hold hz

/-- A directory with a new page table. -/
structure Linking (s t : Kernel) (l : List Word) (d h : Word) (i : Nat) : Prop where
  before : s.Tidy l
  after : t.Tidy l
  coherent : t.Coherent l
  apart : t.Apart l
  seen : t.Seen l d
  mem : h ∈ l
  lt : i < 1023
  current : t.currentDirectory = s.currentDirectory
  unlinked : s.tableOf h i = 0
  linked : t.tableOf h i ≠ 0
  fresh : s.tables (t.tableOf h i) = none
  low : t.TablesLow l
  /-- The kernel's heap is mapped. -/
  heap : s.tableOf s.currentDirectory (vAddrPagedirIndex (t.tableOf h i)) ≠ 0
  links : ∀ h' ∈ l, ∀ k < 1024, h' ≠ h ∨ k ≠ i →
    t.tableOf h' k = s.tableOf h' k ∧ t.directoryEntry h' k = s.directoryEntry h' k
  tables : ∀ a, s.tables a ≠ none → a ≠ s.tableOf h 1023 → t.tables a = s.tables a

section

variable {h' : Word} {n : Nat}

/-- What was there stays. -/
theorem Linking.old (hl : Linking s t l d h i) (hh' : h' ∈ l) (hn : n < 1024)
    (hne : s.tableOf h' n ≠ 0) :
    t.tableOf h' n = s.tableOf h' n ∧ t.directoryEntry h' n = s.directoryEntry h' n := by
  refine hl.links h' hh' n hn ?_
  by_contra hboth
  simp only [not_or, ne_eq, not_not] at hboth
  obtain ⟨rfl, rfl⟩ := hboth
  exact hne hl.unlinked

theorem Linking.ne_new (hl : Linking s t l d h i) (hh' : h' ∈ l) (hn : n < 1024)
    (hne : s.tableOf h' n ≠ 0) : s.tableOf h' n ≠ t.tableOf h i := by
  intro he
  obtain ⟨hd', dir', hok⟩ := hl.before.inv.ok h' hh'
  rw [hok.tableOf] at hne he
  exact hok.tables n hn hne (he ▸ hl.fresh)

/-- The new page table has a frame that no other has. -/
theorem Linking.frame_ne_new (hl : Linking s t l d h i) (hh' : h' ∈ l) (hn : n < 1024)
    (hne : s.tableOf h' n ≠ 0) :
    pageEntryAddr (s.directoryEntry h' n) ≠ pageEntryAddr (t.directoryEntry h i) := by
  intro he
  obtain ⟨htable, hentry⟩ := hl.old hh' hn hne
  rw [← hentry] at he
  have hsame := hl.apart h' hh' n hn h hl.mem i (Nat.lt_succ_of_lt hl.lt) (htable ▸ hne) hl.linked he
  exact hl.ne_new hh' hn hne (htable ▸ hsame)

/-- The directory is its own last page table, and no other. -/
theorem Kernel.Tidy.directory_slot (hs : s.Tidy l) (hh : h ∈ l) (hh' : h' ∈ l) (hn : n < 1024)
    (hne : s.tableOf h' n ≠ 0) (he : s.tableOf h' n = s.tableOf h 1023) : h' = h ∧ n = 1023 := by
  by_cases hhh : h' = h
  · subst hhh
    obtain ⟨hd, dir, hok⟩ := hs.inv.ok h' hh'
    rw [hok.tableOf] at hne he
    rw [hok.tableOf] at he
    exact ⟨rfl, hok.inj n hn 1023 (by omega) hne he⟩
  · obtain ⟨rfl, hlt, -⟩ := hs.shares.shared h' hh' h hh hhh n hn 1023 (by omega) hne he
    omega

theorem Kernel.Tidy.directory_ne_null (hs : s.Tidy l) (hh : h ∈ l) : s.tableOf h 1023 ≠ 0 := by
  obtain ⟨hd, dir, hok⟩ := hs.inv.ok h hh
  rw [hok.tableOf, hok.self]
  exact hok.directory_ne_null

/-- So no other has its frame. -/
theorem Linking.frame_directory (hl : Linking s t l d h i) (hh' : h' ∈ l) (hn : n < 1024)
    (hne : s.tableOf h' n ≠ 0)
    (he : pageEntryAddr (s.directoryEntry h' n) = pageEntryAddr (s.directoryEntry h 1023)) :
    h' = h ∧ n = 1023 := by
  have hlast := hl.before.directory_ne_null hl.mem
  obtain ⟨htable, hentry⟩ := hl.old hh' hn hne
  obtain ⟨htable', hentry'⟩ := hl.old hl.mem (by omega) hlast
  rw [← hentry, ← hentry'] at he
  have hsame := hl.apart h' hh' n hn h hl.mem 1023 (by omega) (htable ▸ hne) (htable' ▸ hlast) he
  exact hl.before.directory_slot hl.mem hh' hn hne (htable ▸ htable' ▸ hsame)

/-- The new page table is on memory that the processor finds already. -/
theorem Linking.place_new (hl : Linking s t l d h i) (hm : Mirrored l d s pm) :
    s.tableOf d (vAddrPagedirIndex (t.tableOf h i)) ≠ 0 ∧
      pm.place s.cr3 (t.tableOf h i) = pageEntryAddr (t.directoryEntry h i) := by
  have hcur := hl.before.inv.current
  have hlt := dirIndex_le (t.tableOf h i)
  have hi : i < 1024 := Nat.lt_succ_of_lt hl.lt
  have hlow := hl.low h hl.mem i hi hl.linked
  obtain ⟨hcurrent, -⟩ := hl.old hcur hlt hl.heap
  have hsame := hl.seen.same h hl.mem i hi hl.linked
  rw [hl.current, hcurrent] at hsame
  have hd : s.tableOf d (vAddrPagedirIndex (t.tableOf h i)) =
      s.tableOf s.currentDirectory (vAddrPagedirIndex (t.tableOf h i)) := by
    by_cases hnew : d = h ∧ vAddrPagedirIndex (t.tableOf h i) = i
    · obtain ⟨rfl, hslot⟩ := hnew
      refine absurd ?_ (hl.ne_new hcur hlt hl.heap)
      rw [← hsame, hslot]
    · rw [← (hl.links d hl.seen.mem _ hlt (not_and_or.mp hnew)).1, hsame]
  -- the entry of the current directory, before and behind the call
  obtain ⟨-, x, hx, hq⟩ :=
    (hl.after.translation_iff hl.after.inv.current).mp (hl.coherent h hl.mem i hi hl.linked)
  rw [hl.current, hcurrent] at hx
  have hkept : t.tables (s.tableOf s.currentDirectory (vAddrPagedirIndex (t.tableOf h i))) =
      s.tables (s.tableOf s.currentDirectory (vAddrPagedirIndex (t.tableOf h i))) := by
    refine hl.tables _ ?_ fun he => ?_
    · obtain ⟨shd, sdir, hok⟩ := hl.before.inv.ok _ hcur
      rw [hok.tableOf]
      refine hok.tables _ hlt ?_
      rw [← hok.tableOf]
      exact hl.heap
    · have := (hl.before.directory_slot hl.mem hcur hlt hl.heap he).2
      omega
  exact hm.place_of_translation hl.before hd
    ((hl.before.translation_iff hcur).mpr ⟨hl.heap, x, hkept ▸ hx, hq⟩)

/-- What the call stores is not what the processor reads to find an address. -/
theorem Linking.place_same (hl : Linking s t l d h i) (hm : Mirrored l d s pm) {pm' : PhysMemory}
    (hlow : vAddrPagedirIndex a < 1023) (hne : s.tableOf d (vAddrPagedirIndex a) ≠ 0)
    (hsame : ∀ f j, f ≠ pageEntryAddr (t.directoryEntry h i) →
      (f = pageEntryAddr (s.directoryEntry h 1023) → j ≠ i) → pm' f j = pm f j) :
    pm'.place s.cr3 a = pm.place s.cr3 a := by
  have hd := hm.seen.mem
  have hlast := hl.before.directory_ne_null hd
  obtain ⟨hd', dir', hok⟩ := hl.before.inv.ok d hd
  have hdirectory := (hm.memory.walk hm.coherent hd hok hne).1
  rw [PhysMemory.directoryEntry, ← hm.seen.cr3] at hdirectory
  refine PhysMemory.place_congr (hsame _ _ ?_ fun he => ?_) ?_
  · rw [hm.seen.cr3]
    exact hl.frame_ne_new hd (by omega) hlast
  · rw [hm.seen.cr3] at he
    obtain ⟨rfl, -⟩ := hl.frame_directory hd (by omega) hlast he
    rintro rfl
    exact hne hl.unlinked
  · rw [hdirectory]
    refine hsame _ _ (hl.frame_ne_new hd (by omega) hne) fun he => ?_
    have := (hl.frame_directory hd (by omega) hne he).2
    omega

/-- Where a new page table, its entry in the directory and the entry of the page are stored. -/
theorem Linking.stores (hl : Linking s t l d h i) (hm : Mirrored l d s pm) :
    ((pm.clear s.cr3 (t.tableOf h i)).store s.cr3 (t.tableOf h 1023) i
      (t.directoryEntry h i)).store s.cr3 (t.tableOf h i) j e =
    Function.update (Function.update pm (pageEntryAddr (s.directoryEntry h 1023))
        (Function.update (pm (pageEntryAddr (s.directoryEntry h 1023))) i (t.directoryEntry h i)))
      (pageEntryAddr (t.directoryEntry h i)) (Function.update (fun _ => 0) j e) := by
  have hi : i < 1024 := Nat.lt_succ_of_lt hl.lt
  have hlast := hl.before.directory_ne_null hl.mem
  obtain ⟨htable, hentry⟩ := hl.old hl.mem (by omega) hlast
  obtain ⟨hne, hplace⟩ := hl.place_new hm
  obtain ⟨hne', hplace'⟩ := hm.place hl.before hl.mem (by omega) hlast
  have hdiff := hl.frame_ne_new hl.mem (by omega) hlast
  have hcleared : pm.clear s.cr3 (t.tableOf h i) =
      Function.update pm (pageEntryAddr (t.directoryEntry h i)) fun _ => 0 := by
    rw [PhysMemory.clear, PhysMemory.storePage, hplace]
  -- the directory is found where it was
  have hfound : (pm.clear s.cr3 (t.tableOf h i)).place s.cr3 (t.tableOf h 1023) =
      pageEntryAddr (s.directoryEntry h 1023) := by
    rw [htable, ← hplace']
    refine hl.place_same hm ?_ hne' fun f n hf _ => ?_
    · rw [← htable]
      exact hl.low h hl.mem 1023 (by omega) (htable ▸ hlast)
    · rw [hcleared, Function.update_of_ne hf]
  have hlinked : (pm.clear s.cr3 (t.tableOf h i)).store s.cr3 (t.tableOf h 1023) i
      (t.directoryEntry h i) = Function.update (pm.clear s.cr3 (t.tableOf h i))
        (pageEntryAddr (s.directoryEntry h 1023))
        (Function.update (pm (pageEntryAddr (s.directoryEntry h 1023))) i (t.directoryEntry h i)) := by
    rw [PhysMemory.store, hfound, hcleared, Function.update_of_ne hdiff]
  -- and so is the new page table
  have hfound' : ((pm.clear s.cr3 (t.tableOf h i)).store s.cr3 (t.tableOf h 1023) i
      (t.directoryEntry h i)).place s.cr3 (t.tableOf h i) = pageEntryAddr (t.directoryEntry h i) := by
    rw [← hplace]
    refine hl.place_same hm (hl.low h hl.mem i hi hl.linked) hne fun f n hf hn => ?_
    rw [hlinked]
    by_cases hf' : f = pageEntryAddr (s.directoryEntry h 1023)
    · rw [hf', Function.update_self, Function.update_of_ne (hn hf')]
    · rw [Function.update_of_ne hf', hcleared, Function.update_of_ne hf]
  rw [PhysMemory.store, hfound', hlinked, Function.update_of_ne hdiff.symm, hcleared,
    Function.update_self, Function.update_comm hdiff.symm, Function.update_idem]

/-- After them the page tables are in memory again. -/
theorem Linking.inMemory (hl : Linking s t l d h i) (hm : Mirrored l d s pm)
    (hdir : s.tables (s.tableOf h 1023) = some dir)
    (hdir' : t.tables (s.tableOf h 1023) = some (Function.update dir i (t.directoryEntry h i)))
    (hnew : t.tables (t.tableOf h i) = some (Function.update (fun _ => 0) j e)) :
    t.InMemory l (((pm.clear s.cr3 (t.tableOf h i)).store s.cr3 (t.tableOf h 1023) i
      (t.directoryEntry h i)).store s.cr3 (t.tableOf h i) j e) := by
  rw [hl.stores hm]
  intro h' hh' n hn hnz z hz
  refine ⟨_, hl.coherent h' hh' n hn hnz, fun j' hj' => ?_⟩
  by_cases hboth : h' = h ∧ n = i
  · obtain ⟨rfl, rfl⟩ := hboth
    rw [hnew] at hz
    rw [← Option.some.inj hz, Function.update_self]
  · obtain ⟨hsame, hsame'⟩ := hl.links h' hh' n hn (not_and_or.mp hboth)
    rw [hsame] at hnz hz
    rw [hsame', Function.update_of_ne (hl.frame_ne_new hh' hn hnz)]
    by_cases hdirectory : h' = h ∧ n = 1023
    · obtain ⟨rfl, rfl⟩ := hdirectory
      rw [hdir'] at hz
      rw [← Option.some.inj hz, Function.update_self]
      by_cases hji : j' = i
      · rw [hji, Function.update_self, Function.update_self]
      · rw [Function.update_of_ne hji, Function.update_of_ne hji]
        exact hm.memory.table hm.coherent hh' hn hnz hdir hj'
    · have hframe : pageEntryAddr (s.directoryEntry h' n) ≠ pageEntryAddr (s.directoryEntry h 1023) :=
        fun he => hdirectory (hl.frame_directory hh' hn hnz he)
      have hother : s.tableOf h' n ≠ s.tableOf h 1023 :=
        fun he => hdirectory (hl.before.directory_slot hl.mem hh' hn hnz he)
      obtain ⟨hd', dir', hok⟩ := hl.before.inv.ok h' hh'
      have hthere : s.tables (s.tableOf h' n) ≠ none := by
        rw [hok.tableOf] at hnz ⊢
        exact hok.tables n hn hnz
      rw [hl.tables _ hthere hother] at hz
      rw [Function.update_of_ne hframe]
      exact hm.memory.table hm.coherent hh' hn hnz hz hj'

end

/-! ## Copies -/

/-- A store to another frame. -/
theorem Mirrored.elsewhere {f : Word} (hm : Mirrored l d s pm)
    (hf : ∀ h ∈ l, ∀ n < 1024, s.tableOf h n ≠ 0 → pageEntryAddr (s.directoryEntry h n) ≠ f) :
    Mirrored l d s (Function.update pm f x) := by
  refine ⟨hm.coherent, hm.seen, fun h hh i hi hne y hy => ?_⟩
  refine ⟨_, hm.coherent h hh i hi hne, fun j hj => ?_⟩
  rw [Function.update_of_ne (hf h hh i hi hne)]
  exact hm.memory.table hm.coherent hh hi hne hy hj

/-- Pages that are found at frames `F`, on which there is nothing yet. -/
theorem Mirrored.storePages {pages : List (Word × (Nat → Word))} {F : Word → Word}
    (hm : Mirrored l d s pm)
    (hplace : ∀ page ∈ pages, ∀ m, Mirrored l d s m → m.place s.cr3 page.1 = F page.1)
    (hfree : ∀ page ∈ pages, ∀ h ∈ l, ∀ n < 1024, s.tableOf h n ≠ 0 →
      pageEntryAddr (s.directoryEntry h n) ≠ F page.1)
    (hinj : ∀ page ∈ pages, ∀ page' ∈ pages, F page.1 = F page'.1 → page = page') :
    Mirrored l d s (pm.storePages s.cr3 pages) ∧
      (∀ page ∈ pages, pm.storePages s.cr3 pages (F page.1) = page.2) ∧
      ∀ f, (∀ page ∈ pages, F page.1 ≠ f) → pm.storePages s.cr3 pages f = pm f := by
  induction pages generalizing pm with
  | nil => exact ⟨hm, nofun, fun _ _ => rfl⟩
  | cons page pages ih =>
    have hstore : pm.storePages s.cr3 (page :: pages) =
        PhysMemory.storePages (Function.update pm (F page.1) page.2) s.cr3 pages := by
      rw [PhysMemory.storePages, List.foldl_cons, PhysMemory.storePage,
        hplace page List.mem_cons_self pm hm]
      rfl
    obtain ⟨hm', hstored, hkept⟩ := ih (hm.elsewhere (hfree page List.mem_cons_self))
      (fun q hq => hplace q (List.mem_cons_of_mem _ hq))
      (fun q hq => hfree q (List.mem_cons_of_mem _ hq))
      (fun q hq q' hq' => hinj q (List.mem_cons_of_mem _ hq) q' (List.mem_cons_of_mem _ hq'))
    rw [hstore]
    refine ⟨hm', fun q hq => ?_, fun f hf => ?_⟩
    · by_cases hmem : q ∈ pages
      · exact hstored q hmem
      · obtain rfl := (List.mem_cons.mp hq).resolve_right hmem
        rw [hkept, Function.update_self]
        intro q' hq' he
        have hsame := hinj q' (List.mem_cons_of_mem _ hq') q hq he
        exact hmem (hsame ▸ hq')
    · rw [hkept f fun q hq => hf q (List.mem_cons_of_mem _ hq),
        Function.update_of_ne (hf page List.mem_cons_self).symm]

/-- The copy is in memory too. -/
theorem clone_inMemory {s : PagingSession} {source copy : Word}
    (hm : Mirrored s.directories d s.kernel pm) (hs : s.kernel.Tidy s.directories)
    (hsource : source ∈ s.directories) (hrun : pagingCloneDirectory source s.kernel = .ok (copy, t))
    (hcoherent : t.Coherent (s.directories ++ [copy])) (hapart : t.Apart (s.directories ++ [copy]))
    (hseen : t.Seen (s.directories ++ [copy]) d) :
    t.InMemory (s.directories ++ [copy]) (pm.cloneDirectory s.kernel t copy) := by
  have hrest := (pagingCloneDirectory_frame _ hrun).rest
  have hcurrent : t.currentDirectory = s.kernel.currentDirectory := by rw [hrest]
  obtain ⟨src, ker, dir, kdir, D, dv, d', phys, hsrc, hker, hc⟩ := hs.inv.cloned hsource hrun
  obtain ⟨chd, cdir, hcur⟩ := hs.inv.ok _ hs.inv.current
  have hlinks := (hc.shares hsrc hker hs.shares hs.inv.ok hsource hs.inv.kernel (by rw [hrest])).2
  have hold : ∀ h ∈ s.directories, ∀ i, t.tableOf h i = s.kernel.tableOf h i ∧
      t.directoryEntry h i = s.kernel.directoryEntry h i := by
    intro h hh i
    obtain ⟨hd, dir, hok⟩ := hs.inv.ok h hh
    exact hc.old_links hok
  have hthere : ∀ h ∈ s.directories, ∀ n < 1024, s.kernel.tableOf h n ≠ 0 →
      s.kernel.tables (s.kernel.tableOf h n) ≠ none := by
    intro h hh n hn hne
    obtain ⟨hd, dir, hok⟩ := hs.inv.ok h hh
    rw [hok.tableOf] at hne ⊢
    exact hok.tables n hn hne
  have hcopy : copy ∈ s.directories ++ [copy] := List.mem_append_right _ (List.mem_singleton_self _)
  -- a new page is where it was before
  have hframe : ∀ n < 1024, t.tableOf copy n ≠ 0 → s.kernel.translation s.kernel.currentDirectory
      (t.tableOf copy n) = .ok (pageEntryAddr (t.directoryEntry copy n)) := by
    intro n hn hne
    rw [← hcur.translation_extend hc.kept (by rw [hrest]), ← hcurrent]
    exact hcoherent copy hcopy n hn hne
  have hplace : ∀ page ∈ PhysMemory.newPages s.kernel t copy, ∀ m,
      Mirrored s.directories d s.kernel m →
        m.place s.kernel.cr3 page.1 = s.kernel.placeOf page.1 := by
    intro page hp m hm
    obtain ⟨n, hn, hb, hne, -, -⟩ := PhysMemory.mem_newPages.mp hp
    rw [← hb] at hne ⊢
    have hsame := hseen.same copy hcopy n hn hne
    rw [hcurrent, (hold d hm.seen.mem _).1, (hold _ hs.inv.current _).1] at hsame
    rw [(hm.place_of_translation hs hsame (hframe n hn hne)).2, ← hs.placeOf (hframe n hn hne)]
  have hfree : ∀ page ∈ PhysMemory.newPages s.kernel t copy, ∀ h ∈ s.directories, ∀ n < 1024,
      s.kernel.tableOf h n ≠ 0 →
        pageEntryAddr (s.kernel.directoryEntry h n) ≠ s.kernel.placeOf page.1 := by
    intro page hp h hh n hn hne he
    obtain ⟨n', hn', hb, hne', hnew, -⟩ := PhysMemory.mem_newPages.mp hp
    rw [← hb] at hne' hnew he
    rw [← hs.placeOf (hframe n' hn' hne'), ← (hold h hh n).2] at he
    have hsame := hapart h (List.mem_append_left _ hh) n hn copy hcopy n' hn' ((hold h hh n).1 ▸ hne)
      hne' he
    rw [(hold h hh n).1] at hsame
    exact hthere h hh n hn hne (hsame ▸ hnew)
  have hinj : ∀ page ∈ PhysMemory.newPages s.kernel t copy,
      ∀ page' ∈ PhysMemory.newPages s.kernel t copy,
        s.kernel.placeOf page.1 = s.kernel.placeOf page'.1 → page = page' := by
    intro page hp page' hp' he
    obtain ⟨n, hn, hb, hne, -, hx⟩ := PhysMemory.mem_newPages.mp hp
    obtain ⟨n', hn', hb', hne', -, hx'⟩ := PhysMemory.mem_newPages.mp hp'
    rw [← hb] at hne
    rw [← hb'] at hne'
    rw [← hb, ← hb', ← hs.placeOf (hframe n hn hne), ← hs.placeOf (hframe n' hn' hne')] at he
    have hsame := hapart copy hcopy n hn copy hcopy n' hn' hne hne' he
    rw [hb, hb'] at hsame
    rw [hsame] at hx
    exact Prod.ext hsame (Option.some.inj (hx.symm.trans hx'))
  obtain ⟨hm', hstored, -⟩ := hm.storePages hplace hfree hinj
  intro h hh n hn hne y hy
  refine ⟨_, hcoherent h hh n hn hne, fun j hj => ?_⟩
  rcases hlinks h hh n hn hne with hnew | ⟨h₀, hh₀, n₀, hn₀, htable, hentry⟩
  · have hh' : h = copy := by
      rcases List.mem_append.mp hh with hh | hh
      · rw [(hold h hh n).1] at hne hnew
        exact absurd hnew (hthere h hh n hn hne)
      · exact List.mem_singleton.mp hh
    subst hh'
    have hpage := hstored (t.tableOf h n, y) (PhysMemory.mem_newPages.mpr ⟨n, hn, rfl, hne, hnew, hy⟩)
    dsimp only at hpage
    rw [← hs.placeOf (hframe n hn hne)] at hpage
    rw [PhysMemory.cloneDirectory, hpage]
  · rw [← htable] at hne hy
    rw [← hentry]
    obtain ⟨z, hz⟩ := Option.ne_none_iff_exists'.mp (hthere h₀ hh₀ n₀ hn₀ hne)
    obtain rfl := Option.some.inj ((hc.kept.tables _ _ hz).symm.trans hy)
    exact hm'.memory.table hm'.coherent hh₀ hn₀ hne hz hj

/-! ## Mapping -/

/-- A page of `h` is mapped in memory: page tables and directories stay in place, and a new page table
is on memory that is mapped. -/
structure PageStored (h : Word) (l : List Word) (m : Kernel × PhysMemory) (w : Word × Word)
    (m' : Kernel × PhysMemory) : Prop where
  page : PageStep h l m.1 w m'.1
  -- of the call only the page matters, not the flags
  place : InPlace ⟨m.1, l⟩ (.mapPage h w.1 w.2 0) ⟨m'.1, l⟩
  heap : m.1.tableOf h (vAddrPagedirIndex w.1) = 0 → m.1.tableOf m.1.currentDirectory
    (vAddrPagedirIndex (m'.1.tableOf h (vAddrPagedirIndex w.1))) ≠ 0
  stores : m'.2 = m.2.mapPage m.1 m'.1 h w.1

/-- The directory in CR3 is the same. -/
theorem PageStep.seen {w : Word × Word} {call : PagingCall} (hstep : PageStep h l s w t)
    (hplace : InPlace ⟨s, l⟩ call ⟨t, l⟩) (hs : s.Seen l d) : t.Seen l d := by
  obtain ⟨flags, hf, hrun⟩ := hstep.run
  have hcr3 : t.cr3 = s.cr3 := by rw [(pagingMapPage_frame _ _ _ _ hrun).rest]
  obtain ⟨hd, dir, hok⟩ := hstep.tidy.inv.ok h hstep.mem
  have hlast : t.directoryEntry d 1023 = s.directoryEntry d 1023 := by
    obtain ⟨-, -, hw | ⟨table, phys, hadd⟩⟩ := pagingMapPage_writes hok hrun
    · exact (written_links hstep.tidy.inv.ok hstep.tidy.shares hstep.mem hok hstep.below hw hs.mem).2
    · have hlinks := (added_links hstep.tidy.inv.ok hstep.tidy.shares hstep.mem hok
        (dirIndex_le w.1) hadd).2.2
      exact (hlinks d hs.mem 1023 (by omega) (.inr hstep.below.ne')).2
  refine seen_of_inPlace hplace hstep.tidy_after.inv.current hs.mem ?_
  change t.cr3 = pageEntryAddr (t.directoryEntry d 1023)
  rw [hcr3, hs.cr3, hlast]
  rfl

/-- A call that adds a page table. -/
theorem PageStep.linking {w : Word × Word} {call : PagingCall} (hstep : PageStep h l s w t)
    (hplace : InPlace ⟨s, l⟩ call ⟨t, l⟩) (hcoherent : t.Coherent l) (hs : s.Seen l d)
    (hok : HandleOk s h hd dir)
    (hadd : TableAdded s t h hd dir (vAddrPagedirIndex w.1) j e flags table phys)
    (hheap : s.tableOf s.currentDirectory (vAddrPagedirIndex table) ≠ 0) :
    Linking s t l d h (vAddrPagedirIndex w.1) := by
  obtain ⟨htable, -, hlinks⟩ := added_links hstep.tidy.inv.ok hstep.tidy.shares hstep.mem hok
    (dirIndex_le w.1) hadd
  obtain ⟨flags, hf, hrun⟩ := hstep.run
  have hrest := (pagingMapPage_frame _ _ _ _ hrun).rest
  have htidy := hstep.tidy_after
  refine ⟨hstep.tidy, htidy, hcoherent, apart_of_inPlace hplace htidy hcoherent, hstep.seen hplace hs,
    hstep.mem, hstep.below, by rw [hrest], ?_, htable ▸ hadd.ne_null,
    htable ▸ hadd.fresh, fun h' hh' i hi hne => hplace.table_low hh' hi hne, htable ▸ hheap, hlinks,
    fun a ha hne => ?_⟩
  · rw [hok.tableOf]
    exact hadd.unlinked
  · rw [hok.tableOf, hok.self] at hne
    have hold : a ≠ table := by
      rintro rfl
      exact ha hadd.fresh
    rw [hadd.tables, Function.update_of_ne hne, Function.update_of_ne hold]

/-- Memory and the page tables of the kernel change together. -/
theorem PageStored.mirrored {m m' : Kernel × PhysMemory} {w : Word × Word}
    (hstep : PageStored h l m w m') (hm : Mirrored l d m.1 m.2) : Mirrored l d m'.1 m'.2 := by
  obtain ⟨s, pm⟩ := m
  obtain ⟨t, pm'⟩ := m'
  obtain ⟨va, p⟩ := w
  obtain ⟨hpage, hplace, hheap, hstores⟩ := hstep
  dsimp only at hpage hplace hheap hstores hm ⊢
  subst hstores
  obtain ⟨flags, hf, hrun⟩ := hpage.run
  have hcoherent : t.Coherent l := by
    refine hpage.coherent (fun h hh i hi hne => hplace.table_low hh hi hne) ?_ hm.coherent
    exact fun h hh i hi hne => hplace.table_untouched List.mem_cons_self hh hi hne
  refine ⟨hcoherent, hpage.seen hplace hm.seen, ?_⟩
  obtain ⟨hd, dir, hok⟩ := hpage.tidy.inv.ok h hpage.mem
  obtain ⟨-, -, hw | ⟨table, phys, hadd⟩⟩ := pagingMapPage_writes hok hrun
  · have hlinked : s.tableOf h (vAddrPagedirIndex va) ≠ 0 := by
      rw [hok.tableOf]
      exact hw.linked
    obtain ⟨hok', hentry⟩ := written_entries hok hpage.below hw
    have htable : t.tableOf h (vAddrPagedirIndex va) = s.tableOf h (vAddrPagedirIndex va) := by
      rw [hok'.tableOf, hok.tableOf]
    rw [PhysMemory.mapPage, if_neg hlinked, htable, hentry]
    exact hm.written hpage.tidy hpage.mem hok hpage.below hw hcoherent
      (apart_of_inPlace hplace hpage.tidy_after hcoherent)
  · obtain ⟨htable, hdirectory, -⟩ := added_links hpage.tidy.inv.ok hpage.tidy.shares hpage.mem hok
      (dirIndex_le va) hadd
    have hunlinked : s.tableOf h (vAddrPagedirIndex va) = 0 := by
      rw [hok.tableOf]
      exact hadd.unlinked
    have hl := hpage.linking hplace hcoherent hm.seen hok hadd (htable ▸ hheap hunlinked)
    have hne : table ≠ hd.directory := (hok.directory_ne_of_fresh hadd.fresh).symm
    rw [PhysMemory.mapPage, if_pos hunlinked, added_entry hok hadd]
    have hdir : s.tables (s.tableOf h 1023) = some dir := by
      rw [hok.tableOf, hok.self]
      exact hok.directory
    refine hl.inMemory hm hdir ?_ ?_
    · rw [hok.tableOf, hok.self, hdirectory, hadd.tables, Function.update_self]
    · rw [htable, hadd.tables, Function.update_of_ne hne, Function.update_self]

theorem pages_mirrored {m m' : Kernel × PhysMemory} {ws : List (Word × Word)}
    (hrun : Runs (PageStored h l) m ws m') (hm : Mirrored l d m.1 m.2) : Mirrored l d m'.1 m'.2 := by
  induction hrun with
  | nil m => exact hm
  | cons hstep _ ih => exact ih (hstep.mirrored hm)

/-! ## Runs -/

/-- A call, and what it stores. -/
inductive MemoryStep :
    PagingSession × PhysMemory → PagingCall → PagingSession × PhysMemory → Prop
  | maps {s t : PagingSession} {pm pm' : PhysMemory} {call : PagingCall} {h : Word} :
      ProperStep s call t → call.handle = some h →
      Runs (PageStored h s.directories) (s.kernel, pm) call.pages (t.kernel, pm') →
      MemoryStep (s, pm) call (t, pm')
  | clone {s : PagingSession} {k : Kernel} {pm : PhysMemory} {source copy : Word} :
      source ∈ s.directories → pagingCloneDirectory source s.kernel = .ok (copy, k) →
      ProperStep s (.clone source) ⟨k, s.directories ++ [copy]⟩ →
      MemoryStep (s, pm) (.clone source)
        (⟨k, s.directories ++ [copy]⟩, pm.cloneDirectory s.kernel k copy)
  /-- CR3 has a directory, and nothing is stored to the page tables. -/
  | other {s t : PagingSession} {pm pm' : PhysMemory} {d : Word} :
      ProperStep s .other t → d ∈ t.directories → t.kernel.cr3 = t.kernel.directoryFrame d →
      (∀ h ∈ s.directories, ∀ i < 1024, s.kernel.tableOf h i ≠ 0 →
        pm' (pageEntryAddr (s.kernel.directoryEntry h i)) =
          pm (pageEntryAddr (s.kernel.directoryEntry h i))) →
      MemoryStep (s, pm) .other (t, pm')

/-- `paging_switch_directory` is such other work. -/
theorem pagingSwitchDirectory_stored {s : PagingSession} {u : Unit} (hs : s.kernel.Tidy s.directories)
    (hh : h ∈ s.directories) (hrun : pagingSwitchDirectory h s.kernel = .ok (u, k))
    (hplace : InPlace s .other ⟨k, s.directories⟩) :
    MemoryStep (s, pm) .other (⟨k, s.directories⟩, pm) := by
  obtain ⟨cr3, s', haddr, hrun⟩ := bind_ok hrun
  obtain ⟨hcr3, rfl⟩ := directoryPhysicalAddr_ok haddr
  obtain ⟨hd, dir, hok⟩ := hs.inv.ok h hh
  obtain rfl : pageEntryAddr (dir 1023) = cr3 := by
    rw [Kernel.directoryAddr, hok.handle, Option.bind_some, hok.directory, Option.map_some] at hcr3
    exact Option.some.inj hcr3
  cases hrun
  have hstep : Step s .other ⟨{ s.kernel with
      cr3 := pageEntryAddr (dir 1023)
      currentDirectory := h }, s.directories⟩ := .other rfl rfl rfl rfl hh
  refine .other ⟨⟨hstep, trivial, trivial, trivial, fun h => absurd rfl h⟩, hplace⟩ hh ?_
    fun _ _ _ _ _ => rfl
  rw [← hok.directoryEntry]
  rfl

/-- Page tables and directories are in memory. -/
def InStep (m : PagingSession × PhysMemory) : Prop :=
  m.1.kernel.Tidy m.1.directories ∧ ∃ d, Mirrored m.1.directories d m.1.kernel m.2

theorem clone_mirrored {s : PagingSession} {source copy : Word}
    (hm : Mirrored s.directories d s.kernel pm) (hs : s.kernel.Tidy s.directories)
    (hsource : source ∈ s.directories) (hrun : pagingCloneDirectory source s.kernel = .ok (copy, k))
    (hstep : ProperStep s (.clone source) ⟨k, s.directories ++ [copy]⟩) :
    Mirrored (s.directories ++ [copy]) d k (pm.cloneDirectory s.kernel k copy) := by
  have ht := hstep.map.tidy hs
  have hcoherent := hstep.coherent hs hm.coherent
  obtain ⟨src, ker, dir, kdir, D, dv, d', phys, hsrc, hker, hc⟩ := hs.inv.cloned hsource hrun
  obtain ⟨hd, dir, hok⟩ := hs.inv.ok d hm.seen.mem
  have hcr3 : k.cr3 = s.kernel.cr3 := by rw [(pagingCloneDirectory_frame _ hrun).rest]
  have hframe : k.cr3 = k.directoryFrame d := by
    change k.cr3 = pageEntryAddr (k.directoryEntry d 1023)
    rw [(hc.old_links hok).2, hcr3, hm.seen.cr3]
    rfl
  have hseen := seen_of_inPlace hstep.place ht.inv.current (List.mem_append_left _ hm.seen.mem) hframe
  exact ⟨hcoherent, hseen, clone_inMemory hm hs hsource hrun hcoherent
    (apart_of_inPlace hstep.place ht hcoherent) hseen⟩

theorem other_mirrored {s t : PagingSession} {d' : Word} {pm' : PhysMemory}
    (hm : Mirrored s.directories d s.kernel pm) (hs : s.kernel.Tidy s.directories)
    (hstep : ProperStep s .other t) (hd : d' ∈ t.directories)
    (hcr3 : t.kernel.cr3 = t.kernel.directoryFrame d')
    (hkept : ∀ h ∈ s.directories, ∀ i < 1024, s.kernel.tableOf h i ≠ 0 →
      pm' (pageEntryAddr (s.kernel.directoryEntry h i)) =
        pm (pageEntryAddr (s.kernel.directoryEntry h i))) :
    Mirrored t.directories d' t.kernel pm' := by
  have hcoherent := hstep.coherent hs hm.coherent
  refine ⟨hcoherent, seen_of_inPlace hstep.place (hstep.map.tidy hs).inv.current hd hcr3, ?_⟩
  intro h hh i hi hne x hx
  refine ⟨_, hcoherent h hh i hi hne, fun j hj => ?_⟩
  cases hstep.map.step with
  | other htables hhandles =>
    obtain ⟨hd, dir, hok⟩ := hs.inv.ok h hh
    obtain ⟨htable, hentry⟩ := hok.links_of_same (i := i) (by rw [hhandles]) (by rw [htables])
    rw [htable] at hne hx
    rw [htables] at hx
    rw [hentry]
    refine (congrFun (hkept h hh i hi hne) j).trans ?_
    exact hm.memory.table hm.coherent hh hi hne hx hj

/-- One call. -/
theorem MemoryStep.inStep {m m' : PagingSession × PhysMemory} {call : PagingCall}
    (hstep : MemoryStep m call m') (hm : InStep m) : InStep m' := by
  obtain ⟨hs, d, hm⟩ := hm
  cases hstep with
  | maps hproper hh hrun =>
    have hmirrored := pages_mirrored hrun hm
    rw [← (hproper.map.pages hs hh).1] at hmirrored
    exact ⟨hproper.map.tidy hs, d, hmirrored⟩
  | @clone s k pm source copy hsource hrun hproper =>
    have hm' : Mirrored s.directories d s.kernel pm := hm
    have hs' : s.kernel.Tidy s.directories := hs
    have hclone := clone_mirrored hm' hs' hsource hrun hproper
    refine ⟨hproper.map.tidy hs', d, ?_⟩
    dsimp only
    exact hclone
  | other hproper hd hcr3 hkept =>
    exact ⟨hproper.map.tidy hs, _, other_mirrored hm hs hproper hd hcr3 hkept⟩

/-- The kernel's directory behind `paging_init`, when that has been stored. -/
theorem start_mirrored {k₀ : Kernel} {u : Unit} (hboot : k₀.Boot) (hinit : pagingInit k₀ = .ok (u, k))
    (hgranted : MemoryGranted k₀ k) (hmem : k.InMemory (start k).directories pm) :
    Mirrored (start k).directories k.currentDirectory k pm := by
  have hp := pagingInit_ok hboot hinit
  have himage : k.image = k₀.image := by rw [hp.rest]
  have hcurrent : k.currentDirectory = k.image.kernelPageDirectory := by
    rw [himage, hp.rest]
  obtain ⟨hd, dir, hinv, hcr3⟩ := hp.directory
  rw [← himage, ← hcurrent] at hinv
  refine ⟨pagingInit_coherent hboot hinit hgranted, ⟨?_, ?_, fun _ _ _ _ _ => rfl⟩, hmem⟩
  · rw [hcurrent]
    exact List.mem_singleton_self _
  · rw [hcr3, Kernel.directoryFrame, hinv.handleOk.directoryEntry]

theorem runs_inStep {m m' : PagingSession × PhysMemory} {calls : List PagingCall}
    (hrun : Runs MemoryStep m calls m') (hm : InStep m) : InStep m' :=
  hrun.invariant (fun _ _ _ hm hstep => hstep.inStep hm) hm

/-- After any calls that leave them in place, the processor reads the page tables and directories that
the kernel wrote, and translates with each directory as `virtual_to_physical_addr` does. -/
theorem runs_translates {k₀ : Kernel} {u : Unit} {m : PagingSession × PhysMemory}
    {calls : List PagingCall} (hboot : k₀.Boot) (hinit : pagingInit k₀ = .ok (u, k))
    (hgranted : MemoryGranted k₀ k) (hmem : k.InMemory (start k).directories pm)
    (hrun : Runs MemoryStep (start k, pm) calls m) (hh : h ∈ m.1.directories) :
    (∀ i < 1024, m.1.kernel.tableOf h i ≠ 0 → ∀ x,
      m.1.kernel.tables (m.1.kernel.tableOf h i) = some x → ∀ j < 1024,
        m.2.load m.1.kernel.cr3 (m.1.kernel.tableOf h i) j = x j) ∧
    ∀ va q, m.1.kernel.translation h va = .ok q →
      m.2.place (m.1.kernel.directoryFrame h) va = q := by
  obtain ⟨htidy, d, hm⟩ := runs_inStep hrun
    ⟨start_tidy hboot hinit, _, start_mirrored hboot hinit hgranted hmem⟩
  exact ⟨fun i hi hne x hx j hj => hm.load htidy hh hi hne hx hj,
    fun va q hq => hm.translates htidy hh hq⟩

end

/-- A page above the first four megabytes, in memory that has everything `KERNEL_VIRTUAL_BASE` below
its virtual address. -/
example :
    let k := bootDone.after (pagingMapPage 0xC0120000 0x400000 0x150000 7)
    let pm : PhysMemory := fun f => (bootDone.tables (f + KERNEL_VIRTUAL_BASE)).getD fun _ => 0
    (pm.mapPage bootDone k 0xC0120000 0x400000).place k.cr3 0x400123 = 0x150123 := by
  decide +kernel

end AvocadOS
