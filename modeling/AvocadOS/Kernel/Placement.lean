import AvocadOS.Kernel.Calls

/-!
# Where page tables are

`paging.c` reads and writes page tables, directories and handles at virtual addresses, that is, where
the MMU finds them. In the model they are objects at these addresses. The two are the same as long as
nobody moves them (see `Kernel/Mmu.lean`): what is said of runs is said of those in which every call
leaves them `InPlace`.

The processor finds a page table in another way, by the physical address that the directory has for
it. `Coherent` says that this is where the kernel sees it.

* `PagingSession.Occupied`: the pages with page tables, directories and handles;
* `PagingSession.InPlace`: a call maps none of them, and they stay on frames of their own;
* `PhysMemory.entry`: what the processor reads to translate an address;
* `Kernel.InMemory.walk`: these are the entries that the kernel wrote, in memory where `Coherent` holds.
-/

namespace AvocadOS

open Kernel

/-! ## Entries -/

/-- `directory[i]`. -/
def Kernel.directoryEntry (s : Kernel) (h : Word) (i : Nat) : Word :=
  ((s.handles h).bind fun hd => s.tables hd.directory).elim 0 fun dir => dir i

/-- `directory_virtual[i]`. -/
def Kernel.tableOf (s : Kernel) (h : Word) (i : Nat) : Word :=
  (s.handles h).elim 0 fun hd => hd.directoryVirtual i

/-- The entry for the page of `va` in its page table. -/
def Kernel.pageEntry (s : Kernel) (h va : Word) : Word :=
  (s.tables (s.tableOf h (vAddrPagedirIndex va))).elim 0 fun x => x (vAddrPagetblIndex va)

/-- What `paging_switch_directory` loads into CR3. -/
def Kernel.directoryFrame (s : Kernel) (h : Word) : Word := pageEntryAddr (s.directoryEntry h 1023)

theorem tblIndex_lt (va : Word) : vAddrPagetblIndex va < 1024 := by
  rw [vAddrPagetblIndex_eq]
  omega

section

variable {s : Kernel} {h : Word} {hd : PageDirectoryHandle} {dir : Nat → Word} {i : Nat}

theorem HandleOk.directoryEntry (hok : HandleOk s h hd dir) : s.directoryEntry h i = dir i := by
  rw [Kernel.directoryEntry, hok.handle, Option.bind_some, hok.directory, Option.elim_some]

theorem HandleOk.tableOf (hok : HandleOk s h hd dir) : s.tableOf h i = hd.directoryVirtual i := by
  rw [Kernel.tableOf, hok.handle, Option.elim_some]

end

/-! ## Places -/

/-- Every page table is where the directory says. -/
def Kernel.Coherent (k : Kernel) (l : List Word) : Prop :=
  ∀ h ∈ l, ∀ i < 1024, k.tableOf h i ≠ 0 →
    k.translation k.currentDirectory (k.tableOf h i) = .ok (pageEntryAddr (k.directoryEntry h i))

/-- The processor or the kernel uses the directory. -/
def Kernel.InUse (k : Kernel) (d : Word) : Prop :=
  d = k.currentDirectory ∨ k.cr3 = k.directoryFrame d

/-- The frame of the `n`th page in the current directory. -/
def Kernel.frameOf (k : Kernel) (n : Nat) : Word :=
  pageEntryAddr ((k.tables (k.tableOf k.currentDirectory (n / 1024))).elim 0 fun x => x (n % 1024))

namespace PagingSession

/-- On the `n`th page there is a part of a handle, or it is a page table or a directory (which is its
own page table 1023). -/
def Occupied (s : PagingSession) (n : Nat) : Prop :=
  ∃ h ∈ s.directories,
    (h.toNat / 4096 ≤ n ∧ n ≤ (h.toNat + pageDirectoryHandleSize - 1) / 4096) ∨
    ∃ i < 1024, s.kernel.tableOf h i ≠ 0 ∧ (s.kernel.tableOf h i).toNat / 4096 = n

/-- The page tables, directories and handles stay where they are. -/
structure InPlace (s : PagingSession) (call : PagingCall) (t : PagingSession) : Prop where
  /-- They are not in the range in which directories map themselves. -/
  low : ∀ n, t.Occupied n → n / 1024 < 1023
  /-- None of their pages is mapped. -/
  untouched : ∀ w ∈ call.pages, ¬ t.Occupied (w.1.toNat / 4096)
  /-- No two of their pages have the same frame. -/
  apart : ∀ n m, t.Occupied n → t.Occupied m → n ≠ m → t.kernel.frameOf n ≠ t.kernel.frameOf m
  /-- A directory that comes into use has the same page tables for them. -/
  switched : ∀ n, t.Occupied n → ∀ d ∈ t.directories, t.kernel.InUse d →
    t.kernel.tableOf d (n / 1024) = t.kernel.tableOf s.kernel.currentDirectory (n / 1024)

/-- A call that leaves them in place, behind which the processor finds them there too. -/
structure PlacedStep (s : PagingSession) (call : PagingCall) (t : PagingSession) : Prop where
  step : Step s call t
  place : InPlace s call t
  coherent : t.kernel.Coherent t.directories

variable {s t : PagingSession} {call : PagingCall} {h : Word} {i : Nat}

theorem Occupied.table (hh : h ∈ s.directories) (hi : i < 1024) (hne : s.kernel.tableOf h i ≠ 0) :
    s.Occupied ((s.kernel.tableOf h i).toNat / 4096) :=
  ⟨h, hh, .inr ⟨i, hi, hne, rfl⟩⟩

theorem InPlace.table_low (hplace : InPlace s call t) (hh : h ∈ t.directories) (hi : i < 1024)
    (hne : t.kernel.tableOf h i ≠ 0) : vAddrPagedirIndex (t.kernel.tableOf h i) < 1023 := by
  rw [vAddrPagedirIndex_eq]
  exact hplace.low _ (.table hh hi hne)

theorem InPlace.table_untouched (hplace : InPlace s call t) {w : Word × Word} (hw : w ∈ call.pages)
    (hh : h ∈ t.directories) (hi : i < 1024) (hne : t.kernel.tableOf h i ≠ 0) :
    (t.kernel.tableOf h i).toNat / 4096 ≠ w.1.toNat / 4096 :=
  fun he => hplace.untouched w hw (he ▸ .table hh hi hne)

/-- The kernel's next directory has the page tables of the last one for them. -/
theorem InPlace.table_switched (hplace : InPlace s call t) (hh : h ∈ t.directories) (hi : i < 1024)
    (hne : t.kernel.tableOf h i ≠ 0) (hcur : t.kernel.currentDirectory ∈ t.directories) :
    t.kernel.tableOf t.kernel.currentDirectory (vAddrPagedirIndex (t.kernel.tableOf h i)) =
      t.kernel.tableOf s.kernel.currentDirectory (vAddrPagedirIndex (t.kernel.tableOf h i)) := by
  rw [vAddrPagedirIndex_eq]
  exact hplace.switched _ (.table hh hi hne) _ hcur (.inl rfl)

end PagingSession

/-! ## The processor -/

/-- The words of the frames. -/
abbrev PhysMemory := Word → Nat → Word

namespace PhysMemory

variable (pm : PhysMemory) (cr3 va : Word)

/-- The entry of the directory that the processor reads for an address. -/
def directoryEntry : Word := pm cr3 (vAddrPagedirIndex va)

/-- And the entry of the page table, in the frame that the first one has. -/
def entry : Word := pm (pageEntryAddr (pm.directoryEntry cr3 va)) (vAddrPagetblIndex va)

end PhysMemory

/-- The page tables and directories are in memory, in the frames to which the current directory maps
them. -/
def Kernel.InMemory (k : Kernel) (l : List Word) (pm : PhysMemory) : Prop :=
  ∀ h ∈ l, ∀ i < 1024, k.tableOf h i ≠ 0 → ∀ x, k.tables (k.tableOf h i) = some x →
    ∃ f, k.translation k.currentDirectory (k.tableOf h i) = .ok f ∧ ∀ j < 1024, pm f j = x j

section

variable {k : Kernel} {l : List Word} {pm : PhysMemory} {h va : Word} {hd : PageDirectoryHandle}
  {dir : Nat → Word}

/-- A page table is in the frame that the directory has for it. -/
theorem Kernel.InMemory.table (hmem : k.InMemory l pm) (hcoherent : k.Coherent l) (hh : h ∈ l) {i : Nat}
    (hi : i < 1024) (hne : k.tableOf h i ≠ 0) {x : Nat → Word}
    (hx : k.tables (k.tableOf h i) = some x) {j : Nat} (hj : j < 1024) :
    pm (pageEntryAddr (k.directoryEntry h i)) j = x j := by
  obtain ⟨f, hf, hpm⟩ := hmem h hh i hi hne x hx
  rw [hcoherent h hh i hi hne] at hf
  rw [Except.ok.inj hf]
  exact hpm j hj

/-- The processor reads the entries that the kernel wrote. -/
theorem Kernel.InMemory.walk (hmem : k.InMemory l pm) (hcoherent : k.Coherent l) (hh : h ∈ l)
    (hok : HandleOk k h hd dir) (hne : k.tableOf h (vAddrPagedirIndex va) ≠ 0) :
    pm.directoryEntry (k.directoryFrame h) va = k.directoryEntry h (vAddrPagedirIndex va) ∧
      pm.entry (k.directoryFrame h) va = k.pageEntry h va := by
  have hself : k.tableOf h 1023 = hd.directory := by rw [hok.tableOf, hok.self]
  have hentry : pm.directoryEntry (k.directoryFrame h) va =
      k.directoryEntry h (vAddrPagedirIndex va) := by
    rw [hok.directoryEntry]
    exact hmem.table hcoherent hh (by omega) (hself ▸ hok.directory_ne_null) (hself ▸ hok.directory)
      (dirIndex_le va)
  refine ⟨hentry, ?_⟩
  have hne' := hne
  rw [hok.tableOf] at hne'
  obtain ⟨x, hx⟩ := Option.ne_none_iff_exists'.mp (hok.tables _ (dirIndex_le va) hne')
  rw [← hok.tableOf] at hx
  rw [PhysMemory.entry, hentry, Kernel.pageEntry, hx, Option.elim_some]
  exact hmem.table hcoherent hh (dirIndex_le va) hne hx (tblIndex_lt va)

end

/-! ## A check

For sessions in which only the slots of a list have page tables. -/

namespace PagingSession

/-- The pages with page tables, directories and handles. -/
def occupiedPages (s : PagingSession) (slots : List Nat) : List Nat :=
  s.directories.flatMap fun h =>
    List.range' (h.toNat / 4096)
        ((h.toNat + pageDirectoryHandleSize - 1) / 4096 + 1 - h.toNat / 4096) ++
      (slots.filter fun i => s.kernel.tableOf h i ≠ 0).map fun i => (s.kernel.tableOf h i).toNat / 4096

/-- No other slots have page tables. -/
def onlySlots (s : PagingSession) (slots : List Nat) : Bool :=
  s.directories.all fun h => (List.range 1024).all fun i =>
    s.kernel.tableOf h i == 0 || slots.contains i

variable {s t : PagingSession} {call : PagingCall} {h : Word} {i n : Nat} {slots : List Nat}

theorem mem_slots (hslots : s.onlySlots slots = true) (hh : h ∈ s.directories) (hi : i < 1024)
    (hne : s.kernel.tableOf h i ≠ 0) : i ∈ slots := by
  simp only [onlySlots, List.all_eq_true, Bool.or_eq_true, beq_iff_eq, List.contains_iff_mem,
    List.mem_range] at hslots
  exact (hslots h hh i hi).resolve_left hne

theorem Occupied.mem (hslots : s.onlySlots slots = true) (hn : s.Occupied n) :
    n ∈ s.occupiedPages slots := by
  obtain ⟨h, hh, ⟨hfirst, hlast⟩ | ⟨i, hi, hne, rfl⟩⟩ := hn
  · refine List.mem_flatMap.mpr ⟨h, hh, List.mem_append_left _ ?_⟩
    rw [List.mem_range'_1]
    omega
  · refine List.mem_flatMap.mpr ⟨h, hh, List.mem_append_right _ (List.mem_map.mpr ⟨i, ?_, rfl⟩)⟩
    exact List.mem_filter.mpr ⟨mem_slots hslots hh hi hne, by simpa using hne⟩

end PagingSession

end AvocadOS
