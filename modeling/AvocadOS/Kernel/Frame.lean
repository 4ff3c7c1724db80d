import AvocadOS.Kernel.Tasking
import AvocadOS.Lib.Keeps

/-!
# What paging leaves as it is

The functions of `paging.c` that run after `paging_init` write page tables and handles, and they
allocate: everything else of the state is as before.
-/

namespace AvocadOS

namespace Kernel

/-- `t` differs from `s` at most in page tables, handles and allocated blocks, and these are only
added or written. -/
structure PagingOnly (s t : Kernel) : Prop where
  rest : t = { s with
    requests := t.requests, blocks := t.blocks, tables := t.tables, handles := t.handles }
  blocks : s.blocks <:+ t.blocks
  tables : ∀ a, s.tables a ≠ none → t.tables a ≠ none
  handles : ∀ a, s.handles a ≠ none → t.handles a ≠ none
  /-- No page table is put where there is a handle. -/
  apart : ∀ a, s.handles a ≠ none → s.tables a = none → t.tables a = none

instance : Std.Refl PagingOnly :=
  ⟨fun _ => ⟨rfl, List.suffix_rfl, fun _ => id, fun _ => id, fun _ _ => id⟩⟩

instance : Trans PagingOnly PagingOnly PagingOnly where
  trans {s t u} h₁ h₂ := by
    refine ⟨?_, h₁.blocks.trans h₂.blocks, fun a h => h₂.tables a (h₁.tables a h),
      fun a h => h₂.handles a (h₁.handles a h),
      fun a h h' => h₂.apart a (h₁.handles a h) (h₁.apart a h h')⟩
    rw [h₂.rest, h₁.rest]

end Kernel

open Kernel

section

variable {α : Type} {R : Kernel → Kernel → Prop}

theorem keeps_panic (msg : String) : Keeps R (panic msg : K α) := by
  intro s a t h
  cases h

variable [Std.Refl R]

theorem keeps_load {st : Store α} (p : Word) : Keeps R (st.load p) := by
  intro s a t h
  obtain ⟨-, -, rfl⟩ := Store.load_ok h
  exact Std.Refl.refl _

theorem virtualToPhysicalAddr_keeps [Trans R R R] (handle vaddr : Word) :
    Keeps R (virtualToPhysicalAddr handle vaddr) := by
  refine .bind (keeps_load _) fun h => .bind (keeps_load _) fun directory => .ite ?_ ?_
  · exact .bind .get fun s => .ite (keeps_panic _) (.pure _)
  · exact .bind (keeps_load _) fun table => .pure _

end

/-! ## What every write and allocation of paging keeps -/

/-- The writes to page tables and handles and their allocations keep the relation. -/
structure PagingKeeps (R : Kernel → Kernel → Prop) : Prop where
  tables_modify : ∀ p f, Keeps R (tables.modify p f)
  handles_modify : ∀ p f, Keeps R (handles.modify p f)
  tables_alloc : ∀ size x, Keeps R (tables.alloc size x)
  handles_alloc : ∀ size x, Keeps R (handles.alloc size x)

namespace PagingKeeps

variable {R : Kernel → Kernel → Prop} [Std.Refl R] [Trans R R R]

theorem setDirectory (hR : PagingKeeps R) (handle : Word) (i : Nat) (entry : Word) :
    Keeps R (setDirectory handle i entry) :=
  .bind (keeps_load _) fun _ => hR.tables_modify _ _

omit [Std.Refl R] [Trans R R R] in
theorem setDirectoryVirtual (hR : PagingKeeps R) (handle : Word) (i : Nat) (table : Word) :
    Keeps R (setDirectoryVirtual handle i table) :=
  hR.handles_modify _ _

theorem pagingMapPage (hR : PagingKeeps R) (handle virtAddr pagePtr flags : Word) :
    Keeps R (pagingMapPage handle virtAddr pagePtr flags) := by
  refine .ite (.pure _) (.bind ?_ fun _ => .bind ?_ fun _ => .bind ?_ fun _ => .pure _)
  · refine .bind (keeps_load _) fun h => .ite ?_ (.pure _)
    refine .bind (hR.tables_alloc _ _) fun table => ?_
    refine .bind (hR.setDirectoryVirtual _ _ _) fun _ => ?_
    refine .bind .get fun s => .bind (virtualToPhysicalAddr_keeps _ _) fun phys => ?_
    exact hR.setDirectory _ _ _
  · refine .bind (keeps_load _) fun h => .ite ?_ (.pure _)
    exact .bind (hR.tables_alloc _ _) fun table => hR.setDirectoryVirtual _ _ _
  · exact .bind (keeps_load _) fun h => hR.tables_modify _ _

theorem pagingMapPages (hR : PagingKeeps R) (handle virtAddr physAddr flags : Word) (count : Nat) :
    Keeps R (pagingMapPages handle virtAddr physAddr flags count) := by
  induction count generalizing virtAddr physAddr with
  | zero => exact .pure _
  | succ n ih => exact .bind (hR.pagingMapPage _ _ _ _) fun res => .ite (.pure _) (ih _ _)

theorem pagingMapFromTo (hR : PagingKeeps R) (handle virtAddr physBegin physEnd flags : Word) :
    Keeps R (pagingMapFromTo handle virtAddr physBegin physEnd flags) := by
  refine .ite (.pure _) (.ite (.pure _) (.ite (.pure _) (.ite (.pure _) ?_)))
  exact hR.pagingMapPages _ _ _ _ _

theorem cloneEntries (hR : PagingKeeps R) (source copy : Word) (n : Nat) :
    Keeps R (cloneEntries source copy n) := by
  induction n with
  | zero => exact .pure _
  | succ n ih =>
    refine .bind ?_ fun _ => ih
    refine .bind (keeps_load _) fun src => .bind (keeps_load _) fun directory => .ite (.pure _) ?_
    refine .bind .get fun s => .bind (keeps_load _) fun kernel => ?_
    refine .bind (keeps_load _) fun entries => ?_
    refine .ite (.bind (hR.setDirectory _ _ _) fun _ => hR.setDirectoryVirtual _ _ _) ?_
    refine .bind (hR.tables_alloc _ _) fun table => ?_
    refine .bind (hR.setDirectoryVirtual _ _ _) fun _ => ?_
    refine .bind (keeps_load _) fun contents => .bind (hR.tables_modify _ _) fun _ => ?_
    refine .bind .get fun s => .bind (virtualToPhysicalAddr_keeps _ _) fun phys => ?_
    exact hR.setDirectory _ _ _

theorem pagingCloneDirectory (hR : PagingKeeps R) (source : Word) :
    Keeps R (pagingCloneDirectory source) := by
  refine .bind (hR.handles_alloc _ _) fun copy => .bind (hR.tables_alloc _ _) fun directory => ?_
  refine .bind (hR.handles_modify _ _) fun _ => .bind (hR.cloneEntries _ _ _) fun _ => ?_
  refine .bind (hR.setDirectoryVirtual _ _ _) fun _ => .bind .get fun s => ?_
  refine .bind (virtualToPhysicalAddr_keeps _ _) fun phys => ?_
  exact .bind (hR.setDirectory _ _ _) fun _ => .pure _

theorem mapUserRange (hR : PagingKeeps R) (directory virtAddr ptr : Word) (size : Nat) :
    Keeps R (mapUserRange directory virtAddr ptr size) := by
  refine .bind .get fun s => .bind (virtualToPhysicalAddr_keeps _ _) fun phys => ?_
  exact hR.pagingMapFromTo _ _ _ _ _

end PagingKeeps

/-- Translating an address changes nothing. -/
theorem virtualToPhysicalAddr_state {s t : Kernel} {handle vaddr p : Word}
    (h : virtualToPhysicalAddr handle vaddr s = .ok (p, t)) : t = s := by
  exact (virtualToPhysicalAddr_keeps (R := Eq) handle vaddr h).symm

theorem update_ne_none {α : Type} {m : Word → Option α} {p a : Word} {x : α} (h : m a ≠ none) :
    Function.update m p (some x) a ≠ none := by
  rw [Function.update_apply]
  split
  · simp
  · exact h

theorem tables_modify_frame (p : Word) (f : (Nat → Word) → Nat → Word) :
    Keeps PagingOnly (tables.modify p f) := by
  intro s a t h
  obtain ⟨-, x, hx, rfl⟩ := Store.modify_ok h
  refine ⟨rfl, List.suffix_rfl, fun _ => update_ne_none, fun _ => id, fun b _ hb => ?_⟩
  refine (Function.update_of_ne ?_ _ _).trans hb
  rintro rfl
  rw [tables_get, hb] at hx
  cases hx

theorem handles_modify_frame (p : Word) (f : PageDirectoryHandle → PageDirectoryHandle) :
    Keeps PagingOnly (handles.modify p f) := by
  intro s a t h
  obtain ⟨-, x, -, rfl⟩ := Store.modify_ok h
  exact ⟨rfl, List.suffix_rfl, fun _ => id, fun _ => update_ne_none, fun _ _ => id⟩

theorem tables_alloc_frame (size : Nat) (x : Nat → Word) :
    Keeps PagingOnly (tables.alloc size x) := by
  intro s a t h
  rcases Store.alloc_ok h with ⟨-, rfl⟩ | ⟨-, hfresh, rfl⟩
  · exact ⟨rfl, List.suffix_rfl, fun _ => id, fun _ => id, fun _ _ => id⟩
  · refine ⟨rfl, List.suffix_cons _ _, fun _ => update_ne_none, fun _ => id, fun b hb hb' => ?_⟩
    refine (Function.update_of_ne ?_ _ _).trans hb'
    rintro rfl
    exact hb hfresh.vacant.2.1

theorem handles_alloc_frame (size : Nat) (x : PageDirectoryHandle) :
    Keeps PagingOnly (handles.alloc size x) := by
  intro s a t h
  rcases Store.alloc_ok h with ⟨-, rfl⟩ | ⟨-, -, rfl⟩
  · exact ⟨rfl, List.suffix_rfl, fun _ => id, fun _ => id, fun _ _ => id⟩
  · exact ⟨rfl, List.suffix_cons _ _, fun _ => id, fun _ => update_ne_none, fun _ _ => id⟩

theorem pagingOnly_keeps : PagingKeeps PagingOnly :=
  ⟨tables_modify_frame, handles_modify_frame, tables_alloc_frame, handles_alloc_frame⟩

theorem setDirectory_frame (handle : Word) (i : Nat) (entry : Word) :
    Keeps PagingOnly (setDirectory handle i entry) :=
  pagingOnly_keeps.setDirectory _ _ _

theorem setDirectoryVirtual_frame (handle : Word) (i : Nat) (table : Word) :
    Keeps PagingOnly (setDirectoryVirtual handle i table) :=
  pagingOnly_keeps.setDirectoryVirtual _ _ _

theorem pagingMapPage_frame (handle virtAddr pagePtr flags : Word) :
    Keeps PagingOnly (pagingMapPage handle virtAddr pagePtr flags) :=
  pagingOnly_keeps.pagingMapPage _ _ _ _

theorem pagingMapPages_frame (handle virtAddr physAddr flags : Word) (count : Nat) :
    Keeps PagingOnly (pagingMapPages handle virtAddr physAddr flags count) :=
  pagingOnly_keeps.pagingMapPages _ _ _ _ _

theorem pagingMapFromTo_frame (handle virtAddr physBegin physEnd flags : Word) :
    Keeps PagingOnly (pagingMapFromTo handle virtAddr physBegin physEnd flags) :=
  pagingOnly_keeps.pagingMapFromTo _ _ _ _ _

theorem pagingCloneDirectory_frame (source : Word) :
    Keeps PagingOnly (pagingCloneDirectory source) :=
  pagingOnly_keeps.pagingCloneDirectory _

theorem mapUserRange_frame (directory virtAddr ptr : Word) (size : Nat) :
    Keeps PagingOnly (mapUserRange directory virtAddr ptr size) :=
  pagingOnly_keeps.mapUserRange _ _ _ _

end AvocadOS
