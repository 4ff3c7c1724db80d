import AvocadOS.Fs.Handles
import AvocadOS.Kernel.Frame
import Mathlib.Data.List.Pairwise

/-!
# Files apart from tasks and page tables

The file layer and the tasking layer share one heap. What they allocate for themselves are objects of
different types; here is what either of them does to the objects of the other.

* `Tiled`: the blocks of the heap do not overlap;
* `Filed`: what the functions of the file layer keep (`fopen_filed`, `fclose_filed`);
* `Filed.sameObjects`: they leave page tables, directories, tasks and processes as they are;
* `Added`: what the creation of a process keeps, up to its cleanup (`processInitStack_added`).
-/

namespace AvocadOS

open Kernel

set_option linter.style.nameCheck false

/-! ## Blocks that do not overlap -/

/-- The ranges of the two blocks have no byte in common. -/
def Block.Apart (b c : Block) : Prop :=
  b.ptr.toNat + sizeToNblocks b.size * KERNEL_HEAP_BLOCK_SIZE ≤ c.ptr.toNat ∨
    c.ptr.toNat + sizeToNblocks c.size * KERNEL_HEAP_BLOCK_SIZE ≤ b.ptr.toNat

theorem Block.Apart.symm {b c : Block} (h : b.Apart c) : c.Apart b := Or.symm h

namespace Kernel

structure Tiled (s : Kernel) : Prop where
  sizes : ∀ b ∈ s.blocks, 0 < b.size
  apart : s.blocks.Pairwise Block.Apart
  within : ∀ b ∈ s.blocks, b.ptr.toNat + b.size ≤ 2 ^ 32

/-- Neither a page table nor a directory, a task or a process is at the address. -/
structure Bare (s : Kernel) (a : Word) : Prop where
  tables : s.tables a = none
  handles : s.handles a = none
  tasks : s.tasks a = none
  procs : s.procs a = none

end Kernel

section

variable {s t u : Kernel} {a : Word} {size : Nat} {b c : Block}

theorem Block.Apart.ne (h : b.Apart c) (hb : 0 < b.size) (hc : 0 < c.size) : b.ptr ≠ c.ptr := by
  intro heq
  have h₁ := sizeToNblocks_pos hb
  have h₂ := sizeToNblocks_pos hc
  rw [Block.Apart, heq] at h
  unfold KERNEL_HEAP_BLOCK_SIZE at h
  omega

theorem Kernel.Tiled.heapOk (h : s.Tiled) : s.HeapOk where
  sizes := h.sizes
  nodup := List.pairwise_map.mpr
    (h.apart.imp_of_mem fun hb hc happ => happ.ne (h.sizes _ hb) (h.sizes _ hc))

/-- Two blocks of the heap are apart, or they are one. -/
theorem Kernel.Tiled.apart_of_ne (h : s.Tiled) (hb : b ∈ s.blocks) (hc : c ∈ s.blocks)
    (hne : b ≠ c) : b.Apart c := by
  have : Std.Symm Block.Apart := ⟨fun _ _ h => h.symm⟩
  exact h.apart.forall hb hc hne

/-- Two blocks of the heap with one address are one. -/
theorem Kernel.Tiled.ptr_ne (h : s.Tiled) (hb : b ∈ s.blocks) (hc : c ∈ s.blocks) (hne : b ≠ c) :
    b.ptr ≠ c.ptr :=
  (h.apart_of_ne hb hc hne).ne (h.sizes b hb) (h.sizes c hc)

theorem Kernel.Tiled.of_blocks (h : s.Tiled) (hb : t.blocks = s.blocks) : t.Tiled :=
  ⟨hb ▸ h.sizes, hb ▸ h.apart, hb ▸ h.within⟩

theorem Kernel.Tiled.of_sublist (h : s.Tiled) (hb : t.blocks.Sublist s.blocks) : t.Tiled :=
  ⟨fun b hm => h.sizes b (hb.subset hm), h.apart.sublist hb, fun b hm => h.within b (hb.subset hm)⟩

/-- A new block. -/
theorem Kernel.Tiled.of_fresh (h : s.Tiled) (hpos : 0 < size) (hfresh : s.Fresh a size)
    (hb : t.blocks = ⟨a, size⟩ :: s.blocks) : t.Tiled := by
  refine ⟨fun c hc => ?_, ?_, fun c hc => ?_⟩
  · rw [hb] at hc
    rcases List.mem_cons.mp hc with rfl | hc
    · exact hpos
    · exact h.sizes c hc
  · rw [hb]
    exact List.pairwise_cons.mpr ⟨fun c hc => hfresh.2.2.2 c hc, h.apart⟩
  · rw [hb] at hc
    rcases List.mem_cons.mp hc with rfl | hc
    · exact hfresh.2.1
    · exact h.within c hc

/-- A new block is at the address of no other. -/
theorem Kernel.Tiled.fresh_ne (h : s.Tiled) (hpos : 0 < size) (hfresh : s.Fresh a size)
    (hb : b ∈ s.blocks) : b.ptr ≠ a :=
  (Block.Apart.ne (b := ⟨a, size⟩) (hfresh.2.2.2 b hb) hpos (h.sizes b hb)).symm

end

/-! ## The file layer -/

/-- The blocks still do not overlap. At no address is there an object of the tasking layer that was
not there before. -/
structure Filed (s t : Kernel) : Prop where
  tiled : s.Tiled → t.Tiled
  tables : ∀ a, t.tables a = none ∨ t.tables a = s.tables a
  handles : ∀ a, t.handles a = none ∨ t.handles a = s.handles a
  tasks : ∀ a, t.tasks a = none ∨ t.tasks a = s.tasks a
  procs : ∀ a, t.procs a = none ∨ t.procs a = s.procs a

instance : Std.Refl Filed := ⟨fun _ => ⟨id, fun _ => .inr rfl, fun _ => .inr rfl, fun _ => .inr rfl,
  fun _ => .inr rfl⟩⟩

theorem none_or_trans {α : Type} {x y z : Option α} (h : y = none ∨ y = x) (h' : z = none ∨ z = y) :
    z = none ∨ z = x := by
  rcases h' with rfl | rfl
  · exact .inl rfl
  · exact h

instance : Trans Filed Filed Filed where
  trans h h' := ⟨fun ht => h'.tiled (h.tiled ht), fun a => none_or_trans (h.tables a) (h'.tables a),
    fun a => none_or_trans (h.handles a) (h'.handles a),
    fun a => none_or_trans (h.tasks a) (h'.tasks a), fun a => none_or_trans (h.procs a) (h'.procs a)⟩

/-- A store of the file layer: its writes touch neither the other layer's objects nor the blocks. -/
structure Store.OfFiles {α : Type} (st : Store α) : Prop where
  tables : ∀ u m, (st.put u m).tables = u.tables
  handles : ∀ u m, (st.put u m).handles = u.handles
  tasks : ∀ u m, (st.put u m).tasks = u.tasks
  procs : ∀ u m, (st.put u m).procs = u.procs
  blocks : ∀ u m, (st.put u m).blocks = u.blocks

theorem files_ofFiles : files.OfFiles :=
  ⟨fun _ _ => rfl, fun _ _ => rfl, fun _ _ => rfl, fun _ _ => rfl, fun _ _ => rfl⟩

theorem roots_ofFiles : roots.OfFiles :=
  ⟨fun _ _ => rfl, fun _ _ => rfl, fun _ _ => rfl, fun _ _ => rfl, fun _ _ => rfl⟩

theorem parts_ofFiles : parts.OfFiles :=
  ⟨fun _ _ => rfl, fun _ _ => rfl, fun _ _ => rfl, fun _ _ => rfl, fun _ _ => rfl⟩

theorem strings_ofFiles : strings.OfFiles :=
  ⟨fun _ _ => rfl, fun _ _ => rfl, fun _ _ => rfl, fun _ _ => rfl, fun _ _ => rfl⟩

theorem items_ofFiles : items.OfFiles :=
  ⟨fun _ _ => rfl, fun _ _ => rfl, fun _ _ => rfl, fun _ _ => rfl, fun _ _ => rfl⟩

theorem descriptors_ofFiles : descriptors.OfFiles :=
  ⟨fun _ _ => rfl, fun _ _ => rfl, fun _ _ => rfl, fun _ _ => rfl, fun _ _ => rfl⟩

section

variable {s t u : Kernel} {a : Word} {size : Nat} {α : Type} {st : Store α}

theorem Store.OfFiles.filed (h : st.OfFiles) (u : Kernel) (m : Word → Option α) :
    Filed u (st.put u m) :=
  ⟨fun ht => ht.of_blocks (h.blocks u m), fun a => .inr (congrFun (h.tables u m) a),
    fun a => .inr (congrFun (h.handles u m) a), fun a => .inr (congrFun (h.tasks u m) a),
    fun a => .inr (congrFun (h.procs u m) a)⟩

theorem kzalloc_filed (size : Nat) : Keeps Filed (kzalloc size) := by
  intro s a t h
  rcases kzalloc_ok h with ⟨-, rfl⟩ | ⟨-, hpos, hfresh, rfl⟩
  · exact ⟨fun ht => ht.of_blocks rfl, fun _ => .inr rfl, fun _ => .inr rfl, fun _ => .inr rfl,
      fun _ => .inr rfl⟩
  · exact ⟨fun ht => ht.of_fresh hpos hfresh rfl, fun _ => .inr rfl, fun _ => .inr rfl,
      fun _ => .inr rfl, fun _ => .inr rfl⟩

theorem update_none_or {m : Word → Option α} {p : Word} (a : Word) :
    Function.update m p none a = none ∨ Function.update m p none a = m a := by
  by_cases h : a = p
  · exact .inl (by rw [h, Function.update_self])
  · exact .inr (Function.update_of_ne h ..)

theorem kfree_filed (a : Word) : Keeps Filed (kfree a) := by
  intro s x t h
  obtain ⟨-, rfl⟩ := kfree_ok h
  exact ⟨fun ht => ht.of_sublist List.filter_sublist, update_none_or, update_none_or, update_none_or,
    update_none_or⟩

theorem Store.OfFiles.modify (h : st.OfFiles) (p : Word) (f : α → α) :
    Keeps Filed (st.modify p f) := by
  intro s x t hm
  obtain ⟨-, y, -, rfl⟩ := Store.modify_ok hm
  exact h.filed _ _

theorem Store.OfFiles.alloc (h : st.OfFiles) (size : Nat) (zero : α) :
    Keeps Filed (st.alloc size zero) := by
  refine .bind (kzalloc_filed _) fun a => .ite (.pure _) fun s x t hm => ?_
  cases hm
  exact h.filed _ _

theorem onDev_filed (m : DevM α) : Keeps Filed (onDev m) := by
  intro s x t h
  rw [onDev] at h
  split at h
  · cases h
  · cases h
    exact ⟨fun ht => ht.of_blocks rfl, fun _ => .inr rfl, fun _ => .inr rfl, fun _ => .inr rfl,
      fun _ => .inr rfl⟩

theorem setFileTable_filed (index : Nat) (descriptor : Word) :
    Keeps Filed (setFileTable index descriptor) := by
  intro s x t h
  cases h
  exact ⟨fun ht => ht.of_blocks rfl, fun _ => .inr rfl, fun _ => .inr rfl, fun _ => .inr rfl,
    fun _ => .inr rfl⟩

/-! ### `path_parser.c` -/

theorem setSegment_filed (root : Word) (previous : Option Word) (segment : Word) :
    Keeps Filed (setSegment root previous segment) := by
  cases previous with
  | none => exact roots_ofFiles.modify _ _
  | some part => exact parts_ofFiles.modify _ _

theorem pathparserAppend_filed (root : Word) (previous : Option Word) (names : List (List Byte)) :
    Keeps Filed (pathparserAppend root previous names) := by
  induction names generalizing previous with
  | nil => exact .pure _
  | cons name names ih =>
    refine .bind (parts_ofFiles.alloc _ _) fun segment => .bind (setSegment_filed _ _ _) fun _ => ?_
    refine .bind (strings_ofFiles.alloc _ _) fun part => .bind (parts_ofFiles.modify _ _) fun _ => ?_
    exact .bind (strings_ofFiles.modify _ _) fun _ => ih _

theorem pathparseFreeParts_filed (fuel : Nat) (ptr : Word) :
    Keeps Filed (pathparseFreeParts fuel ptr) := by
  induction fuel generalizing ptr with
  | zero =>
    intro s x t h
    cases h
  | succ fuel ih =>
    have hnext : ∀ next, Keeps Filed (do kfree ptr; pathparseFreeParts fuel next) :=
      fun _ => .bind (kfree_filed _) fun _ => ih _
    refine .ite (.pure _) (.bind (keeps_load _) fun p => .ite ?_ (hnext _))
    exact .bind (kfree_filed _) fun _ => hnext _

theorem pathparsePathFree_filed (path : Word) : Keeps Filed (pathparsePathFree path) :=
  .bind (keeps_load _) fun _ => .bind (pathparseFreeParts_filed _ _) fun _ => kfree_filed _

theorem pathparserPathParse_filed (path : List Byte) : Keeps Filed (pathparserPathParse path) := by
  refine .ite (.bind (roots_ofFiles.alloc _ _) fun root => .ite (.pure _) ?_) (.pure _)
  refine .bind (roots_ofFiles.modify _ _) fun _ => .ite ?_ ?_
  · exact .bind (pathparsePathFree_filed _) fun _ => .pure _
  · exact .bind (pathparserAppend_filed _ _ _) fun _ => .pure _

/-! ### `fat16.c` -/

theorem fsPrivate_filed : Keeps Filed fsPrivate := by
  refine .bind .get fun s => ?_
  split
  · intro s x t h
    cases h
  · exact .pure _

theorem fat16OpenItem_filed (item : Word) : Keeps Filed (fat16OpenItem item) := by
  refine .bind (descriptors_ofFiles.alloc _ _) fun descriptor => .ite (.pure _) ?_
  refine .bind (keeps_load _) fun x => .bind fsPrivate_filed fun p => ?_
  exact .bind (descriptors_ofFiles.modify _ _) fun _ => .pure _

theorem fat16SplitEntryName_filed (name : List Byte) : Keeps Filed (fat16SplitEntryName name) :=
  .ite (.pure _) fun s x t h => by cases h

theorem fat16FindEntry_filed (fuel : Nat) (descriptor : Word) (filename extension : List Byte) :
    Keeps Filed (fat16FindEntry fuel descriptor filename extension) := by
  refine .bind fsPrivate_filed fun p => .bind (keeps_load _) fun d => .ite (.pure _) ?_
  refine .bind (onDev_filed _) fun ⟨d, found⟩ => ?_
  cases found with
  | none => exact .bind (descriptors_ofFiles.modify _ _) fun _ => .pure _
  | some r =>
    refine .bind (items_ofFiles.alloc _ _) fun item => .ite ?_ ?_
    · exact .bind (descriptors_ofFiles.modify _ _) fun _ => .pure _
    · refine .bind (items_ofFiles.modify _ _) fun _ => ?_
      exact .bind (descriptors_ofFiles.modify _ _) fun _ => .pure _

theorem traverseParts_filed (fuel n : Nat) (item path : Word) :
    Keeps Filed (traverseParts fuel n item path) := by
  induction n generalizing item path with
  | zero =>
    intro s x t h
    cases h
  | succ n ih =>
    refine .ite (.pure _) (.bind (fat16OpenItem_filed _) fun folder => ?_)
    refine .bind (kfree_filed _) fun _ => .ite (.pure _) (.bind (keeps_load _) fun part => ?_)
    refine .bind (keeps_load _) fun name => .bind (fat16SplitEntryName_filed _) fun ⟨_, _⟩ => ?_
    refine .bind (fat16FindEntry_filed _ _ _ _) fun item => .bind (kfree_filed _) fun _ => ?_
    exact .ite (.pure _) (.bind (keeps_load _) fun part => ih _ _)

theorem fat16Open_filed (fuel : Nat) (path : Word) : Keeps Filed (fat16Open fuel path) := by
  refine .bind (.bind fsPrivate_filed fun p => ?_) fun item => .ite (.pure _) ?_
  · refine .bind (items_ofFiles.alloc _ _) fun item => .bind (items_ofFiles.modify _ _) fun _ => ?_
    exact traverseParts_filed _ _ _ _
  · exact .bind (fat16OpenItem_filed _) fun _ => .bind (kfree_filed _) fun _ => .pure _

/-! ### `file_table.c` and `file.c` -/

theorem fileTableOpenFile_filed (descriptor : Word) : Keeps Filed (fileTableOpenFile descriptor) := by
  refine .bind (.bind .get fun s => ?_) fun index => .ite (.pure _) ?_
  · split <;> exact .pure _
  · refine .bind (files_ofFiles.modify _ _) fun _ => .bind (setFileTable_filed _ _) fun _ => .pure _

theorem fileTableCloseFile_filed (descriptor : Word) :
    Keeps Filed (fileTableCloseFile descriptor) := by
  refine .bind (keeps_load _) fun f => .ite (.pure _) (.bind (setFileTable_filed _ _) fun _ => ?_)
  exact .bind (files_ofFiles.modify _ _) fun _ => .pure _

/-- The table of a disk's file system is the one of `fat16.c`. -/
theorem keeps_fsOperations {β : Type} {disk : Word} {f : Option FilesystemOperations → K β}
    (hnone : Keeps Filed (f none)) (hsome : Keeps Filed (f (some fat16Operations))) :
    Keeps Filed (fsOperations disk >>= f) := by
  intro s x t h
  obtain ⟨ops, u, hops, hrun⟩ := bind_ok h
  have hstate : u = s := by
    rw [fsOperations] at hops
    split at hops
    · cases hops
    · exact (Prod.mk.inj (Except.ok.inj hops)).2.symm
  subst hstate
  cases ops with
  | none => exact hnone hrun
  | some ops =>
    obtain rfl := fsOperations_ok hops
    exact hsome hrun

theorem getFileTable_filed (index : Int) : Keeps Filed (getFileTable index) :=
  .ite (.bind .get fun _ => .pure _) fun s x t h => by cases h

theorem fopenOn_filed (fuel : Nat) (path descriptor : Word) :
    Keeps Filed (fopenOn fuel path descriptor) := by
  refine .bind (keeps_load _) fun root => .bind (.ite (.pure _) (.bind .get fun s => .pure _)) ?_
  rintro ⟨res, disk⟩
  refine .bind (files_ofFiles.modify _ _) fun _ => .ite (.pure _) (.bind (keeps_load _) fun f => ?_)
  refine keeps_fsOperations (.pure _) (.bind (files_ofFiles.modify _ _) fun _ => ?_)
  refine .bind (fat16Open_filed _ _) fun priv => .bind (files_ofFiles.modify _ _) fun _ => ?_
  exact .ite (.pure _) (fileTableOpenFile_filed _)

theorem fopenOut_filed (path descriptor : Word) (res : Int) :
    Keeps Filed (fopenOut path descriptor res) := by
  have hfree : Keeps Filed (do kfree descriptor; pure 0 : K Word) :=
    .bind (kfree_filed _) fun _ => .pure _
  refine .ite (.bind (pathparsePathFree_filed _) fun _ => .ite ?_ (.pure _)) (.pure _)
  refine .bind (keeps_load _) fun f => keeps_fsOperations hfree (.ite ?_ hfree)
  exact .bind (.bind (kfree_filed _) fun _ => .pure _) fun _ => hfree

theorem fopen_filed (fuel : Nat) (filename mode : List Byte) :
    Keeps Filed (fopen fuel filename mode) := by
  refine .ite (.bind (pathparserPathParse_filed _) fun path => .ite (.pure _) ?_) (.pure _)
  refine .bind (keeps_load _) fun root => .ite ?_ ?_
  · exact .bind (pathparsePathFree_filed _) fun _ => .pure _
  · refine .bind (files_ofFiles.alloc _ _) fun file => .ite (fopenOut_filed _ _ _) ?_
    exact .bind (fopenOn_filed _ _ _) fun res => fopenOut_filed _ _ _

theorem fclose_filed (stream : Word) : Keeps Filed (fclose stream) := by
  refine .bind (keeps_load _) fun f => .bind (getFileTable_filed _) fun file => .ite (.pure _) ?_
  refine .bind (fileTableCloseFile_filed _) fun res =>
    .ite (.pure _) (.bind (keeps_load _) fun f => ?_)
  rw [operationsOf, bind_assoc]
  refine keeps_fsOperations (fun s x t h => by cases h) ?_
  rw [callEntry, pure_bind]
  refine .bind (.bind (kfree_filed _) fun _ => .pure _) fun res => .ite (.pure _) ?_
  exact .bind (pathparsePathFree_filed _) fun _ => .bind (kfree_filed _) fun _ => .pure _

theorem fread_filed (size nmemb : Nat) (stream : Word) : Keeps Filed (fread size nmemb stream) := by
  refine .bind (keeps_load _) fun f => .bind (getFileTable_filed _) fun file => .ite (.pure _) ?_
  refine .bind (keeps_load _) fun f => ?_
  rw [operationsOf, bind_assoc]
  refine keeps_fsOperations (fun s x t h => by cases h) ?_
  rw [callEntry, pure_bind]
  refine .bind fsPrivate_filed fun p => .bind (keeps_load _) fun d => .bind (onDev_filed _) ?_
  rintro ⟨d, n, out⟩
  exact .bind (descriptors_ofFiles.modify _ _) fun _ => .pure _

theorem fstat_filed (fd : Int) : Keeps Filed (fstat fd) := by
  refine .bind (getFileTable_filed _) fun file => .ite (.pure _) (.bind (keeps_load _) fun f => ?_)
  rw [operationsOf, bind_assoc]
  refine keeps_fsOperations (fun s x t h => by cases h) ?_
  rw [callEntry, pure_bind]
  exact .bind (keeps_load _) fun d => .pure _

/-! ### The objects of the other layer -/

/-- Page tables, directories, tasks and processes are as before. -/
structure SameObjects (s t : Kernel) : Prop where
  tables : t.tables = s.tables
  handles : t.handles = s.handles
  tasks : t.tasks = s.tasks
  procs : t.procs = s.procs

/-- They are, if a call of the file layer has not changed anything at their addresses. -/
theorem Filed.sameObjects (h : Filed s t) (hcells : ∀ a, ¬ s.Bare a → t.cell a = s.cell a) :
    SameObjects s t := by
  refine ⟨funext fun a => ?_, funext fun a => ?_, funext fun a => ?_, funext fun a => ?_⟩ <;>
    by_cases hbare : s.Bare a
  · exact (h.tables a).elim (fun hnone => hnone.trans hbare.tables.symm) id
  · exact congrArg Cell.table (hcells a hbare)
  · exact (h.handles a).elim (fun hnone => hnone.trans hbare.handles.symm) id
  · exact congrArg Cell.handle (hcells a hbare)
  · exact (h.tasks a).elim (fun hnone => hnone.trans hbare.tasks.symm) id
  · exact congrArg Cell.task (hcells a hbare)
  · exact (h.procs a).elim (fun hnone => hnone.trans hbare.procs.symm) id
  · exact congrArg Cell.proc (hcells a hbare)

theorem SameObjects.bare (h : SameObjects s t) (hb : s.Bare a) : t.Bare a :=
  ⟨h.tables ▸ hb.tables, h.handles ▸ hb.handles, h.tasks ▸ hb.tasks, h.procs ▸ hb.procs⟩

theorem Kernel.New.bare (h : s.New a) : s.Bare a := by
  have hvacant := h.1
  simp only [Kernel.vacant, Bool.and_eq_true, Option.isNone_iff_eq_none] at hvacant
  obtain ⟨⟨⟨⟨⟨⟨⟨⟨⟨h₁, h₂⟩, h₃⟩, h₄⟩, -⟩, -⟩, -⟩, -⟩, -⟩, -⟩ := hvacant
  exact ⟨h₁, h₂, h₃, h₄⟩

end

/-! ## The creation of a process -/

/-- Blocks are added, and the objects of the tasking layer are put in no block that was there. -/
def Added (s t : Kernel) : Prop := s.Tiled →
  t.Tiled ∧ s.blocks <:+ t.blocks ∧ ∀ b ∈ s.blocks, s.Bare b.ptr → t.Bare b.ptr

instance : Std.Refl Added := ⟨fun _ ht => ⟨ht, List.suffix_rfl, fun _ _ => id⟩⟩

instance : Trans Added Added Added where
  trans h h' ht := by
    obtain ⟨ht', hblocks, hbare⟩ := h ht
    obtain ⟨ht'', hblocks', hbare'⟩ := h' ht'
    exact ⟨ht'', hblocks.trans hblocks', fun b hb hbb => hbare' b (hblocks.subset hb) (hbare b hb hbb)⟩

section

variable {s t u : Kernel} {a : Word} {α : Type} {st : Store α}

/-- A step that adds no block, and no object where there was none. -/
theorem Added.of_bare (hblocks : t.blocks = s.blocks) (hbare : ∀ a, s.Bare a → t.Bare a) :
    Added s t := fun ht =>
  ⟨ht.of_blocks hblocks, hblocks ▸ List.suffix_rfl, fun b _ => hbare b.ptr⟩

theorem kzalloc_added (size : Nat) : Keeps Added (kzalloc size) := by
  intro s a t h
  rcases kzalloc_ok h with ⟨-, rfl⟩ | ⟨-, hpos, hfresh, rfl⟩
  · exact .of_bare rfl fun _ hb => ⟨hb.1, hb.2, hb.3, hb.4⟩
  · exact fun ht => ⟨ht.of_fresh hpos hfresh rfl, List.suffix_cons _ _,
      fun _ _ hb => ⟨hb.1, hb.2, hb.3, hb.4⟩⟩

/-- A store whose writes at one address leave the others bare. -/
structure Store.OfTasking (st : Store α) : Prop where
  blocks : ∀ u m, (st.put u m).blocks = u.blocks
  bare : ∀ {u : Kernel} {a p : Word} {x : Option α}, u.Bare a → a ≠ p →
    (st.put u (Function.update (st.get u) p x)).Bare a
  none : ∀ {u : Kernel} {a : Word}, u.Bare a → st.get u a = none

theorem tables_ofTasking : tables.OfTasking :=
  ⟨fun _ _ => rfl, fun hb ha => ⟨(Function.update_of_ne ha ..).trans hb.1, hb.2, hb.3, hb.4⟩,
    fun hb => hb.1⟩

theorem handles_ofTasking : handles.OfTasking :=
  ⟨fun _ _ => rfl, fun hb ha => ⟨hb.1, (Function.update_of_ne ha ..).trans hb.2, hb.3, hb.4⟩,
    fun hb => hb.2⟩

theorem tasks_ofTasking : tasks.OfTasking :=
  ⟨fun _ _ => rfl, fun hb ha => ⟨hb.1, hb.2, (Function.update_of_ne ha ..).trans hb.3, hb.4⟩,
    fun hb => hb.3⟩

theorem procs_ofTasking : procs.OfTasking :=
  ⟨fun _ _ => rfl, fun hb ha => ⟨hb.1, hb.2, hb.3, (Function.update_of_ne ha ..).trans hb.4⟩,
    fun hb => hb.4⟩

theorem Store.OfTasking.modify (h : st.OfTasking) (p : Word) (f : α → α) :
    Keeps Added (st.modify p f) := by
  intro s x t hm
  obtain ⟨-, y, hy, rfl⟩ := Store.modify_ok hm
  refine .of_bare (h.blocks _ _) fun a hb => h.bare hb ?_
  rintro rfl
  rw [h.none hb] at hy
  cases hy

theorem Store.OfTasking.alloc (h : st.OfTasking) (size : Nat) (zero : α) :
    Keeps Added (st.alloc size zero) := by
  intro s a t hm
  obtain ⟨b, u, hk, hput⟩ := bind_ok hm
  have hkept : Added s u := kzalloc_added size hk
  split at hput
  · obtain ⟨-, rfl⟩ := pure_ok hput
    exact hkept
  · rename_i hne
    cases hput
    intro ht
    obtain ⟨ht', hblocks, hbare⟩ := hkept ht
    rcases kzalloc_ok hk with ⟨h0, -⟩ | ⟨-, hpos, hfresh, rfl⟩
    · exact absurd h0 hne
    refine ⟨ht'.of_blocks (h.blocks _ _), ?_, fun c hc hcb => h.bare (hbare c hc hcb) ?_⟩
    · rw [h.blocks]
      exact hblocks
    · exact ht.fresh_ne hpos hfresh hc

theorem paging_added : PagingKeeps Added :=
  ⟨tables_ofTasking.modify, handles_ofTasking.modify, tables_ofTasking.alloc, handles_ofTasking.alloc⟩

theorem taskListInsert_added (task : Word) : Keeps Added (taskListInsert task) := by
  refine .bind .get fun s => .bind (tasks_ofTasking.modify _ _) fun _ =>
    .bind (keeps_load _) fun _ => ?_
  refine .bind (tasks_ofTasking.modify _ _) fun _ => .bind (tasks_ofTasking.modify _ _) fun _ => ?_
  exact .bind (keeps_load _) fun _ => tasks_ofTasking.modify _ _

theorem taskNew_added (process : Word) (privileged : Bool) (entryPoint esp : Word) :
    Keeps Added (taskNew process privileged entryPoint esp) := by
  refine .bind (tasks_ofTasking.alloc _ _) fun task => .ite (.pure _) ?_
  refine .bind (tasks_ofTasking.modify _ _) fun _ => .bind ?_ fun _ => ?_
  · exact .bind (keeps_load _) fun t => tasks_ofTasking.modify _ _
  · exact .bind (taskListInsert_added _) fun _ => .pure _

theorem processListInsert_added (process : Word) : Keeps Added (processListInsert process) := by
  refine .bind .get fun s => .bind (keeps_load _) fun _ => ?_
  refine .bind (procs_ofTasking.modify _ _) fun _ => .bind (keeps_load _) fun _ => ?_
  refine .bind (procs_ofTasking.modify _ _) fun _ => .bind (procs_ofTasking.modify _ _) fun _ => ?_
  exact .bind (keeps_load _) fun _ => procs_ofTasking.modify _ _

theorem processMapMemory_added (process : Word) : Keeps Added (processMapMemory process) := by
  refine .bind (keeps_load _) fun p => .ite (keeps_panic _) (.bind .get fun s => ?_)
  refine .bind (paging_added.pagingCloneDirectory _) fun directory => ?_
  refine .bind (procs_ofTasking.modify _ _) fun _ => .bind (keeps_load _) fun p => ?_
  refine .bind (paging_added.mapUserRange _ _ _ _) fun res => .ite (.pure _) ?_
  exact paging_added.mapUserRange _ _ _ _

theorem processInitStack_added (process : Word) (name : List Byte) (privileged : Bool) :
    Keeps Added (processInitStack process name privileged) := by
  refine .bind (kzalloc_added _) fun stack => .bind (procs_ofTasking.modify _ _) fun _ => ?_
  refine .ite (.pure _) (.bind (processMapMemory_added _) fun res => .ite (.pure _) ?_)
  refine .bind (procs_ofTasking.modify _ _) fun _ => .bind (taskNew_added _ _ _ _) fun task => ?_
  refine .bind (procs_ofTasking.modify _ _) fun _ => .ite (.pure _) ?_
  exact .bind (processListInsert_added _) fun _ => .pure _

/-- A process that is created adds to the heap what it needs. -/
theorem processInit_added {name : List Byte} {memory : Word} {memorySize slot : Nat}
    {privileged : Bool} (h : processInit name memory memorySize privileged slot s = .ok (0, t)) :
    Added s t := by
  have hset : ∀ process, Keeps Added (setProcess slot process) := fun process s x t h => by
    cases h
    exact .of_bare rfl fun _ hb => ⟨hb.1, hb.2, hb.3, hb.4⟩
  obtain ⟨process, s₁, halloc, h⟩ := bind_ok h
  obtain ⟨_, s₂, hslot, h⟩ := bind_ok h
  have h₂ : Added s s₂ := Trans.trans (procs_ofTasking.alloc _ _ halloc) (hset _ hslot)
  split at h
  · cases h
  obtain ⟨_, s₃, hmodify, h⟩ := bind_ok h
  obtain ⟨res, s₄, hstack, h⟩ := bind_ok h
  have h₄ : Added s s₄ := Trans.trans h₂
    (Trans.trans (procs_ofTasking.modify _ _ hmodify) (processInitStack_added _ _ _ hstack))
  -- nothing is undone, as the result is 0
  rw [processInitOut] at h
  split at h
  · rename_i hneg
    obtain ⟨_, s₅, -, h⟩ := bind_ok h
    rw [← (pure_ok h).1] at hneg
    exact absurd hneg (by decide)
  · obtain ⟨-, rfl⟩ := pure_ok h
    exact h₄

theorem initSystemProcess_added : Keeps Added initSystemProcess := by
  refine .bind .get fun s => .bind .get fun s => .bind (procs_ofTasking.alloc _ _) fun process => ?_
  refine .bind (procs_ofTasking.modify _ _) fun _ => .bind (tasks_ofTasking.modify _ _) fun _ => ?_
  refine .bind (fun s x t h => ?_) fun _ s x t h => ?_ <;> cases h
  · exact .of_bare rfl fun _ hb => ⟨hb.1, hb.2, hb.3, hb.4⟩
  · exact .of_bare rfl fun _ hb => ⟨hb.1, hb.2, hb.3, hb.4⟩

theorem initIdleProcess_added : Keeps Added initIdleProcess := by
  refine .bind .get fun s => .bind (procs_ofTasking.alloc _ _) fun process => ?_
  refine .bind (procs_ofTasking.modify _ _) fun _ => .bind (kzalloc_added _) fun stack => ?_
  refine .bind (procs_ofTasking.modify _ _) fun _ => .bind .get fun s => .bind .get fun s => ?_
  refine .bind (taskNew_added _ _ _ _) fun task => .bind (procs_ofTasking.modify _ _) fun _ => ?_
  refine .bind (fun s x t h => ?_) fun _ => processListInsert_added _
  cases h
  exact .of_bare rfl fun _ hb => ⟨hb.1, hb.2, hb.3, hb.4⟩

theorem taskingInit_added : Keeps Added taskingInit :=
  .bind initSystemProcess_added fun _ => initIdleProcess_added

end

end AvocadOS
