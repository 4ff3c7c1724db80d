import AvocadOS.Kernel.Paging
import AvocadOS.Lib.Does
import Mathlib.Data.List.Perm.Basic

/-!
# What a call owns

A call allocates blocks and frees them again. `Grown s u own`: on the way from `s` to `u` the call
has allocated the blocks `own` and holds them; the blocks and objects of `s` are as before. What is
said about an object of the call survives what the call does elsewhere (`Elsewhere`).

* `Grown.alloc_cases`, `Grown.modify`, `Grown.free`: the three operations on what the call owns;
* `Grown.trans`: a call that makes a call.
-/

namespace AvocadOS

namespace Kernel

/-- The objects at one address. -/
structure Cell where
  table : Option (Nat → Word)
  handle : Option PageDirectoryHandle
  task : Option Task
  proc : Option Process
  file : Option File
  root : Option PathRoot
  part : Option PathPart
  string : Option (List Byte)
  item : Option FatItem
  descriptor : Option FatDescriptor

/-- No object. -/
def Cell.empty : Cell := ⟨none, none, none, none, none, none, none, none, none, none⟩

def cell (s : Kernel) (a : Word) : Cell :=
  ⟨s.tables a, s.handles a, s.tasks a, s.procs a, s.files a, s.roots a, s.parts a, s.strings a,
    s.items a, s.descriptors a⟩

/-- The state without its objects, its blocks and the position of the disk stream. -/
def still (s : Kernel) : Kernel :=
  { Kernel.blank s.image s.answers (fun _ => none) (fun _ => none) with
    raw := s.raw
    currentTask := s.currentTask
    currentProcess := s.currentProcess
    currentDirectory := s.currentDirectory
    processes := s.processes
    fileTable := s.fileTable
    cr3 := s.cr3
    cr4 := s.cr4
    tssEsp0 := s.tssEsp0
    fsPrivate := s.fsPrivate
    dev := ⟨s.dev.disk, 0, []⟩ }

/-- An address with no block and no object. -/
def New (s : Kernel) (a : Word) : Prop := s.vacant a = true ∧ ∀ b ∈ s.blocks, b.ptr ≠ a

theorem vacant_congr {s t : Kernel} {a : Word} (h : t.cell a = s.cell a) :
    t.vacant a = s.vacant a := by
  simp only [cell, Cell.mk.injEq] at h
  obtain ⟨h₁, h₂, h₃, h₄, h₅, h₆, h₇, h₈, h₉, h₁₀⟩ := h
  simp only [vacant, h₁, h₂, h₃, h₄, h₅, h₆, h₇, h₈, h₉, h₁₀]

end Kernel

open Kernel

theorem sizeToNblocks_pos {size : Nat} (h : 0 < size) : 0 < sizeToNblocks size := by
  unfold sizeToNblocks KERNEL_HEAP_BLOCK_SIZE
  split <;> omega

/-- The objects at the other addresses are as before. -/
def Elsewhere (p : Word) (u t : Kernel) : Prop := ∀ a, a ≠ p → t.cell a = u.cell a

/-- The operations of a store change one object. -/
structure Store.Local {α : Type} (st : Store α) : Prop where
  get_put : ∀ u m, st.get (st.put u m) = m
  cell_put : ∀ u p x, Elsewhere p u (st.put u (Function.update (st.get u) p x))
  blocks_put : ∀ u m, (st.put u m).blocks = u.blocks
  still_put : ∀ u m, (st.put u m).still = u.still
  requests_put : ∀ u m, (st.put u m).requests = u.requests
  get_congr : ∀ {u t : Kernel} {a}, t.cell a = u.cell a → st.get t a = st.get u a
  occupied : ∀ {u : Kernel} {a x}, st.get u a = some x → u.vacant a = false

theorem files_local : files.Local :=
  ⟨fun _ _ => rfl, fun u p x a ha => by simp [files, cell, Function.update_of_ne ha],
    fun _ _ => rfl, fun _ _ => rfl, fun _ _ => rfl, congrArg Cell.file,
    fun h => by simp only [files] at h; simp [vacant, h]⟩

theorem roots_local : roots.Local :=
  ⟨fun _ _ => rfl, fun u p x a ha => by simp [roots, cell, Function.update_of_ne ha],
    fun _ _ => rfl, fun _ _ => rfl, fun _ _ => rfl, congrArg Cell.root,
    fun h => by simp only [roots] at h; simp [vacant, h]⟩

theorem parts_local : parts.Local :=
  ⟨fun _ _ => rfl, fun u p x a ha => by simp [parts, cell, Function.update_of_ne ha],
    fun _ _ => rfl, fun _ _ => rfl, fun _ _ => rfl, congrArg Cell.part,
    fun h => by simp only [parts] at h; simp [vacant, h]⟩

theorem strings_local : strings.Local :=
  ⟨fun _ _ => rfl, fun u p x a ha => by simp [strings, cell, Function.update_of_ne ha],
    fun _ _ => rfl, fun _ _ => rfl, fun _ _ => rfl, congrArg Cell.string,
    fun h => by simp only [strings] at h; simp [vacant, h]⟩

theorem items_local : items.Local :=
  ⟨fun _ _ => rfl, fun u p x a ha => by simp [items, cell, Function.update_of_ne ha],
    fun _ _ => rfl, fun _ _ => rfl, fun _ _ => rfl, congrArg Cell.item,
    fun h => by simp only [items] at h; simp [vacant, h]⟩

theorem descriptors_local : descriptors.Local :=
  ⟨fun _ _ => rfl, fun u p x a ha => by simp [descriptors, cell, Function.update_of_ne ha],
    fun _ _ => rfl, fun _ _ => rfl, fun _ _ => rfl, congrArg Cell.descriptor,
    fun h => by simp only [descriptors] at h; simp [vacant, h]⟩

/-- No object is at a new address. -/
theorem Kernel.New.ne {α : Type} {st : Store α} {s : Kernel} {a p : Word} {x : α} (h : s.New p)
    (hl : st.Local) (hx : st.get s a = some x) : a ≠ p := by
  rintro rfl
  have hvacant := h.1
  rw [hl.occupied hx] at hvacant
  exact Bool.noConfusion hvacant

/-- A write through NULL. -/
theorem Store.modify_null {α : Type} {st : Store α} {E : Fault → Prop} {u : Kernel}
    {Q : Unit → Kernel → Prop} (hE : E .nullDeref) (f : α → α) : Does E (st.modify 0 f) u Q :=
  .inl ⟨.nullDeref, if_pos rfl, hE⟩

/-- From `s` to `u` the blocks `own` were allocated and not freed; the rest of the heap is as
before. -/
structure Grown (s u : Kernel) (own : List Block) : Prop where
  blocks : u.blocks.Perm (own ++ s.blocks)
  sizes : ∀ b ∈ own ++ s.blocks, 0 < b.size
  fresh : ∀ b ∈ own, s.New b.ptr
  nodup : (own.map Block.ptr).Nodup
  cells : ∀ a, ¬ s.New a → u.cell a = s.cell a
  still : u.still = s.still

namespace Grown

variable {s t u : Kernel} {own own' : List Block} {a p : Word} {size : Nat} {α : Type}

theorem refl (hsizes : ∀ b ∈ s.blocks, 0 < b.size) : Grown s s [] :=
  ⟨.refl _, hsizes, by simp, .nil, fun _ _ => rfl, rfl⟩

theorem mem_blocks (h : Grown s u own) {b : Block} : b ∈ u.blocks ↔ b ∈ own ∨ b ∈ s.blocks := by
  rw [h.blocks.mem_iff, List.mem_append]

/-- What is new later on was new before. -/
theorem new_of_new (h : Grown s u own) (ha : u.New a) : s.New a := by
  by_contra hno
  refine hno ⟨?_, fun b hb => ha.2 b (h.mem_blocks.mpr (.inr hb))⟩
  rw [← vacant_congr (h.cells a hno)]
  exact ha.1

theorem trans (h : Grown s u own) (h' : Grown u t own') : Grown s t (own' ++ own) := by
  have hblocks : t.blocks.Perm (own' ++ own ++ s.blocks) := by
    rw [List.append_assoc]
    exact h'.blocks.trans (h.blocks.append_left own')
  refine ⟨hblocks, fun b hb => ?_, fun b hb => ?_, ?_, fun a ha => ?_, h'.still.trans h.still⟩
  · rw [List.append_assoc, List.mem_append] at hb
    refine hb.elim (fun hb => h'.sizes b (List.mem_append_left _ hb)) fun hb => h.sizes b hb
  · exact (List.mem_append.mp hb).elim (fun hb => h.new_of_new (h'.fresh b hb)) (h.fresh b)
  · rw [List.map_append, List.nodup_append]
    refine ⟨h'.nodup, h.nodup, fun x hx y hy => ?_⟩
    obtain ⟨b, hb, rfl⟩ := List.mem_map.mp hx
    obtain ⟨c, hc, rfl⟩ := List.mem_map.mp hy
    exact fun heq => (h'.fresh b hb).2 c (h.mem_blocks.mpr (.inl hc)) heq.symm
  · exact (h'.cells a fun hn => ha (h.new_of_new hn)).trans (h.cells a ha)

/-- The order of the blocks does not matter. -/
theorem perm (h : Grown s u own) (hp : own.Perm own') : Grown s u own' :=
  ⟨h.blocks.trans (hp.append_right _),
    fun b hb => h.sizes b ((hp.append_right _).mem_iff.mpr hb),
    fun b hb => h.fresh b (hp.mem_iff.mpr hb), (hp.map _).nodup_iff.mp h.nodup, h.cells, h.still⟩

/-- What the call owns was not there before. -/
theorem ne_of_mem (h : Grown s u own) {b : Block} (hb : b ∈ own) (ha : ¬ s.New a) : a ≠ b.ptr := by
  rintro rfl
  exact ha (h.fresh b hb)

/-- A change of one of the call's objects. -/
theorem of_elsewhere (h : Grown s u own) (hp : p ∈ own.map Block.ptr) (hb : t.blocks = u.blocks)
    (hs : t.still = u.still) (he : Elsewhere p u t) : Grown s t own := by
  obtain ⟨b, hmem, rfl⟩ := List.mem_map.mp hp
  refine ⟨hb ▸ h.blocks, h.sizes, h.fresh, h.nodup, fun a ha => ?_, hs.trans h.still⟩
  exact (he a (h.ne_of_mem hmem ha)).trans (h.cells a ha)

/-! ## The operations on what a call owns -/

variable {st : Store α} {x : α} {E : Fault → Prop}

theorem answers_eq (h : Grown s u own) : u.answers = s.answers :=
  show u.still.answers = _ by rw [h.still]; rfl

theorem fsPrivate_eq (h : Grown s u own) : u.fsPrivate = s.fsPrivate :=
  show u.still.fsPrivate = _ by rw [h.still]; rfl

theorem image_eq (h : Grown s u own) : u.image = s.image :=
  show u.still.image = _ by rw [h.still]; rfl

theorem fileTable_eq (h : Grown s u own) : u.fileTable = s.fileTable :=
  show u.still.fileTable = _ by rw [h.still]; rfl

theorem disk_eq (h : Grown s u own) : u.dev.disk = s.dev.disk :=
  show u.still.dev.disk = _ by rw [h.still]; rfl

theorem answers_ne (h : Grown s u own) (hans : ∀ n, s.answers n ≠ 0) (n : Nat) :
    u.answers n ≠ 0 := by
  rw [h.answers_eq]
  exact hans n

theorem sizes_pos (h : Grown s u own) {b : Block} (hb : b ∈ u.blocks) : 0 < b.size :=
  h.sizes b (h.blocks.mem_iff.mp hb)

/-- A fresh block is at a new address. -/
theorem new_of_fresh (h : Grown s u own) (hsize : 0 < size) (hf : u.Fresh a size) : u.New a := by
  refine ⟨hf.2.2.1, fun b hb heq => ?_⟩
  have h₁ := sizeToNblocks_pos hsize
  have h₂ := sizeToNblocks_pos (h.sizes_pos hb)
  have := hf.2.2.2 b hb
  rw [heq] at this
  unfold KERNEL_HEAP_BLOCK_SIZE at this
  omega

/-- An object is allocated, or the request is answered with NULL. Nothing is said if the allocator
breaks its promise. -/
theorem alloc_cases (hE : E .misallocated) (h : Grown s u own) (hl : st.Local) (hsize : 0 < size)
    (zero : α) : Does E (st.alloc size zero) u fun a t => t.requests = u.requests + 1 ∧
      ((a = 0 ∧ s.answers u.requests = 0 ∧ Grown s t own ∧ ∀ b, t.cell b = u.cell b) ∨
        (a ≠ 0 ∧ s.answers u.requests ≠ 0 ∧ u.New a ∧ Grown s t (⟨a, size⟩ :: own) ∧
          st.get t a = some zero ∧ Elsewhere a u t)) := by
  rw [← h.answers_eq]
  by_cases hnull : u.answers u.requests = 0
  · have hk : kzalloc size u = .ok (0, u.asked) := by
      simp only [kzalloc, hnull, or_true, if_true]
    refine .of_eq ((bind_eq hk).trans (by rw [if_pos rfl]; rfl)) ⟨rfl, .inl ⟨rfl, hnull, ?_, ?_⟩⟩
    · exact ⟨h.blocks, h.sizes, h.fresh, h.nodup, h.cells, h.still⟩
    · exact fun _ => rfl
  by_cases hf : u.Fresh (u.answers u.requests) size
  · have hk : kzalloc size u = .ok (u.answers u.requests,
        u.asked.withBlock (u.answers u.requests) size) := by
      simp only [kzalloc, Nat.ne_of_gt hsize, hnull, or_self, if_false, hf, if_true]
    have hne := hnull
    generalize u.answers u.requests = a at hnull hne hf hk
    have hnew := h.new_of_fresh hsize hf
    have hcell : (u.asked.withBlock a size).cell = u.cell := rfl
    refine .of_eq ((bind_eq hk).trans (by rw [if_neg hne]))
      ⟨hl.requests_put _ _, .inr ⟨hne, hnull, hnew, ?_, ?_, ?_⟩⟩
    · refine ⟨?_, ?_, ?_, ?_, fun b hb => ?_, ?_⟩
      · rw [hl.blocks_put]
        exact h.blocks.cons _
      · intro b hb
        rcases List.mem_cons.mp hb with rfl | hb
        · exact hsize
        · exact h.sizes b hb
      · intro b hb
        rcases List.mem_cons.mp hb with rfl | hb
        · exact h.new_of_new hnew
        · exact h.fresh b hb
      · refine List.nodup_cons.mpr ⟨fun hmem => ?_, h.nodup⟩
        obtain ⟨b, hb, heq⟩ := List.mem_map.mp hmem
        exact hnew.2 b (h.mem_blocks.mpr (.inl hb)) heq
      · have hba : b ≠ a := fun heq => hb (heq ▸ h.new_of_new hnew)
        exact (hl.cell_put _ a _ b hba).trans (h.cells b hb)
      · rw [hl.still_put]
        exact h.still
    · rw [hl.get_put, Function.update_self]
    · exact fun b hb => hl.cell_put _ a _ b hb
  · refine .inl ⟨.misallocated, ?_, hE⟩
    simp only [Store.alloc, Bind.bind, StateT.bind, Except.bind, kzalloc, Nat.ne_of_gt hsize, hnull,
      or_self, if_false, hf]

/-- An object of the call is written. -/
theorem modify (h : Grown s u own) (hl : st.Local) (hp : p ∈ own.map Block.ptr) (hne : p ≠ 0)
    (hx : st.get u p = some x) (f : α → α) : Does E (st.modify p f) u fun _ t =>
      Grown s t own ∧ st.get t p = some (f x) ∧ Elsewhere p u t ∧ t.requests = u.requests := by
  refine .of_eq (Store.modify_eq hne hx) ⟨?_, ?_, hl.cell_put _ _ _, hl.requests_put _ _⟩
  · exact h.of_elsewhere hp (hl.blocks_put _ _) (hl.still_put _ _) (hl.cell_put _ _ _)
  · rw [hl.get_put, Function.update_self]

/-- A block of the call is freed. -/
theorem free (h : Grown s u own) {b : Block} (hb : b ∈ own) :
    Does E (kfree b.ptr) u fun _ t =>
      Grown s t (own.filter (·.ptr ≠ b.ptr)) ∧ Elsewhere b.ptr u t := by
  have hnew := h.fresh b hb
  have hany : u.blocks.any (·.ptr == b.ptr) = true :=
    List.any_eq_true.mpr ⟨b, h.mem_blocks.mpr (.inl hb), by simp⟩
  have helse : Elsewhere b.ptr u
      { u.erase b.ptr with blocks := u.blocks.filter (·.ptr ≠ b.ptr) } := by
    intro a ha
    simp [cell, Kernel.erase, Function.update_of_ne ha]
  refine .of_eq (if_pos hany) ⟨⟨?_, ?_, ?_, ?_, fun a ha => ?_, h.still⟩, helse⟩
  · have hrest : s.blocks.filter (·.ptr ≠ b.ptr) = s.blocks :=
      List.filter_eq_self.mpr fun c hc => by simpa using hnew.2 c hc
    have := h.blocks.filter (·.ptr ≠ b.ptr)
    rwa [List.filter_append, hrest] at this
  · intro c hc
    refine h.sizes c ?_
    rw [List.mem_append] at hc ⊢
    exact hc.imp_left fun hc => (List.mem_filter.mp hc).1
  · exact fun c hc => h.fresh c (List.mem_filter.mp hc).1
  · exact h.nodup.sublist (List.filter_sublist.map _)
  · exact (helse a (h.ne_of_mem hb ha)).trans (h.cells a ha)

/-- The first block of a list with distinct addresses, and the others. -/
theorem filter_cons (h : Grown s u (⟨p, size⟩ :: own)) :
    (⟨p, size⟩ :: own : List Block).filter (·.ptr ≠ p) = own := by
  have hnodup := h.nodup
  rw [List.map_cons, List.nodup_cons] at hnodup
  rw [List.filter_cons_of_neg (by simp), List.filter_eq_self]
  intro b hb
  simp only [decide_eq_true_eq]
  rintro rfl
  exact hnodup.1 (List.mem_map.mpr ⟨b, hb, rfl⟩)

/-- The first of the call's blocks is freed. -/
theorem free_head (h : Grown s u (⟨p, size⟩ :: own)) :
    Does E (kfree p) u fun _ t => Grown s t own ∧ Elsewhere p u t := by
  refine (h.free List.mem_cons_self).mono fun _ t ht => ?_
  rwa [h.filter_cons] at ht

/-- The second one is freed; the first one stays as it is. -/
theorem free_second {q : Word} {n m : Nat} (h : Grown s u (⟨p, n⟩ :: ⟨q, m⟩ :: own)) :
    Does E (kfree q) u fun _ t => Grown s t (⟨p, n⟩ :: own) ∧ t.cell p = u.cell p := by
  have hne : p ≠ q := by
    have hnodup := h.nodup
    rw [List.map_cons, List.nodup_cons] at hnodup
    exact fun heq => hnodup.1 (heq ▸ List.mem_cons_self)
  exact (h.perm (.swap _ _ _)).free_head.mono fun _ t ⟨ht, he⟩ => ⟨ht, he p hne⟩

/-! ## Objects of others -/

/-- An object that was there before the call. -/
theorem get (h : Grown s u own) (hl : st.Local) (hx : st.get s a = some x) :
    st.get u a = some x := by
  exact (hl.get_congr (h.cells a fun hnew => hnew.ne hl hx rfl)).trans hx

/-- The open files are no part of what is said. -/
theorem setFileTable (h : Grown s u own) (table : Nat → Word) :
    Grown { s with fileTable := table } { u with fileTable := table } own where
  blocks := h.blocks
  sizes := h.sizes
  fresh := h.fresh
  nodup := h.nodup
  cells := h.cells
  still := congrArg (fun k : Kernel => { k with fileTable := table }) h.still

/-- The disk stream moves. -/
theorem setDev (h : Grown s u own) {dev : DiskStream} (hd : dev.disk = s.dev.disk) :
    Grown s { u with dev := dev } own where
  blocks := h.blocks
  sizes := h.sizes
  fresh := h.fresh
  nodup := h.nodup
  cells := h.cells
  still := by
    have := congrArg (fun k : Kernel => { k with dev := ⟨dev.disk, 0, []⟩ }) h.still
    refine this.trans ?_
    rw [hd]
    rfl

end Grown

/-! ## Giving blocks back -/

namespace Kernel

/-- The blocks of the heap are nonempty and at different addresses. -/
structure HeapOk (s : Kernel) : Prop where
  sizes : ∀ b ∈ s.blocks, 0 < b.size
  nodup : (s.blocks.map Block.ptr).Nodup

/-- The state without the blocks `own` and their objects. -/
def without (s : Kernel) (own : List Block) : Kernel :=
  { own.foldl (fun s b => s.erase b.ptr) s with
    blocks := s.blocks.filter (·.ptr ∉ own.map Block.ptr) }

variable {s u : Kernel} {own rest : List Block} {a : Word}

theorem erase_cell (s : Kernel) (p a : Word) :
    (s.erase p).cell a = if a = p then Cell.empty
      else s.cell a := by
  split
  · rename_i h
    subst h
    simp [cell, erase, Cell.empty]
  · rename_i h
    simp [cell, erase, Function.update_of_ne h]

theorem foldl_erase_cell (own : List Block) (s : Kernel) (a : Word) :
    (own.foldl (fun s b => s.erase b.ptr) s).cell a =
      if a ∈ own.map Block.ptr then Cell.empty
      else s.cell a := by
  induction own generalizing s with
  | nil => simp
  | cons b own ih =>
    rw [List.foldl_cons, ih, erase_cell]
    by_cases h : a ∈ own.map Block.ptr
    · simp only [h, if_true, List.map_cons, List.mem_cons, or_true]
    · simp only [h, if_false, List.map_cons, List.mem_cons, or_false]

theorem foldl_erase_still (own : List Block) (s : Kernel) :
    (own.foldl (fun s b => s.erase b.ptr) s).still = s.still := by
  induction own generalizing s with
  | nil => rfl
  | cons b own ih => exact (ih _).trans rfl

theorem without_cell (s : Kernel) (own : List Block) (a : Word) :
    (s.without own).cell a =
      if a ∈ own.map Block.ptr then Cell.empty
      else s.cell a :=
  foldl_erase_cell own s a

theorem vacant_of_empty (h : s.cell a = Cell.empty) : s.vacant a = true :=
  vacant_congr (s := Kernel.blank s.image s.answers (fun _ => none) fun _ => none) h

/-- The addresses of the blocks that are taken out are free. -/
theorem without_new {b : Block} (hb : b ∈ own) : (s.without own).New b.ptr := by
  have hmem : b.ptr ∈ own.map Block.ptr := List.mem_map_of_mem hb
  refine ⟨vacant_of_empty ((s.without_cell own b.ptr).trans (if_pos hmem)), fun c hc heq => ?_⟩
  have hno := (List.mem_filter.mp hc).2
  rw [heq, decide_eq_true_eq] at hno
  exact hno hmem

/-- Whoever holds the blocks `own` has allocated them on top of the rest. -/
theorem HeapOk.grown_without (h : s.HeapOk) (hblocks : s.blocks.Perm (own ++ rest)) :
    Grown (s.without own) s own ∧ (s.without own).blocks.Perm rest := by
  have hnodup := (hblocks.map Block.ptr).nodup_iff.mp h.nodup
  rw [List.map_append, List.nodup_append] at hnodup
  obtain ⟨hown, -, hapart⟩ := hnodup
  have hrest : (s.without own).blocks.Perm rest := by
    have hfilter := hblocks.filter (·.ptr ∉ own.map Block.ptr)
    have hnone : own.filter (·.ptr ∉ own.map Block.ptr) = [] := by
      rw [List.filter_eq_nil_iff]
      intro b hb
      simpa using ⟨b, hb, rfl⟩
    have hall : rest.filter (·.ptr ∉ own.map Block.ptr) = rest := by
      rw [List.filter_eq_self]
      intro b hb
      simpa using fun c hc => hapart _ (List.mem_map_of_mem hc) _ (List.mem_map_of_mem hb)
    rwa [List.filter_append, hnone, hall, List.nil_append] at hfilter
  refine ⟨⟨hblocks.trans (hrest.symm.append_left own), ?_, fun b hb => without_new hb, hown, ?_, ?_⟩,
    hrest⟩
  · intro b hb
    refine h.sizes b (hblocks.mem_iff.mpr ?_)
    rwa [List.mem_append, hrest.mem_iff, ← List.mem_append] at hb
  · intro a ha
    rw [without_cell, if_neg]
    intro hmem
    obtain ⟨b, hb, rfl⟩ := List.mem_map.mp hmem
    exact ha (without_new hb)
  · exact (foldl_erase_still own s).symm

theorem HeapOk.without (h : s.HeapOk) (own : List Block) : (s.without own).HeapOk :=
  ⟨fun b hb => h.sizes b (List.mem_filter.mp hb).1, h.nodup.sublist (List.filter_sublist.map _)⟩

theorem HeapOk.grown (h : s.HeapOk) (hg : Grown s u own) : u.HeapOk := by
  refine ⟨fun b hb => hg.sizes_pos hb, (hg.blocks.map Block.ptr).nodup_iff.mpr ?_⟩
  rw [List.map_append, List.nodup_append]
  refine ⟨hg.nodup, h.nodup, fun a ha c hc heq => ?_⟩
  obtain ⟨b, hb, rfl⟩ := List.mem_map.mp ha
  obtain ⟨d, hd, rfl⟩ := List.mem_map.mp hc
  exact (hg.fresh b hb).2 d hd heq.symm

end Kernel

end AvocadOS
