import AvocadOS.Fs.Handles
import AvocadOS.Lib.Run
import Mathlib.Data.List.Nodup

/-!
# Sequences of `fopen` and `fclose`

`FileSession.Step`: one call, of `fopen` or of `fclose` on an open file. With every open file the
session notes the blocks that its `fopen` left on the heap.

* `Held.fopen`, `Held.fclose`: each call keeps the invariant;
* `FileSession.runs_table`: what holds after every sequence of calls whose lookups end.
-/

namespace AvocadOS

open Kernel

/-- An open file, with the blocks that its `fopen` left on the heap. -/
structure Opened where
  file : Word
  own : List Block

structure FileSession where
  kernel : Kernel
  opened : List Opened

inductive FileRequest where
  | fopen (filename mode : List Byte)
  | fclose (stream : Word)

namespace FileSession

def files (s : FileSession) : List Word := s.opened.map Opened.file

/-- One call: `fopen` returns the same with enough fuel, and `fclose` is called on open files. -/
def Step (s : FileSession) : FileRequest → FileSession → Prop
  | .fopen filename mode, t => ∃ N r k,
      (∀ fuel ≥ N, fopen fuel filename mode s.kernel = .ok (r, k)) ∧
      t = ⟨k, if r = 0 then s.opened
        else ⟨r, k.blocks.filter (· ∉ s.kernel.blocks)⟩ :: s.opened⟩
  | .fclose stream, t => stream ∈ s.files ∧ ∃ r k, fclose stream s.kernel = .ok (r, k) ∧
      t = ⟨k, s.opened.eraseP (·.file = stream)⟩

end FileSession

/-- The components are within 8.3. -/
def FileRequest.Within : FileRequest → Prop
  | .fopen filename _ => ∀ name ∈ partsOf filename, Fits name
  | .fclose _ => True

/-- A path that is looked up names drive 0, and its lookup ends. -/
def FileRequest.Ends (disk : Disk) (p : FatPrivate) : FileRequest → Prop
  | .fopen filename mode => Openable disk p filename mode
  | .fclose _ => True

/-- Drive 0 is mounted, and allocations succeed. -/
structure Ready (disk : Disk) (p : FatPrivate) (s : Kernel) : Prop where
  answers : ∀ n, s.answers n ≠ 0
  mounted : s.fsPrivate = some p
  disk_eq : s.dev.disk = disk
  disk_ne : s.image.disk ≠ 0

/-! ## What holds after every sequence -/

/-- The open files are in their slots and own their blocks. -/
structure TableOk (base : Kernel) (s : FileSession) : Prop where
  slot : ∀ f ∈ s.files, ∃ x, s.kernel.files f = some x ∧ 0 ≤ x.fileno ∧
    x.fileno < MAX_OPEN_FILES ∧ s.kernel.fileTable x.fileno.toNat = f
  distinct : s.files.Pairwise fun f g => ∀ x y, s.kernel.files f = some x →
    s.kernel.files g = some y → x.fileno ≠ y.fileno
  others : ∀ i < MAX_OPEN_FILES, (∀ f ∈ s.files, ∀ x, s.kernel.files f = some x → x.fileno ≠ i) →
    s.kernel.fileTable i = 0
  blocks : s.kernel.blocks.Perm (s.opened.flatMap Opened.own ++ base.blocks)

/-- The next call returns: `fopen` with NULL if the table is full, and `fclose` with success. -/
def FileSession.Responds (s : FileSession) : FileRequest → Prop
  | .fopen filename mode => ∃ N, (∀ fuel ≥ N,
      fopen fuel filename mode s.kernel = .error .misallocated) ∨ ∃ r k,
      (∀ fuel ≥ N, fopen fuel filename mode s.kernel = .ok (r, k)) ∧
      (MAX_OPEN_FILES ≤ s.opened.length → r = 0)
  | .fclose stream => stream ∈ s.files → ∃ k, fclose stream s.kernel = .ok (0, k)

/-! ## The invariant -/

/-- What `fopen` and `fclose` leave as it is: what `kzalloc` answers, and the disk. -/
structure SameDisk (s t : Kernel) : Prop where
  answers : t.answers = s.answers
  fsPrivate : t.fsPrivate = s.fsPrivate
  dev : t.dev.disk = s.dev.disk
  image : t.image = s.image

theorem SameDisk.refl (s : Kernel) : SameDisk s s := ⟨rfl, rfl, rfl, rfl⟩

theorem SameDisk.trans {s t u : Kernel} (h : SameDisk s t) (h' : SameDisk t u) : SameDisk s u :=
  ⟨h'.1.trans h.1, h'.2.trans h.2, h'.3.trans h.3, h'.4.trans h.4⟩

theorem SameDisk.grown {s u : Kernel} {own : List Block} (hg : Grown s u own) : SameDisk s u :=
  ⟨hg.answers_eq, hg.fsPrivate_eq, hg.disk_eq, hg.image_eq⟩

theorem SameDisk.ready {disk : Disk} {p : FatPrivate} {s t : Kernel} (h : SameDisk s t)
    (hs : Ready disk p s) : Ready disk p t :=
  ⟨by rw [h.answers]; exact hs.answers, h.fsPrivate.trans hs.mounted, h.dev.trans hs.disk_eq,
    by rw [h.image]; exact hs.disk_ne⟩

/-- `handle` tells how the open files lie in memory. -/
structure Held (base : Kernel) (s : FileSession) (handle : Word → Handle) : Prop where
  disk_ne : s.kernel.image.disk ≠ 0
  mounted : s.opened ≠ [] → s.kernel.fsPrivate ≠ none
  heap : s.kernel.HeapOk
  file : ∀ o ∈ s.opened, (handle o.file).file = o.file
  own : ∀ o ∈ s.opened, o.own.Perm (handle o.file).blocks
  inMemory : ∀ o ∈ s.opened, HandleAt s.kernel (handle o.file)
  slot : ∀ o ∈ s.opened, (handle o.file).fileno < MAX_OPEN_FILES ∧
    s.kernel.fileTable (handle o.file).fileno = o.file
  nodup : s.files.Nodup
  others : ∀ i < MAX_OPEN_FILES, s.kernel.fileTable i ≠ 0 →
    ∃ o ∈ s.opened, (handle o.file).fileno = i
  blocks : s.kernel.blocks.Perm (s.opened.flatMap Opened.own ++ base.blocks)

namespace Held

variable {base : Kernel} {s : FileSession} {handle : Word → Handle}

/-- The file behind a handle. -/
theorem fileAt (h : Held base s handle) {o : Opened} (ho : o ∈ s.opened) :
    s.kernel.files o.file = some ⟨s.kernel.image.disk, (handle o.file).root,
      (handle o.file).descriptor, (handle o.file).fileno⟩ := by
  have hfile := (h.inMemory o ho).file
  rwa [h.file o ho] at hfile

theorem fileno_inj (h : Held base s handle) {o o' : Opened} (ho : o ∈ s.opened)
    (ho' : o' ∈ s.opened) (heq : (handle o.file).fileno = (handle o'.file).fileno) :
    o.file = o'.file := by
  rw [← (h.slot o ho).2, heq, (h.slot o' ho').2]

theorem tableOk (h : Held base s handle) : TableOk base s where
  slot := by
    intro f hf
    obtain ⟨o, ho, rfl⟩ := List.mem_map.mp hf
    obtain ⟨hlt, hslot⟩ := h.slot o ho
    refine ⟨_, h.fileAt ho, Int.natCast_nonneg _, ?_, ?_⟩
    · exact Int.ofNat_lt.mpr hlt
    · rw [Int.toNat_natCast]
      exact hslot
  distinct := by
    refine h.nodup.imp_of_mem fun {f g} hf hg hne x y hx hy heq => hne ?_
    obtain ⟨o, ho, rfl⟩ := List.mem_map.mp hf
    obtain ⟨o', ho', rfl⟩ := List.mem_map.mp hg
    cases (h.fileAt ho).symm.trans hx
    cases (h.fileAt ho').symm.trans hy
    exact h.fileno_inj ho ho' (Int.ofNat_inj.mp heq)
  others := by
    intro i hi hno
    by_contra hne
    obtain ⟨o, ho, rfl⟩ := h.others i hi hne
    exact hno o.file (List.mem_map_of_mem ho) _ (h.fileAt ho) rfl
  blocks := h.blocks

/-- With as many open files as slots, no slot is free. -/
theorem full (h : Held base s handle) (hlen : MAX_OPEN_FILES ≤ s.opened.length) :
    findFreeSlot s.kernel.fileTable MAX_OPEN_FILES 0 = none := by
  cases hfind : findFreeSlot s.kernel.fileTable MAX_OPEN_FILES 0 with
  | none => rfl
  | some i =>
    obtain ⟨-, hlt, hzero⟩ := findFreeSlot_some hfind
    have hnodup : (s.opened.map fun o => (handle o.file).fileno).Nodup := by
      refine List.Nodup.map_on (fun o ho o' ho' heq => ?_) (List.Nodup.of_map _ h.nodup)
      exact List.inj_on_of_nodup_map h.nodup ho ho' (h.fileno_inj ho ho' heq)
    have hnot : i ∉ s.opened.map fun o => (handle o.file).fileno := by
      intro hmem
      obtain ⟨o, ho, rfl⟩ := List.mem_map.mp hmem
      rw [(h.slot o ho).2, ← h.file o ho] at hzero
      exact (h.inMemory o ho).file_ne hzero
    have hsub : (i :: s.opened.map fun o => (handle o.file).fileno) ⊆ List.range MAX_OPEN_FILES := by
      intro j hj
      rw [List.mem_range]
      rcases List.mem_cons.mp hj with rfl | hj
      · omega
      · obtain ⟨o, ho, rfl⟩ := List.mem_map.mp hj
        exact (h.slot o ho).1
    have hle := (List.subperm_of_subset (List.nodup_cons.mpr ⟨hnot, hnodup⟩) hsub).length_le
    rw [List.length_cons, List.length_map, List.length_range] at hle
    omega

/-- A call that leaves nothing behind, such as an `fopen` that returns NULL. -/
theorem grown (h : Held base s handle) {k : Kernel} (hg : Grown s.kernel k []) :
    Held base ⟨k, s.opened⟩ handle where
  disk_ne := by
    rw [hg.image_eq]
    exact h.disk_ne
  mounted hne := by
    rw [hg.fsPrivate_eq]
    exact h.mounted hne
  heap := h.heap.grown hg
  file := h.file
  own := h.own
  inMemory o ho := (h.inMemory o ho).grown hg
  slot := by
    rw [hg.fileTable_eq]
    exact h.slot
  nodup := h.nodup
  others := by
    rw [hg.fileTable_eq]
    exact h.others
  blocks := hg.blocks.trans h.blocks

/-- `fopen` returns a handle. -/
theorem fopen_handle (h : Held base s handle) {new : Handle} {t : Kernel}
    (hmounted : s.kernel.fsPrivate ≠ none)
    (hfree : findFreeSlot s.kernel.fileTable MAX_OPEN_FILES 0 = some new.fileno)
    (hat : HandleAt t new) (hg : Grown s.kernel t new.blocks) :
    Held base
      ⟨{ t with fileTable := Function.update s.kernel.fileTable new.fileno new.file },
        ⟨new.file, t.blocks.filter (· ∉ s.kernel.blocks)⟩ :: s.opened⟩
      (Function.update handle new.file new) := by
  obtain ⟨-, hlt, hzero⟩ := findFreeSlot_some hfree
  have hnew : s.kernel.New new.file := hg.fresh ⟨new.file, fileSize⟩ (by simp [Handle.blocks])
  -- the new file is none of the others, and neither is its slot
  have hne : ∀ o ∈ s.opened, o.file ≠ new.file := fun o ho => hnew.ne files_local (h.fileAt ho)
  have hhandle : ∀ o ∈ s.opened, Function.update handle new.file new o.file = handle o.file :=
    fun o ho => Function.update_of_ne (hne o ho) _ _
  have hslot : ∀ o ∈ s.opened, (handle o.file).fileno ≠ new.fileno := by
    intro o ho heq
    have htable := (h.slot o ho).2
    rw [heq, hzero, ← h.file o ho] at htable
    exact (h.inMemory o ho).file_ne htable.symm
  have hown : (t.blocks.filter (· ∉ s.kernel.blocks)).Perm new.blocks := by
    have hfilter := hg.blocks.filter (· ∉ s.kernel.blocks)
    have hall : new.blocks.filter (· ∉ s.kernel.blocks) = new.blocks := by
      rw [List.filter_eq_self]
      intro b hb
      simpa using fun hmem => (hg.fresh b hb).2 b hmem rfl
    have hnone : s.kernel.blocks.filter (· ∉ s.kernel.blocks) = [] := by
      rw [List.filter_eq_nil_iff]
      exact fun b hb => by simpa using hb
    rwa [List.filter_append, hall, hnone, List.append_nil] at hfilter
  have hcongr : ∀ {g : Handle}, HandleAt t g → HandleAt
      { t with fileTable := Function.update s.kernel.fileTable new.fileno new.file } g :=
    fun hg => hg.congr rfl fun _ _ => rfl
  have hdisk := SameDisk.grown hg
  have hheap := h.heap.grown hg
  refine ⟨?_, fun _ => ?_, ⟨hheap.1, hheap.2⟩, ?_, ?_, ?_, ?_, ?_, ?_, ?_⟩
  · dsimp only
    rw [hdisk.image]
    exact h.disk_ne
  · dsimp only
    rw [hdisk.fsPrivate]
    exact hmounted
  · intro o ho
    rcases List.mem_cons.mp ho with rfl | ho
    · rw [Function.update_self]
    · rw [hhandle o ho]
      exact h.file o ho
  · intro o ho
    rcases List.mem_cons.mp ho with rfl | ho
    · rw [Function.update_self]
      exact hown
    · rw [hhandle o ho]
      exact h.own o ho
  · intro o ho
    rcases List.mem_cons.mp ho with rfl | ho
    · rw [Function.update_self]
      exact hcongr hat
    · rw [hhandle o ho]
      exact hcongr ((h.inMemory o ho).grown hg)
  · intro o ho
    rcases List.mem_cons.mp ho with rfl | ho
    · simp only [Function.update_self]
      exact ⟨by omega, trivial⟩
    · rw [hhandle o ho]
      refine ⟨(h.slot o ho).1, ?_⟩
      dsimp only
      rw [Function.update_of_ne (hslot o ho)]
      exact (h.slot o ho).2
  · refine List.nodup_cons.mpr ⟨fun hmem => ?_, h.nodup⟩
    obtain ⟨o, ho, heq⟩ := List.mem_map.mp hmem
    exact hne o ho heq
  · intro i hi hused
    by_cases hi' : i = new.fileno
    · exact ⟨_, List.mem_cons_self, by rw [Function.update_self, hi']⟩
    · dsimp only at hused
      rw [Function.update_of_ne hi'] at hused
      obtain ⟨o, ho, heq⟩ := h.others i hi hused
      exact ⟨o, List.mem_cons_of_mem _ ho, by rw [hhandle o ho, heq]⟩
  · refine hg.blocks.trans ?_
    rw [List.flatMap_cons, List.append_assoc]
    exact hown.symm.append h.blocks

/-- The session without one of its open files. -/
theorem closed (h : Held base s handle) {o : Opened} {l₁ l₂ : List Opened}
    (heq : s.opened = l₁ ++ o :: l₂) :
    s.kernel.blocks.Perm ((handle o.file).blocks ++ ((l₁ ++ l₂).flatMap Opened.own ++ base.blocks)) ∧
      SameDisk s.kernel (s.kernel.closed (handle o.file)) ∧
      (∀ o' ∈ l₁ ++ l₂, ∀ b ∈ (handle o'.file).blocks,
        (s.kernel.closed (handle o.file)).cell b.ptr = s.kernel.cell b.ptr) ∧
      Held base ⟨s.kernel.closed (handle o.file), l₁ ++ l₂⟩ handle := by
  have ho : o ∈ s.opened := by simp [heq]
  have hsub : ∀ o' ∈ l₁ ++ l₂, o' ∈ s.opened := fun o' ho' => by
    rw [heq, List.mem_append, List.mem_cons]
    exact (List.mem_append.mp ho').imp id .inr
  have hblocks : s.kernel.blocks.Perm
      ((handle o.file).blocks ++ ((l₁ ++ l₂).flatMap Opened.own ++ base.blocks)) := by
    refine h.blocks.trans ?_
    have hmiddle : (l₁ ++ o :: l₂).Perm (o :: (l₁ ++ l₂)) := List.perm_middle
    have hflat := hmiddle.flatMap_right Opened.own
    rw [← heq, List.flatMap_cons] at hflat
    rw [← List.append_assoc]
    exact (hflat.trans ((h.own o ho).append_right _)).append_right _
  obtain ⟨hg, hrest⟩ := h.heap.grown_without hblocks
  have hheap := h.heap.without (handle o.file).blocks
  -- the other files are at other addresses and in other slots
  have hne : ∀ o' ∈ l₁ ++ l₂, o'.file ≠ o.file := by
    have hnodup := h.nodup
    rw [FileSession.files, heq, List.map_append, List.map_cons, List.nodup_middle,
      ← List.map_append, List.nodup_cons] at hnodup
    exact fun o' ho' hfile => hnodup.1 (hfile ▸ List.mem_map_of_mem ho')
  have hslot : ∀ o' ∈ l₁ ++ l₂, (handle o'.file).fileno ≠ (handle o.file).fileno :=
    fun o' ho' hno => hne o' ho' (h.fileno_inj (hsub o' ho') ho hno)
  have hcells : ∀ o' ∈ l₁ ++ l₂, ∀ b ∈ (handle o'.file).blocks,
      (s.kernel.closed (handle o.file)).cell b.ptr = s.kernel.cell b.ptr := by
    intro o' ho' b hb
    refine (s.kernel.without_cell _ _).trans (if_neg fun hmem => ?_)
    have hnodup := (hblocks.map Block.ptr).nodup_iff.mp h.heap.nodup
    rw [List.map_append, List.nodup_append] at hnodup
    refine hnodup.2.2 _ hmem _ (List.mem_map_of_mem (List.mem_append_left _ ?_)) rfl
    exact List.mem_flatMap.mpr ⟨o', ho', (h.own o' (hsub o' ho')).mem_iff.mpr hb⟩
  have hdisk : SameDisk s.kernel (s.kernel.closed (handle o.file)) :=
    ⟨hg.answers_eq.symm, hg.fsPrivate_eq.symm, hg.disk_eq.symm, hg.image_eq.symm⟩
  refine ⟨hblocks, hdisk, hcells, {
    disk_ne := ?_
    mounted := fun _ => ?_
    heap := ⟨hheap.1, hheap.2⟩
    file := fun o' ho' => h.file o' (hsub o' ho')
    own := fun o' ho' => h.own o' (hsub o' ho')
    inMemory := fun o' ho' => (h.inMemory o' (hsub o' ho')).congr hg.image_eq.symm (hcells o' ho')
    slot := ?_
    nodup := ?_
    others := ?_
    blocks := hrest }⟩
  · dsimp only
    rw [hdisk.image]
    exact h.disk_ne
  · dsimp only
    rw [hdisk.fsPrivate]
    exact h.mounted (List.ne_nil_of_mem ho)
  · intro o' ho'
    refine ⟨(h.slot o' (hsub o' ho')).1, ?_⟩
    exact (Function.update_of_ne (hslot o' ho') _ _).trans (h.slot o' (hsub o' ho')).2
  · have hsublist : (l₁ ++ l₂).Sublist s.opened := by
      rw [heq]
      exact (List.sublist_cons_self o l₂).append_left l₁
    exact h.nodup.sublist (hsublist.map _)
  · intro i hi hused
    have hi' : i ≠ (handle o.file).fileno := by
      rintro rfl
      exact hused (Function.update_self _ _ _)
    obtain ⟨o', ho', hno⟩ := h.others i hi fun hzero =>
      hused ((Function.update_of_ne hi' _ _).trans hzero)
    refine ⟨o', ?_, hno⟩
    rw [heq, List.mem_append, List.mem_cons] at ho'
    rcases ho' with ho' | rfl | ho'
    · exact List.mem_append_left _ ho'
    · exact absurd hno.symm hi'
    · exact List.mem_append_right _ ho'

/-- The blocks of an open file are on the heap. -/
theorem not_new (h : Held base s handle) {o : Opened} (ho : o ∈ s.opened) {b : Block}
    (hb : b ∈ (handle o.file).blocks) : ¬ s.kernel.New b.ptr := by
  refine fun hnew => hnew.2 b (h.blocks.mem_iff.mpr (List.mem_append_left _ ?_)) rfl
  exact List.mem_flatMap.mpr ⟨o, ho, (h.own o ho).mem_iff.mpr hb⟩

/-- `fclose` of an open file: the others stay as they are. -/
theorem fclose (h : Held base s handle) {stream : Word} (hmem : stream ∈ s.files) :
    ∃ k, AvocadOS.fclose stream s.kernel = .ok (0, k) ∧ SameDisk s.kernel k ∧
      Held base ⟨k, s.opened.eraseP (·.file = stream)⟩ handle ∧
      ∀ o ∈ s.opened.eraseP (·.file = stream), ∀ b ∈ (handle o.file).blocks,
        k.cell b.ptr = s.kernel.cell b.ptr := by
  obtain ⟨o, ho, rfl⟩ := List.mem_map.mp hmem
  obtain ⟨a, l₁, l₂, -, ha, heq, hrest⟩ := List.exists_of_eraseP
    (p := fun x : Opened => decide (x.file = o.file)) ho (by simp)
  have hao : a.file = o.file := by simpa using ha
  rw [hrest, ← hao]
  obtain ⟨hblocks, hdisk, hcells, hclosed⟩ := h.closed heq
  have hmem : a ∈ s.opened := by simp [heq]
  obtain ⟨p, hp⟩ := Option.ne_none_iff_exists'.mp (h.mounted (List.ne_nil_of_mem hmem))
  obtain ⟨hno, hslot⟩ := h.slot a hmem
  have hdoes := fclose_does (E := fun _ => False) h.heap hp h.disk_ne
    (h.inMemory a hmem) hno (by rw [hslot, h.file a hmem]) hblocks
  rw [h.file a hmem] at hdoes
  obtain ⟨_, _, hno⟩ | ⟨_, k, hrun, rfl, hg⟩ := hdoes
  · exact hno.elim
  · exact ⟨k, hrun, hdisk.trans (.grown hg), hclosed.grown hg, fun o' ho' b hb =>
      (hg.cells _ (hclosed.not_new ho' hb)).trans (hcells o' ho' b hb)⟩

/-- An `fopen` that returns. -/
theorem fopen (h : Held base s handle) {fuel : Nat} {filename mode : List Byte} {r : Word}
    {k : Kernel} (hrun : AvocadOS.fopen fuel filename mode s.kernel = .ok (r, k)) :
    (MAX_OPEN_FILES ≤ s.opened.length → r = 0) ∧ SameDisk s.kernel k ∧
      ∃ handle', Held base ⟨k, if r = 0 then s.opened
        else ⟨r, k.blocks.filter (· ∉ s.kernel.blocks)⟩ :: s.opened⟩ handle' := by
  have hdoes : Does (fun _ => True) (AvocadOS.fopen fuel filename mode) s.kernel _ :=
    fopen_does trivial h.heap.sizes h.disk_ne (fun _ => trivial) (fun _ => .inr trivial)
      fun _ _ _ _ => .inr fun _ => trivial
  rcases hdoes with ⟨e, herr, -⟩ | ⟨r', k', hrun', hspec⟩
  · rw [hrun] at herr
    cases herr
  rw [hrun] at hrun'
  cases hrun'
  rcases hspec with ⟨rfl, hg⟩ | ⟨new, t, rfl, hmounted, hfree, hat, hg, rfl⟩
  · exact ⟨fun _ => rfl, .grown hg, handle, h.grown hg⟩
  · have hdisk := SameDisk.grown hg
    refine ⟨fun hlen => ?_, ⟨hdisk.1, hdisk.2, hdisk.3, hdisk.4⟩, Function.update handle new.file new, ?_⟩
    · rw [h.full hlen] at hfree
      cases hfree
    · rw [if_neg hat.file_ne]
      exact h.fopen_handle hmounted hfree hat hg

/-- `fopen` of a path whose lookup ends. -/
theorem fopen_returns (h : Held base s handle) {disk : Disk} {p : FatPrivate} {ok : Nat → Bool}
    (hready : Ready disk p s.kernel) (hprobe : fat16Probe ok disk = .ok (.ok p))
    {filename mode : List Byte} (hopen : Openable disk p filename mode)
    (hfits : ∀ name ∈ partsOf filename, Fits name) :
    ∃ N, (∀ fuel ≥ N, AvocadOS.fopen fuel filename mode s.kernel = .error .misallocated) ∨
      ∃ r k, ∀ fuel ≥ N, AvocadOS.fopen fuel filename mode s.kernel = .ok (r, k) := by
  obtain ⟨N, hN⟩ := fopen_openable (E := (· = .misallocated)) rfl hprobe hopen hfits
  -- one run is enough: more fuel changes nothing
  have hmore : ∀ fuel ≥ N, Below .hang (AvocadOS.fopen N filename mode)
      (AvocadOS.fopen fuel filename mode) := fun fuel hle =>
    Below.le (fun n => below_fopen n filename mode) hle
  refine ⟨N, ?_⟩
  rcases hN N (Nat.le_refl N) h.heap.sizes hready.answers hready.mounted hready.disk_eq
    hready.disk_ne with ⟨_, hrun, rfl⟩ | ⟨r, k, hrun, -⟩
  · left
    intro fuel hle
    rw [hmore fuel hle s.kernel (by rw [hrun]; exact fun h => by cases h), hrun]
  · exact .inr ⟨r, k, fun fuel hle => (hmore fuel hle).ok hrun⟩

end Held

/-! ## Whole sequences -/

theorem inUse_of_perm {s t : Kernel} (h : s.blocks.Perm t.blocks) : s.inUse = t.inUse :=
  (h.map _).sum_nat

namespace FileSession

variable {disk : Disk} {p : FatPrivate} {ok : Nat → Bool} {base : Kernel}

/-- Each call keeps the invariant and the disk. -/
theorem Step.held {s t : FileSession} {r : FileRequest} (hstep : s.Step r t)
    (hs : ∃ handle, Held base s handle) :
    SameDisk s.kernel t.kernel ∧ ∃ handle, Held base t handle := by
  obtain ⟨handle, h⟩ := hs
  cases r with
  | fopen filename mode =>
    obtain ⟨N, r, k, hrun, rfl⟩ := hstep
    exact (h.fopen (hrun N (Nat.le_refl N))).2
  | fclose stream =>
    obtain ⟨hmem, r, k, hrun, rfl⟩ := hstep
    obtain ⟨k', hrun', hdisk, h', -⟩ := h.fclose hmem
    rw [hrun'] at hrun
    cases hrun
    exact ⟨hdisk, handle, h'⟩

/-- Without open files. -/
theorem held_empty (hdisk : base.image.disk ≠ 0) (hheap : base.HeapOk)
    (hempty : ∀ i < MAX_OPEN_FILES, base.fileTable i = 0) :
    Held base ⟨base, []⟩ fun _ => ⟨0, 0, [], 0, 0⟩ :=
  ⟨hdisk, by simp, hheap, by simp, by simp, by simp, by simp, .nil,
    fun i hi hused => absurd (hempty i hi) hused, .refl _⟩

/-- After every sequence of calls the invariant holds. -/
theorem runs_held (hdisk : base.image.disk ≠ 0) (hheap : base.HeapOk)
    (hempty : ∀ i < MAX_OPEN_FILES, base.fileTable i = 0) {requests : List FileRequest}
    {s : FileSession} (h : Runs Step ⟨base, []⟩ requests s) :
    SameDisk base s.kernel ∧ ∃ handle, Held base s handle := by
  have hstep : ∀ s r t, (SameDisk base s.kernel ∧ ∃ handle, Held base s handle) → Step s r t →
      SameDisk base t.kernel ∧ ∃ handle, Held base t handle := by
    rintro s r t ⟨hsame, hs⟩ hstep
    obtain ⟨hsame', ht⟩ := hstep.held hs
    exact ⟨hsame.trans hsame', ht⟩
  exact h.invariant hstep ⟨.refl base, _, held_empty hdisk hheap hempty⟩

/-- From a state without open files, after every sequence of calls whose lookups end: the open files
are in their slots and own their blocks, the next call returns, and nothing is left of the files
that were closed. -/
theorem runs_table (hprobe : fat16Probe ok disk = .ok (.ok p)) (hready : Ready disk p base)
    (hheap : base.HeapOk) (hempty : ∀ i < MAX_OPEN_FILES, base.fileTable i = 0)
    {requests : List FileRequest} {s : FileSession}
    (h : Runs (fun s r t => r.Within ∧ r.Ends disk p ∧ s.Step r t) ⟨base, []⟩ requests s) :
    TableOk base s ∧ (∀ r : FileRequest, r.Within → r.Ends disk p → s.Responds r) ∧
      (s.opened = [] → s.kernel.inUse = base.inUse) := by
  obtain ⟨hsame, handle, hheld⟩ := runs_held hready.disk_ne hheap hempty
    (h.mono fun _ _ _ hstep => hstep.2.2)
  have hready' := hsame.ready hready
  refine ⟨hheld.tableOk, fun r hfits hends => ?_, fun hnil => ?_⟩
  · cases r with
    | fopen filename mode =>
      obtain ⟨N, hN⟩ := hheld.fopen_returns hready' hprobe hends hfits
      refine ⟨N, hN.imp id ?_⟩
      rintro ⟨r, k, hrun⟩
      exact ⟨r, k, hrun, (hheld.fopen (hrun N (Nat.le_refl N))).1⟩
    | fclose stream =>
      intro hmem
      obtain ⟨k, hrun, -⟩ := hheld.fclose hmem
      exact ⟨k, hrun⟩
  · have hblocks := hheld.blocks
    rw [hnil] at hblocks
    exact inUse_of_perm hblocks

/-! A kernel on the volume of `fullDisk 1`, whose root directory has one file in each slot. -/

def fullKernel : Kernel :=
  { Kernel.blank ⟨0, 0, 0, 0xC0130000, 0, 0⟩
      (fun n => BitVec.ofNat 32 (0xC0200000 + 0x1000 * (n % 0x1000))) (fun _ => none)
      fun _ => none with
    fsPrivate := some (fullVolume 1)
    dev := ⟨fullDisk 1, 0, []⟩ }

theorem fullKernel_probe : fat16Probe (fun _ => true) (fullDisk 1) = .ok (.ok (fullVolume 1)) :=
  fat16Probe_accepts (by decide) (by decide) (by decide)

theorem fullKernel_ready : Ready (fullDisk 1) (fullVolume 1) fullKernel where
  answers n := by
    intro h
    have hnat : (0xC0200000 + 0x1000 * (n % 0x1000)) % 2 ^ 32 = 0 := congrArg BitVec.toNat h
    omega
  mounted := rfl
  disk_eq := rfl
  disk_ne := by decide

theorem fullKernel_heap : fullKernel.HeapOk := ⟨by simp [fullKernel, Kernel.blank], .nil⟩

/-- One `fopen` of the file in the first slot. -/
theorem fullKernel_step : ∃ k, Step ⟨fullKernel, []⟩ (.fopen (ascii "0:/AAAAAAAA.AAA") (ascii "r"))
    ⟨k, [⟨0xC0203000, k.blocks.filter (· ∉ fullKernel.blocks)⟩]⟩ := by
  have hfst : (fopen 10 (ascii "0:/AAAAAAAA.AAA") (ascii "r") fullKernel).toOption.map Prod.fst =
      some 0xC0203000 := by decide +kernel
  obtain ⟨⟨_, k⟩, hk, rfl⟩ := Option.map_eq_some_iff.mp hfst
  have hrun := ok_of_toOption hk
  exact ⟨k, 10, 0xC0203000, k, fun fuel hle =>
    (Below.le (fun n => below_fopen n _ _) hle).ok hrun, by rw [if_neg (by decide)]⟩

theorem runs_table_one_fopen : ∃ s : FileSession, s.files = [0xC0203000] ∧ TableOk fullKernel s := by
  have hopen : Openable (fullDisk 1) (fullVolume 1) (ascii "0:/AAAAAAAA.AAA") (ascii "r") := by
    refine fun _ _ _ => ⟨by decide, .inr ⟨?_, fun _ _ _ _ _ => trivial⟩⟩
    rw [ScanEnds, if_pos (by decide)]
    exact .inl (by decide)
  have hfits : ∀ name ∈ partsOf (ascii "0:/AAAAAAAA.AAA"), Fits name := by decide
  obtain ⟨k, hstep⟩ := fullKernel_step
  have hruns : Runs (fun s r t => r.Within ∧ r.Ends (fullDisk 1) (fullVolume 1) ∧ Step s r t)
      ⟨fullKernel, []⟩ [.fopen (ascii "0:/AAAAAAAA.AAA") (ascii "r")] _ :=
    .cons ⟨hfits, hopen, hstep⟩ (.nil _)
  exact ⟨_, rfl, (runs_table fullKernel_probe fullKernel_ready fullKernel_heap (fun _ _ => rfl)
    hruns).1⟩

/-- A path on drive 1: the fault does not depend on the fuel. -/
theorem fopen_drive_one (fuel : Nat) :
    fopen fuel (ascii "1:/A") (ascii "r") fullKernel = .error .nullDeref := by
  have hzero : fopen 0 (ascii "1:/A") (ascii "r") fullKernel = .error .nullDeref := by
    have hfault : (match fopen 0 (ascii "1:/A") (ascii "r") fullKernel with
      | .error e => some e
      | .ok _ => none) = some .nullDeref := by decide +kernel
    split at hfault
    · rename_i e he
      rw [he, Option.some.inj hfault]
    · cases hfault
  rw [Below.le (fun n => below_fopen n _ _) (Nat.zero_le fuel) fullKernel
    (by rw [hzero]; exact fun h => by cases h), hzero]

theorem fopen_drive_one_faults :
    ¬ ∀ (disk : Disk) (p : FatPrivate) (ok : Nat → Bool) (base : Kernel),
      fat16Probe ok disk = .ok (.ok p) → Ready disk p base → base.HeapOk →
      (∀ i < MAX_OPEN_FILES, base.fileTable i = 0) → ∀ (requests : List FileRequest)
      (s : FileSession), Runs (fun s r t => r.Within ∧ s.Step r t) ⟨base, []⟩ requests s →
        TableOk base s ∧ (∀ r : FileRequest, r.Within → s.Responds r) ∧
          (s.opened = [] → s.kernel.inUse = base.inUse) := by
  intro hclaim
  obtain ⟨-, hresponds, -⟩ := hclaim _ _ _ _ fullKernel_probe fullKernel_ready fullKernel_heap
    (fun _ _ => rfl) [] _ (.nil _)
  have hfits : ∀ name ∈ partsOf (ascii "1:/A"), Fits name := by decide
  obtain ⟨N, hN⟩ := hresponds (.fopen (ascii "1:/A") (ascii "r")) hfits
  rcases hN with herr | ⟨r, k, hrun, -⟩
  · have := herr N (Nat.le_refl N)
    rw [fopen_drive_one] at this
    cases this
  · have := hrun N (Nat.le_refl N)
    rw [fopen_drive_one] at this
    cases this

end FileSession

end AvocadOS
