import AvocadOS.Fs.Lookup

/-!
# What `fopen` and `fclose` allocate and free

`HandleAt s h`: an open file with its parsed path and its descriptor, the blocks `h.blocks`.

* `fopenHead_does`: where `fopen` comes to its cleanup, and what it holds there;
* `fopen_does`: `fopen` returns NULL and keeps nothing, or it returns a handle in a free slot of the
  file table and keeps exactly the blocks of the handle;
* `fclose_does`: `fclose` frees these blocks and empties the slot.
-/

namespace AvocadOS

open Kernel

set_option linter.style.nameCheck false

structure Handle where
  file : Word
  root : Word
  segs : List Seg
  descriptor : Word
  fileno : Nat

def Handle.blocks (h : Handle) : List Block :=
  ⟨h.descriptor, fatDescriptorSize⟩ :: ⟨h.file, fileSize⟩ :: pathBlocks h.root h.segs

/-- The handle in memory. -/
structure HandleAt (s : Kernel) (h : Handle) : Prop where
  file_ne : h.file ≠ 0
  file : s.files h.file = some ⟨s.image.disk, h.root, h.descriptor, h.fileno⟩
  path : PathAt s h.root 0 h.segs
  length_lt : h.segs.length < MAX_PATH_LEN
  descriptor : h.descriptor ≠ 0 ∧ ∃ d, s.descriptors h.descriptor = some d

section

variable {s t u : Kernel} {own : List Block} {disk : Disk} {p : FatPrivate} {fuel : Nat}
  {h : Handle} {path file : Word} {segs : List Seg} {E : Fault → Prop}

/-- An open file stays as it is while others allocate and free. -/
theorem HandleAt.grown (hh : HandleAt s h) (hg : Grown s u own) : HandleAt u h := by
  obtain ⟨hne, d, hd⟩ := hh.descriptor
  refine ⟨hh.file_ne, ?_, hh.path.grown hg, hh.length_lt, hne, d, hg.get descriptors_local hd⟩
  rw [hg.image_eq]
  exact hg.get files_local hh.file

theorem HandleAt.congr (hh : HandleAt u h) (himage : t.image = u.image)
    (hcells : ∀ b ∈ h.blocks, t.cell b.ptr = u.cell b.ptr) : HandleAt t h := by
  obtain ⟨hne, d, hd⟩ := hh.descriptor
  have hd' : t.descriptors h.descriptor = u.descriptors h.descriptor :=
    descriptors_local.get_congr (hcells ⟨h.descriptor, fatDescriptorSize⟩ (by simp [Handle.blocks]))
  have hf' : t.files h.file = u.files h.file :=
    files_local.get_congr (hcells ⟨h.file, fileSize⟩ (by simp [Handle.blocks]))
  refine ⟨hh.file_ne, ?_, hh.path.congr fun b hb => hcells b (by simp [Handle.blocks, hb]),
    hh.length_lt, hne, d, hd'.trans hd⟩
  rw [himage]
  exact hf'.trans hh.file

/-! ## The file table -/

theorem findFreeSlot_some {table : Nat → Word} {n i j : Nat} (h : findFreeSlot table n i = some j) :
    i ≤ j ∧ j < i + n ∧ table j = 0 := by
  induction n generalizing i with
  | zero => cases h
  | succ n ih =>
    rw [findFreeSlot] at h
    split at h
    · cases h
      exact ⟨Nat.le_refl _, by omega, ‹_›⟩
    · obtain ⟨h₁, h₂, h₃⟩ := ih h
      exact ⟨by omega, by omega, h₃⟩

/-- A file of the call gets the first free slot, or there is none. -/
theorem fileTableOpenFile_does (hg : Grown s u own) (hmem : file ∈ own.map Block.ptr)
    (hne : file ≠ 0) {f : File} (hf : u.files file = some f) :
    Does E (fileTableOpenFile file) u fun res t =>
      (findFreeSlot s.fileTable MAX_OPEN_FILES 0 = none ∧ res < 0 ∧ t = u) ∨
      ∃ i t₀, findFreeSlot s.fileTable MAX_OPEN_FILES 0 = some i ∧ res = (i : Int) ∧
        Grown s t₀ own ∧ t₀.files file = some { f with fileno := (i : Int) } ∧ Elsewhere file u t₀ ∧
        t = { t₀ with fileTable := Function.update s.fileTable i file } := by
  have htable := hg.fileTable_eq
  cases hfind : findFreeSlot s.fileTable MAX_OPEN_FILES 0 with
  | none =>
    have hslot : fileTableFindFreeSlot u = .ok (-EMFILE, u) := by
      rw [fileTableFindFreeSlot, bind_get_eq, htable, hfind]
      rfl
    refine .step hslot (.pure (.inl ⟨rfl, by decide, rfl⟩))
  | some i =>
    have hslot : fileTableFindFreeSlot u = .ok ((i : Int), u) := by
      rw [fileTableFindFreeSlot, bind_get_eq, htable, hfind]
      rfl
    refine .step hslot ?_
    rw [if_neg (by omega)]
    refine (hg.modify files_local hmem hne hf _).seq fun _ t₀ ⟨hg₀, hf₀, he₀, _⟩ => ?_
    have hset : setFileTable (i : Int).toNat file t₀ =
        .ok ((), { t₀ with fileTable := Function.update s.fileTable i file }) := by
      rw [Int.toNat_natCast, ← hg₀.fileTable_eq]
      rfl
    exact .step hset (.pure (.inr ⟨i, t₀, rfl, rfl, hg₀, hf₀, he₀, rfl⟩))

/-! ## `fopen` -/

theorem fsOperations_eq {a : Word} (ha : a ≠ 0) :
    fsOperations a u = .ok (u.fsPrivate.map fun _ => fat16Operations, u) := by
  rw [fsOperations, if_neg ha]
  rfl

theorem operationsOf_eq {f : File} (hdisk : f.disk ≠ 0) (hp : u.fsPrivate = some p) :
    operationsOf f u = .ok (fat16Operations, u) := by
  rw [operationsOf, bind_eq (fsOperations_eq hdisk), hp]
  rfl

/-- The descriptor of a file that may have none. -/
def descriptorBlocks (priv : Word) : List Block :=
  if priv = 0 then [] else [⟨priv, fatDescriptorSize⟩]

/-- The disk that `disk_get` finds. -/
def diskOf (s : Kernel) (drive : Int) : Word := if drive = 0 then s.image.disk else 0

theorem diskGet_eq (s : Kernel) (drive : Int) :
    diskGet drive s = .ok ((if drive = 0 then 0 else -ENOMEDIUM, diskOf s drive), s) := by
  rw [diskGet, diskOf]
  by_cases h : drive = 0
  · rw [if_neg (not_not.mpr h), if_pos h, if_pos h]
    rfl
  · rw [if_pos h, if_neg h, if_neg h]
    rfl

/-- The file at `out`, if it is not opened: its disk, and the descriptor that it owns. -/
structure Unopened (s t : Kernel) (drive : Int) (fuel : Nat) (names : List (List Byte)) (file : Word)
    (f : File) : Prop where
  inMemory : t.files file = some f
  disk : f.disk = diskOf s drive
  mounted : f.privateData ≠ 0 → s.fsPrivate ≠ none
  grown : Grown s t (descriptorBlocks f.privateData ++ [⟨file, fileSize⟩])
  missing : drive = 0 → findFreeSlot s.fileTable MAX_OPEN_FILES 0 ≠ none → ∀ p,
    s.fsPrivate = some p → LookupResult s p fuel p.rootDirectory names none

/-- The descriptor of what the scans of the path find. -/
def Finds (s t : Kernel) (fuel : Nat) (names : List (List Byte)) (descriptor : Word) : Prop :=
  descriptor ≠ 0 ∧ ∃ p y, s.fsPrivate = some p ∧ t.descriptors descriptor = some (__fat16Open p y) ∧
    LookupResult s p fuel p.rootDirectory names (some y)

/-- `fopen` between the allocation of the file and `out`: `s` is the state with the parsed path. -/
theorem fopenOn_does (hE : E .misallocated) (himage : s.image.disk ≠ 0) {drive : Int}
    (hpath : PathAt s path drive segs) (hlen : segs.length < MAX_PATH_LEN)
    (hlook : drive = 0 → ∀ p, s.fsPrivate = some p →
      LookupOk E s p fuel p.rootDirectory (segs.map Seg.name))
    (hg : Grown s u [⟨file, fileSize⟩]) (hne : file ≠ 0) (hf : u.files file = some ⟨0, 0, 0, 0⟩) :
    Does E (fopenOn fuel path file) u fun res t =>
      (res < 0 ∧ ∃ f, Unopened s t drive fuel (segs.map Seg.name) file f) ∨
      ∃ priv i t₀, drive = 0 ∧ s.fsPrivate ≠ none ∧
        findFreeSlot s.fileTable MAX_OPEN_FILES 0 = some i ∧ res = (i : Int) ∧
        Grown s t₀ [⟨priv, fatDescriptorSize⟩, ⟨file, fileSize⟩] ∧
        t₀.files file = some ⟨s.image.disk, path, priv, (i : Int)⟩ ∧
        Finds s t₀ fuel (segs.map Seg.name) priv ∧
        t = { t₀ with fileTable := Function.update s.fileTable i file } := by
  obtain ⟨first, hroot, hlinked⟩ := hpath.linked
  have hdisk : diskOf u drive = diskOf s drive := by rw [diskOf, diskOf, hg.image_eq]
  refine .step (Store.load_eq hpath.ne_null (hg.get roots_local hroot)) (.step (diskGet_eq u drive) ?_)
  refine (hg.modify files_local (by simp) hne hf _).seq fun _ u₁ ⟨hg₁, hf₁, _⟩ => ?_
  rw [hdisk] at hf₁
  by_cases hdrive : drive = 0
  swap
  · -- no such disk
    rw [if_neg hdrive, if_pos (by decide)]
    exact .pure (.inl ⟨error_neg, _, hf₁, rfl, fun h => absurd rfl h, hg₁,
      fun h => absurd h hdrive⟩)
  have hne' : diskOf s drive ≠ 0 := by
    rw [diskOf, if_pos hdrive]
    exact himage
  rw [if_pos hdrive, if_neg (by simp)]
  refine .step (Store.load_eq hne hf₁) (.step (fsOperations_eq hne') ?_)
  rw [hg₁.fsPrivate_eq]
  cases hp : s.fsPrivate with
  | none =>
    exact .pure (.inl ⟨error_neg, _, hf₁, rfl, fun h => absurd rfl h, hg₁,
      fun _ _ p hp' => by rw [hp] at hp'; cases hp'⟩)
  | some p =>
  refine (hg₁.modify files_local (by simp) hne hf₁ _).seq fun _ u₂ ⟨hg₂, hf₂, _⟩ => ?_
  -- what the lookup allocates is on top of the file
  have hok₂ : ∀ b ∈ u₂.blocks, 0 < b.size := fun b hb => hg₂.sizes_pos hb
  have hlook₂ : LookupOk E u₂ p fuel p.rootDirectory (segs.map Seg.name) := by
    refine (hlook hdrive p hp).imp_left ?_
    rintro ⟨hans, hfits, hfuel⟩
    exact ⟨hg₂.answers_ne hans, hfits, hg₂.disk_eq.symm ▸ hfuel⟩
  refine (fat16Open_does hE hok₂ (hg₂.fsPrivate_eq.trans hp) hlen (hlinked.grown hg₂) hlook₂).seq ?_
  rintro priv u₃ (⟨rfl, hg₃, hnone⟩ | ⟨hpriv, hg₃, y, hd, hfound⟩)
  · have hf₃ := hg₃.get files_local hf₂
    refine ((hg₂.trans hg₃).modify files_local (by simp) hne hf₃ _).seq
      fun _ u₄ ⟨hg₄, hf₄, _⟩ => ?_
    rw [if_pos rfl]
    refine .pure (.inl ⟨error_neg, _, hf₄, rfl, fun h => absurd rfl h, hg₄, fun _ _ p' hp' => ?_⟩)
    cases hp.symm.trans hp'
    exact hnone.of_grown hg₂
  · have hf₃ := hg₃.get files_local hf₂
    have hpf : priv ≠ file := ((hg₃.fresh _ (List.mem_singleton_self _)).ne files_local hf₂).symm
    refine ((hg₂.trans hg₃).modify files_local (by simp) hne hf₃ _).seq
      fun _ u₄ ⟨hg₄, hf₄, he₄, _⟩ => ?_
    rw [if_neg hpriv]
    refine (fileTableOpenFile_does hg₄ (by simp) hne hf₄).mono ?_
    rintro res t (⟨hnone, hres, rfl⟩ | ⟨i, t₀, hsome, hres, hg₀, hf₀, he₀, rfl⟩)
    · refine .inl ⟨hres, _, hf₄, rfl, fun _ => by simp [hp], ?_, fun _ h => absurd hnone h⟩
      rw [descriptorBlocks, if_neg hpriv]
      exact hg₄
    · rw [diskOf, if_pos hdrive] at hf₀
      refine .inr ⟨priv, i, t₀, hdrive, by simp, hsome, hres, hg₀, hf₀, ⟨hpriv, p, y, hp, ?_,
        hfound.of_grown hg₂⟩, rfl⟩
      exact (descriptors_local.get_congr (he₀ _ hpf)).trans
        ((descriptors_local.get_congr (he₄ _ hpf)).trans hd)

/-- The cleanup without a file frees the path. -/
theorem fopenOut_does_path {res : Int} {drive : Int} (hres : res < 0)
    (hlen : segs.length < MAX_PATH_LEN) (hpath : PathAt u path drive segs)
    (hg : Grown s u (pathBlocks path segs)) :
    Does E (fopenOut path 0 res) u fun r t => r = 0 ∧ Grown s t [] := by
  rw [fopenOut, if_pos hres]
  refine (@pathparsePathFree_does s u [] path _ segs E hlen (by simpa using hg) hpath).seq
    fun _ t ⟨hgt, _⟩ => ?_
  rw [if_neg (by simp)]
  exact .pure ⟨rfl, hgt⟩

/-- The cleanup of a file that is not opened frees all of it, if its disk is not NULL. -/
theorem fopenOut_does {res : Int} {f : File} {drive : Int} (hres : res < 0)
    (hlen : segs.length < MAX_PATH_LEN) (hpath : PathAt u path drive segs) (hne : file ≠ 0)
    (hdisk : f.disk ≠ 0 ∨ E .nullDeref) (hf : u.files file = some f)
    (hmounted : f.privateData ≠ 0 → s.fsPrivate ≠ none)
    (hg : Grown s u (pathBlocks path segs ++
      (descriptorBlocks f.privateData ++ [⟨file, fileSize⟩]))) :
    Does E (fopenOut path file res) u fun r t => r = 0 ∧ f.disk ≠ 0 ∧ Grown s t [] := by
  rw [fopenOut, if_pos hres]
  refine (pathparsePathFree_does hlen hg hpath).seq fun _ u₁ ⟨hg₁, hcells⟩ => ?_
  have hf₁ : u₁.files file = some f := by
    refine (files_local.get_congr (hcells file fun b hb heq => ?_)).trans hf
    have hnodup := hg.nodup
    rw [List.map_append, List.nodup_append] at hnodup
    exact hnodup.2.2 b.ptr (List.mem_map_of_mem hb) file (by simp) heq.symm
  rw [if_pos hne]
  refine .step (Store.load_eq hne hf₁) ?_
  by_cases hnull : f.disk = 0
  · refine .bind (.inl ⟨.nullDeref, ?_, hdisk.resolve_left (not_not.mpr hnull)⟩)
    rw [fsOperations, if_pos hnull]
  refine .step (fsOperations_eq hnull) ?_
  rw [hg₁.fsPrivate_eq]
  by_cases hpriv : f.privateData = 0
  · rw [descriptorBlocks, if_pos hpriv] at hg₁
    cases s.fsPrivate with
    | none => exact hg₁.free_head.seq fun _ t ⟨hgt, _⟩ => .pure ⟨rfl, hnull, hgt⟩
    | some p =>
      dsimp only [Option.map_some]
      rw [if_neg (not_not.mpr hpriv)]
      exact hg₁.free_head.seq fun _ t ⟨hgt, _⟩ => .pure ⟨rfl, hnull, hgt⟩
  · rw [descriptorBlocks, if_neg hpriv] at hg₁
    obtain ⟨p, hp⟩ := Option.ne_none_iff_exists'.mp (hmounted hpriv)
    rw [hp]
    dsimp only [Option.map_some]
    rw [if_pos hpriv]
    refine .bind ?_
    refine hg₁.free_head.seq fun _ u₂ ⟨hg₂, _⟩ => .pure ?_
    exact hg₂.free_head.seq fun _ t ⟨hgt, _⟩ => .pure ⟨rfl, hnull, hgt⟩

/-! ## `fopen` as a whole -/

/-- `fopen` up to `out`: the path, the file and `res` there, or `none` where it has returned NULL
before. -/
def fopenHead (fuel : Nat) (filename mode : List Byte) : K (Option (Word × Word × Int)) :=
  if fileModeIsValid mode then do
    let path ← pathparserPathParse filename
    if path = 0 then pure none
    else
      let root ← roots.load path
      if root.first = 0 then
        pathparsePathFree path
        pure none
      else
        let descriptor ← files.alloc fileSize ⟨0, 0, 0, 0⟩
        if descriptor = 0 then pure (some (path, 0, -ENOMEM))
        else
          let res ← fopenOn fuel path descriptor
          pure (some (path, descriptor, res))
  else pure none

/-- And the rest. -/
def fopenTail : Option (Word × Word × Int) → K Word
  | none => pure 0
  | some (path, descriptor, res) => fopenOut path descriptor res

theorem fopen_eq (fuel : Nat) (filename mode : List Byte) :
    fopen fuel filename mode = fopenHead fuel filename mode >>= fopenTail := by
  rw [fopen, fopenHead]
  split
  · rw [bind_assoc]
    refine bind_congr fun path => ?_
    split
    · rfl
    · rw [bind_assoc]
      refine bind_congr fun root => ?_
      split
      · rw [bind_assoc]
        rfl
      · rw [bind_assoc]
        refine bind_congr fun descriptor => ?_
        split
        · rfl
        · rw [bind_assoc]
          rfl
  · rfl

/-- `fopen` comes to look at the disk of the path. -/
def Reaches (filename mode : List Byte) : Prop :=
  fileModeIsValid mode = true ∧ pathparserPathIsValid filename = true ∧ partsOf filename ≠ []

/-- At `out`: `s` is the state in which `fopen` was called. -/
structure AtOut (s t : Kernel) (fuel : Nat) (filename mode : List Byte) (path file : Word) (res : Int)
    (u : Kernel) (segs : List Seg) : Prop where
  reaches : Reaches filename mode
  length_lt : segs.length < MAX_PATH_LEN
  pathAt : PathAt u path (pathparserPathGetDrive filename) segs
  names : segs.map Seg.name = partsOf filename
  grown : Grown s u (pathBlocks path segs)
  outcome : (file = 0 ∧ res = -ENOMEM ∧ Grown u t [] ∧
      ¬ Granted s s.requests (2 + 2 * (partsOf filename).length)) ∨
    (file ≠ 0 ∧ Granted s s.requests (2 + 2 * (partsOf filename).length) ∧
      ((res < 0 ∧ ∃ f,
        Unopened u t (pathparserPathGetDrive filename) fuel (segs.map Seg.name) file f) ∨
      ∃ priv i t₀, pathparserPathGetDrive filename = 0 ∧ u.fsPrivate ≠ none ∧
        findFreeSlot u.fileTable MAX_OPEN_FILES 0 = some i ∧ res = (i : Int) ∧
        Grown u t₀ [⟨priv, fatDescriptorSize⟩, ⟨file, fileSize⟩] ∧
        t₀.files file = some ⟨u.image.disk, path, priv, (i : Int)⟩ ∧
        Finds u t₀ fuel (segs.map Seg.name) priv ∧
        t = { t₀ with fileTable := Function.update u.fileTable i file }))

theorem fopenHead_does (hE : E .misallocated) {filename mode : List Byte}
    (hok : ∀ b ∈ s.blocks, 0 < b.size) (himage : s.image.disk ≠ 0)
    (hnull : ¬ Granted s s.requests (1 + 2 * (partsOf filename).length) → E .nullDeref)
    (hlook : Reaches filename mode → pathparserPathGetDrive filename = 0 →
      ∀ p, s.fsPrivate = some p → LookupOk E s p fuel p.rootDirectory (partsOf filename)) :
    Does E (fopenHead fuel filename mode) s fun r t =>
      match r with
      | none => Grown s t [] ∧ (Reaches filename mode → s.answers s.requests = 0)
      | some (path, file, res) => ∃ u segs, AtOut s t fuel filename mode path file res u segs := by
  rw [fopenHead]
  by_cases hmode : fileModeIsValid mode = true
  swap
  · rw [if_neg hmode]
    exact .pure ⟨.refl hok, fun h => absurd h.1 hmode⟩
  rw [if_pos hmode]
  refine (pathparserPathParse_does hE hok filename hnull).seq fun path u ⟨hno, hyes⟩ => ?_
  by_cases hvalid : pathparserPathIsValid filename = true
  swap
  · obtain ⟨rfl, rfl⟩ := hno (by simpa using hvalid)
    exact .pure ⟨.refl hok, fun h => absurd h.2.1 hvalid⟩
  obtain ⟨rfl, hzero, hg⟩ | ⟨hgrant, hr, segs, hnames, hpath, hg⟩ := hyes hvalid
  · exact .pure ⟨hg, fun _ => hzero⟩
  obtain ⟨first, hroot, hlinked⟩ := hpath.linked
  rw [if_neg hpath.ne_null]
  refine .step (Store.load_eq hpath.ne_null hroot) ?_
  have hlen : segs.length < MAX_PATH_LEN := by
    rw [← List.length_map Seg.name, hnames]
    exact partsOf_length_lt filename
  by_cases hparts : partsOf filename = []
  · rw [hparts, List.map_eq_nil_iff] at hnames
    subst hnames
    rw [if_pos (show first = 0 from hlinked)]
    refine (@pathparsePathFree_does s u [] path _ [] E (by decide) (by simpa using hg) hpath).seq
      fun _ t ⟨hgt, _⟩ => ?_
    exact .pure ⟨hgt, fun h => absurd hparts h.2.2⟩
  have hfirst : first ≠ 0 := by
    cases segs with
    | nil => exact absurd hnames.symm hparts
    | cons g segs => exact hlinked.1 ▸ hlinked.2.1
  have hreaches : Reaches filename mode := ⟨hmode, hvalid, hparts⟩
  rw [if_neg hfirst]
  have hok₁ : ∀ b ∈ u.blocks, 0 < b.size := fun b hb => hg.sizes_pos hb
  refine ((Grown.refl hok₁).alloc_cases hE files_local (by decide) ⟨0, 0, 0, 0⟩).seq ?_
  rintro file u₁ ⟨-, ⟨rfl, hzero₁, hg₁, -⟩ | ⟨hne, hgrant₁, -, hg₁, hf₁, -⟩⟩
  · rw [if_pos rfl]
    refine .pure ⟨u, segs, hreaches, hlen, hpath, hnames, hg, .inl ⟨rfl, rfl, hg₁, fun hall => ?_⟩⟩
    rw [hg.answers_eq, hr] at hzero₁
    exact hall (1 + 2 * (partsOf filename).length) (by omega) hzero₁
  rw [if_neg hne]
  have himage₁ : u.image.disk ≠ 0 := by
    rw [hg.image_eq]
    exact himage
  have hgrants : Granted s s.requests (2 + 2 * (partsOf filename).length) := by
    rw [hg.answers_eq, hr] at hgrant₁
    rw [show 2 + 2 * (partsOf filename).length = 1 + 2 * (partsOf filename).length + 1 by omega]
    exact hgrant.append (.one hgrant₁)
  have hlook₁ : pathparserPathGetDrive filename = 0 → ∀ p, u.fsPrivate = some p →
      LookupOk E u p fuel p.rootDirectory (segs.map Seg.name) := by
    intro hdrive p hp
    rw [hnames]
    refine (hlook hreaches hdrive p (hg.fsPrivate_eq.symm.trans hp)).imp_left ?_
    rintro ⟨hans, hfits, hfuel⟩
    exact ⟨hg.answers_ne hans, hfits, hg.disk_eq.symm ▸ hfuel⟩
  refine (fopenOn_does hE himage₁ hpath hlen hlook₁ hg₁ hne hf₁).seq fun res t houtcome => ?_
  exact .pure ⟨u, segs, hreaches, hlen, hpath, hnames, hg, .inr ⟨hne, hgrants, houtcome⟩⟩

/-- `fopen`, unless it fails on a disk that is not there: it keeps nothing, as the path names nothing
or no slot is free, or it keeps exactly a handle of what the path names. -/
theorem fopen_finds (hE : E .misallocated) {filename mode : List Byte}
    (hok : ∀ b ∈ s.blocks, 0 < b.size) (himage : s.image.disk ≠ 0)
    (hnull : ¬ Granted s s.requests (1 + 2 * (partsOf filename).length) → E .nullDeref)
    (hdrive : Reaches filename mode → pathparserPathGetDrive filename = 0 ∨ E .nullDeref)
    (hlook : Reaches filename mode → pathparserPathGetDrive filename = 0 →
      ∀ p, s.fsPrivate = some p → LookupOk E s p fuel p.rootDirectory (partsOf filename)) :
    Does E (fopen fuel filename mode) s fun r t =>
      (r = 0 ∧ Grown s t [] ∧ (Reaches filename mode → pathparserPathGetDrive filename = 0 →
        findFreeSlot s.fileTable MAX_OPEN_FILES 0 ≠ none → ∀ p, s.fsPrivate = some p →
        LookupResult s p fuel p.rootDirectory (partsOf filename) none)) ∨
      ∃ h t₀, h.file = r ∧ Reaches filename mode ∧ s.fsPrivate ≠ none ∧
        findFreeSlot s.fileTable MAX_OPEN_FILES 0 = some h.fileno ∧
        HandleAt t₀ h ∧ Finds s t₀ fuel (partsOf filename) h.descriptor ∧ Grown s t₀ h.blocks ∧
        t = { t₀ with fileTable := Function.update s.fileTable h.fileno r } := by
  rw [fopen_eq]
  refine (fopenHead_does hE hok himage hnull hlook).seq ?_
  rintro (_ | ⟨path, file, res⟩) t hout
  · exact .pure (.inl ⟨rfl, hout.1, fun h _ _ _ _ hans => absurd (hout.2 h) (hans _)⟩)
  obtain ⟨u, segs, hreaches, hlen, hpath, hnames, hg, ⟨rfl, rfl, hgt, hno⟩ |
    ⟨hne, -, ⟨hres, f, hf⟩ | hopened⟩⟩ := hout
  · refine (fopenOut_does_path (by decide) hlen (hpath.grown hgt) ?_).mono fun r t ht =>
      .inl ⟨ht.1, ht.2, fun _ _ _ _ _ hans => absurd (.of_all hans _ _) hno⟩
    simpa using hg.trans hgt
  · refine (fopenOut_does hres hlen (hpath.grown hf.grown) hne ?_ hf.inMemory
      (hg.fsPrivate_eq ▸ hf.mounted) ((hg.trans hf.grown).perm List.perm_append_comm)).mono
      fun r t ⟨hr, _, ht⟩ => .inl ⟨hr, ht, fun _ h0 hfree p hp => ?_⟩
    · refine (hdrive hreaches).imp_left fun h0 => ?_
      rw [hf.disk, diskOf, if_pos h0, hg.image_eq]
      exact himage
    · rw [← hnames]
      rw [← hg.fileTable_eq] at hfree
      exact (hf.missing h0 hfree p (hg.fsPrivate_eq.trans hp)).of_grown hg
  · obtain ⟨priv, i, t₀, h0, hmounted, hslot, hres, hg₀, hf₀, ⟨hpriv, p, y, hp, hd₀, hfound⟩, rfl⟩ :=
      hopened
    rw [h0] at hpath
    rw [fopenTail, fopenOut, if_neg (by omega)]
    refine .pure (.inr ⟨⟨file, path, segs, priv, i⟩, t₀, rfl, hreaches, hg.fsPrivate_eq ▸ hmounted, ?_,
      ⟨hne, ?_, hpath.grown hg₀, hlen, hpriv, _, hd₀⟩, ⟨hpriv, p, y, hg.fsPrivate_eq.symm.trans hp, hd₀,
        hnames ▸ hfound.of_grown hg⟩, hg.trans hg₀, ?_⟩)
    · rw [← hg.fileTable_eq]
      exact hslot
    · rw [hg₀.image_eq]
      exact hf₀
    · rw [hg.fileTable_eq]

/-- What `fopen` keeps. -/
theorem fopen_does (hE : E .misallocated) {filename mode : List Byte}
    (hok : ∀ b ∈ s.blocks, 0 < b.size) (himage : s.image.disk ≠ 0)
    (hnull : ¬ Granted s s.requests (1 + 2 * (partsOf filename).length) → E .nullDeref)
    (hdrive : Reaches filename mode → pathparserPathGetDrive filename = 0 ∨ E .nullDeref)
    (hlook : Reaches filename mode → pathparserPathGetDrive filename = 0 →
      ∀ p, s.fsPrivate = some p → LookupOk E s p fuel p.rootDirectory (partsOf filename)) :
    Does E (fopen fuel filename mode) s fun r t => (r = 0 ∧ Grown s t []) ∨
      ∃ h t₀, h.file = r ∧ s.fsPrivate ≠ none ∧
        findFreeSlot s.fileTable MAX_OPEN_FILES 0 = some h.fileno ∧
        HandleAt t₀ h ∧ Grown s t₀ h.blocks ∧
        t = { t₀ with fileTable := Function.update s.fileTable h.fileno r } := by
  refine (fopen_finds hE hok himage hnull hdrive hlook).mono ?_
  rintro r t (⟨hr, hg, -⟩ | ⟨h, t₀, hr, -, hmounted, hslot, hat, -, hg, ht⟩)
  · exact .inl ⟨hr, hg⟩
  · exact .inr ⟨h, t₀, hr, hmounted, hslot, hat, hg, ht⟩

/-- A path that `fopen` looks up names drive 0, and its lookup ends. -/
def Openable (disk : Disk) (p : FatPrivate) (filename mode : List Byte) : Prop :=
  fileModeIsValid mode = true → pathparserPathIsValid filename = true → partsOf filename ≠ [] →
    pathparserPathGetDrive filename = 0 ∧ LookupEnds disk p p.rootDirectory (partsOf filename)

/-- With enough fuel, `fopen` of such a path returns, if no request is refused. -/
theorem fopen_openable (hE : E .misallocated) {ok : Nat → Bool} {filename mode : List Byte}
    (hprobe : fat16Probe ok disk = .ok (.ok p)) (hopen : Openable disk p filename mode)
    (hfits : ∀ name ∈ partsOf filename, Fits name) :
    ∃ N, ∀ fuel ≥ N, ∀ {s : Kernel}, (∀ b ∈ s.blocks, 0 < b.size) → (∀ n, s.answers n ≠ 0) →
      s.fsPrivate = some p → s.dev.disk = disk → s.image.disk ≠ 0 →
      Does E (fopen fuel filename mode) s fun r t => (r = 0 ∧ Grown s t []) ∨
        ∃ h t₀, h.file = r ∧ s.fsPrivate ≠ none ∧
          findFreeSlot s.fileTable MAX_OPEN_FILES 0 = some h.fileno ∧
          HandleAt t₀ h ∧ Grown s t₀ h.blocks ∧
          t = { t₀ with fileTable := Function.update s.fileTable h.fileno r } := by
  have hfuel : ∃ N, ∀ fuel ≥ N, Reaches filename mode →
      LookupFuel disk p fuel p.rootDirectory (partsOf filename) := by
    by_cases hreaches : Reaches filename mode
    · obtain ⟨N, hN⟩ := rootLookup_fuel hprobe (hopen hreaches.1 hreaches.2.1 hreaches.2.2).2
      exact ⟨N, fun fuel hle _ => hN fuel hle⟩
    · exact ⟨0, fun _ _ h => absurd h hreaches⟩
  obtain ⟨N, hN⟩ := hfuel
  refine ⟨N, fun fuel hle s hok hans hp hdisk himage => ?_⟩
  refine fopen_does hE hok himage (fun hno => absurd (.of_all hans _ _) hno)
    (fun h => .inl (hopen h.1 h.2.1 h.2.2).1) fun hreaches _ p' hp' => ?_
  cases hp.symm.trans hp'
  exact .inl ⟨hans, hfits, hdisk.symm ▸ hN fuel hle hreaches⟩

theorem fsOperations_ok {a : Word} {ops : FilesystemOperations}
    (h : fsOperations a s = .ok (some ops, t)) : ops = fat16Operations := by
  rw [fsOperations] at h
  split at h
  · cases h
  · rw [bind_get_eq] at h
    cases hp : s.fsPrivate with
    | none =>
      rw [hp] at h
      cases h
    | some p =>
      rw [hp] at h
      cases h
      rfl

/-- More fuel changes nothing. -/
theorem below_fopen (fuel : Nat) (filename mode : List Byte) :
    Below .hang (fopen fuel filename mode) (fopen (fuel + 1) filename mode) := by
  rw [fopen, fopen]
  refine .ite (.bind (.refl _) fun path _ _ _ => .ite (.refl _) ?_) (.refl _)
  refine .bind (.refl _) fun root _ _ _ => .ite (.refl _) (.bind (.refl _) fun file _ _ _ => ?_)
  refine .ite (.refl _) (.bind ?_ fun _ _ _ _ => .refl _)
  rw [fopenOn, fopenOn]
  refine .bind (.refl _) fun root _ _ _ => .bind (.refl _) fun r _ _ _ => ?_
  refine .bind (.refl _) fun _ _ _ _ => .ite (.refl _) (.bind (.refl _) fun f _ _ _ => ?_)
  refine .bind (.refl _) fun ops s t hops => ?_
  cases ops with
  | none => exact .refl _
  | some ops =>
    obtain rfl := fsOperations_ok hops
    refine .bind (.refl _) fun _ _ _ _ => .bind (below_fat16Open _ _) fun _ _ _ _ => .refl _

/-! ## `fclose` -/

/-- The state without an open file. -/
def Kernel.closed (s : Kernel) (h : Handle) : Kernel :=
  { s.without h.blocks with fileTable := Function.update s.fileTable h.fileno 0 }

/-- The blocks of an open file are given back, and its slot is empty. -/
theorem fclose_does (hok : s.HeapOk) (hp : s.fsPrivate = some p) (himage : s.image.disk ≠ 0)
    (hh : HandleAt s h) (hno : h.fileno < MAX_OPEN_FILES) (hslot : s.fileTable h.fileno = h.file)
    {rest : List Block} (hblocks : s.blocks.Perm (h.blocks ++ rest)) :
    Does E (fclose h.file) s fun r t => r = 0 ∧ Grown (s.closed h) t [] := by
  have hg := (hok.grown_without hblocks).1
  have hnodup := hg.nodup
  simp only [Handle.blocks, List.map_cons, List.nodup_cons, List.mem_cons, not_or] at hnodup
  have hload : files.load h.file s = .ok (_, s) := Store.load_eq hh.file_ne hh.file
  have hget : getFileTable (h.fileno : Int) s = .ok (h.file, s) := by
    rw [getFileTable, if_pos ⟨by omega, by omega⟩, bind_get_eq, Int.toNat_natCast, hslot]
    rfl
  refine .step hload (.step hget ?_)
  rw [if_neg hh.file_ne]
  -- the slot is emptied
  have hg₁ := hg.setFileTable (Function.update s.fileTable h.fileno 0)
  refine Does.seq (Q := fun res u => res = 0 ∧ Elsewhere h.file s u ∧
    Grown (s.closed h) u h.blocks ∧
    u.files h.file = some ⟨s.image.disk, h.root, h.descriptor, -1⟩) ?_ ?_
  · refine .step hload ?_
    dsimp only
    rw [if_neg (by omega)]
    refine .step rfl ?_
    refine (hg₁.modify files_local (by simp [Handle.blocks]) hh.file_ne hh.file _).seq
      fun _ u ⟨hgu, hfu, heu, _⟩ => .pure ⟨rfl, heu, ?_, hfu⟩
    exact hgu
  rintro _ u₁ ⟨rfl, he₁, hg₁, hf₁⟩
  rw [if_neg (by simp)]
  refine .step (Store.load_eq hh.file_ne hf₁) ?_
  have hp₁ : u₁.fsPrivate = some p := (hg₁.fsPrivate_eq.trans hg.fsPrivate_eq.symm).trans hp
  refine .step (operationsOf_eq himage hp₁) ?_
  refine .bind (hg₁.free_head.seq fun _ u₂ ⟨hg₂, he₂⟩ => .pure ?_)
  rw [if_neg (by simp)]
  have hpath₂ : PathAt u₂ h.root 0 h.segs := hh.path.congr fun b hb => by
    have hmem : b.ptr ∈ (pathBlocks h.root h.segs).map Block.ptr := List.mem_map_of_mem hb
    have h₁ : b.ptr ≠ h.file := fun heq => hnodup.2.1 (heq ▸ hmem)
    have h₂ : b.ptr ≠ h.descriptor := fun heq => hnodup.1.2 (heq ▸ hmem)
    exact (he₂ _ h₂).trans (he₁ _ h₁)
  refine (pathparsePathFree_does hh.length_lt
    (hg₂.perm (List.perm_append_singleton _ _).symm) hpath₂).seq fun _ u₃ ⟨hg₃, _⟩ => ?_
  exact hg₃.free_head.seq fun _ t ⟨hgt, _⟩ => .pure ⟨rfl, hgt⟩

end

end AvocadOS
