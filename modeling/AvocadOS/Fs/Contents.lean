import AvocadOS.Fat16.SubDir
import AvocadOS.Fs.Seek
import AvocadOS.Fs.Table

/-!
# The files of a volume

What `fopen`, `fread`, `fstat` and `fclose` are for together: a volume is a tree of directories, a
path names one of its files or nothing, and a stream is a file with a position in it. `SpecStep` is
a call on such a file system; `FileClient.Step` is the call of the code.

* `DirEntry`, `Resolves`: what a directory has under a name, and what a path names;
* `Resolves.fuel`: `traverse_path` comes to what the path names;
* `ContentsInv.step`: a call of the code is one of the specification;
* `FileClient.runs_refine`: so is every sequence of calls.
-/

namespace AvocadOS

open Kernel

/-! ## What a path names -/

section

variable {disk : Disk} {p : FatPrivate}

/-- What a directory has under a name, as far as the driver's scan of it is the right one. -/
inductive DirEntry (disk : Disk) (p : FatPrivate) : FatItem → List Byte → Option FatItem → Prop
  | file {item : FatItem} {name : List Byte} (htype : (__fat16Open p item).item.type = .file) :
      DirEntry disk p item name none
  | root {name : List Byte}
      (hfits : RootDirFits true disk p (splitName name).1 (splitName name).2) :
      DirEntry disk p p.rootDirectory name
        ((rootLookup disk p (splitName name).1 (splitName name).2).2.map fun j =>
          .ofEntry p p.rootDirectory (slotAt disk (rootSlotAddr p j)) (j + 1))
  | directory {item : FatItem} {name : List Byte} {clusters : List Nat}
      (hchain : DirChain disk p (__fat16Open p item).item clusters)
      (hfits : SubdirFits true disk p clusters (splitName name).1 (splitName name).2) :
      DirEntry disk p item name
        ((chainLookup disk p clusters (splitName name).1 (splitName name).2).map fun k =>
          .ofEntry p (__fat16Open p item).item (chainSlot disk p clusters k) (k + 1))

/-- What the rest of a path names, from an item on. -/
inductive Resolves (disk : Disk) (p : FatPrivate) :
    FatItem → List (List Byte) → Option FatItem → Prop
  | here (item : FatItem) : Resolves disk p item [] (some item)
  | missing {item : FatItem} {name : List Byte} (names : List (List Byte))
      (h : DirEntry disk p item name none) : Resolves disk p item (name :: names) none
  | next {item found : FatItem} {name : List Byte} {names : List (List Byte)} {r : Option FatItem}
      (h : DirEntry disk p item name (some found)) (hrest : Resolves disk p found names r) :
      Resolves disk p item (name :: names) r

/-- What `fopen` has to open: nothing, if it does not get to the disk. -/
structure Names (disk : Disk) (p : FatPrivate) (filename mode : List Byte) (r : Option FatItem) :
    Prop where
  lookup : Reaches filename mode → pathparserPathGetDrive filename = 0 ∧
    (∀ name ∈ partsOf filename, Fits name) ∧ Resolves disk p p.rootDirectory (partsOf filename) r
  other : ¬ Reaches filename mode → r = none

/-! ## The specification -/

/-- A file with a position in it. -/
structure OpenStream (disk : Disk) (p : FatPrivate) where
  stream : Word
  file : RegularFile disk p
  pos : Nat

/-- A call, with what it returns and writes. -/
inductive FileEvent
  | fopen (filename mode : List Byte) (stream : Word)
  | fread (stream : Word) (size nmemb n : Nat) (bytes : List Byte)
  | fstat (stream : Word) (res : Int) (size : Nat)
  | fclose (stream : Word) (res : Int)

/-- The bytes that a read of `len` delivers. -/
def OpenStream.bytes (o : OpenStream disk p) (len : Nat) : List Byte :=
  (o.file.content.drop o.pos).take len

/-- The position after them. -/
def OpenStream.advance (o : OpenStream disk p) (len : Nat) : OpenStream disk p :=
  { o with pos := o.pos + (o.bytes len).length }

/-- One call: the open streams before it and after it. -/
inductive SpecStep : List (OpenStream disk p) → FileEvent → List (OpenStream disk p) → Prop
  | missing {σ : List (OpenStream disk p)} {filename mode : List Byte}
      (h : Names disk p filename mode none) : SpecStep σ (.fopen filename mode 0) σ
  | full {σ : List (OpenStream disk p)} (filename mode : List Byte)
      (h : MAX_OPEN_FILES ≤ σ.length) : SpecStep σ (.fopen filename mode 0) σ
  | fopen {σ : List (OpenStream disk p)} {filename mode : List Byte} {stream : Word}
      {file : RegularFile disk p} (h : Names disk p filename mode (some file.item))
      (hroom : σ.length < MAX_OPEN_FILES) (hne : stream ≠ 0) (hnew : ∀ o ∈ σ, o.stream ≠ stream) :
      SpecStep σ (.fopen filename mode stream) (⟨stream, file, 0⟩ :: σ)
  | fread {σ : List (OpenStream disk p)} {o : OpenStream disk p} (ho : o ∈ σ) (size nmemb : Nat) :
      SpecStep σ
        (.fread o.stream size nmemb (o.bytes (size * nmemb)).length (o.bytes (size * nmemb)))
        (σ.map fun o' => if o'.stream = o.stream then o'.advance (size * nmemb) else o')
  | fstat {σ : List (OpenStream disk p)} {o : OpenStream disk p} (ho : o ∈ σ) :
      SpecStep σ (.fstat o.stream 0 o.file.content.length) σ
  | fclose {σ : List (OpenStream disk p)} {o : OpenStream disk p} (ho : o ∈ σ) :
      SpecStep σ (.fclose o.stream 0) (σ.eraseP (·.stream = o.stream))

end

/-! ## The code -/

/-- The kernel, and the streams that its client has opened and not closed. -/
structure FileClient where
  kernel : Kernel
  streams : List Word

namespace FileClient

/-- `fopen` returns the same with enough fuel; the other calls are made on open streams. -/
inductive Step : FileClient → FileEvent → FileClient → Prop
  | fopen {s : FileClient} {filename mode : List Byte} {N : Nat} {r : Word} {k : Kernel}
      (hrun : ∀ fuel ≥ N, AvocadOS.fopen fuel filename mode s.kernel = .ok (r, k)) :
      Step s (.fopen filename mode r) ⟨k, if r = 0 then s.streams else r :: s.streams⟩
  | fread {s : FileClient} {stream : Word} {size nmemb n : Nat} {bytes : List Byte} {k : Kernel}
      (hmem : stream ∈ s.streams) (hlen : size * nmemb < 2 ^ 32)
      (hrun : AvocadOS.fread size nmemb stream s.kernel = .ok ((n, bytes), k)) :
      Step s (.fread stream size nmemb n bytes) ⟨k, s.streams⟩
  | fstat {s : FileClient} {stream : Word} {res : Int} {size : Nat} {k : Kernel}
      (hmem : stream ∈ s.streams)
      (hrun : (do AvocadOS.fstat (← files.load stream).fileno) s.kernel = .ok ((res, size), k)) :
      Step s (.fstat stream res size) ⟨k, s.streams⟩
  | fclose {s : FileClient} {stream : Word} {res : Int} {k : Kernel} (hmem : stream ∈ s.streams)
      (hrun : AvocadOS.fclose stream s.kernel = .ok (res, k)) :
      Step s (.fclose stream res) ⟨k, s.streams.eraseP (· = stream)⟩

end FileClient

/-- A path that is opened names a regular file of the volume, or nothing. -/
def FileEvent.InScope (disk : Disk) (p : FatPrivate) : FileEvent → Prop
  | .fopen filename mode _ => ∃ file : Option (RegularFile disk p),
      Names disk p filename mode (file.map RegularFile.item)
  | _ => True

/-! ## Lookups -/

section

variable {disk : Disk} {p : FatPrivate} {ok : Nat → Bool} {item : FatItem} {name : List Byte}
  {names : List (List Byte)} {r : Option FatItem}

theorem open_rootDirectory (hroot : p.rootDirectory.type = .rootDirectory) :
    (__fat16Open p p.rootDirectory).item = p.rootDirectory := by
  simp only [__fat16Open, fat16ItemIsRootDir, hroot, __fat16ResetCursors, beq_self_eq_true,
    Bool.and_self, if_true]
  rw [← hroot]

/-- With enough fuel the driver finds what the directory has. -/
theorem DirEntry.gives (hp : fat16Probe ok disk = .ok (.ok p)) (hbpc : 0 < p.bytesPerCluster)
    (hwhole : p.bytesPerCluster % FAT_ENTRY_SIZE = 0) (h : DirEntry disk p item name r) :
    ∃ N d, ∀ fuel ≥ N, Gives disk (fat16FindEntryInDir true fuel p (__fat16Open p item)
      (splitName name).1 (splitName name).2) (· = (d, r)) := by
  -- one run is enough
  have hone : ∀ {fuel₀ : Nat} {d : FatDescriptor} {t : DiskStream},
      fat16FindEntryInDir true fuel₀ p (__fat16Open p item) (splitName name).1 (splitName name).2
        ⟨disk, 0, []⟩ = .ok ((d, r), t) →
      ∃ N d, ∀ fuel ≥ N, Gives disk (fat16FindEntryInDir true fuel p (__fat16Open p item)
        (splitName name).1 (splitName name).2) (· = (d, r)) := fun hrun =>
    ⟨_, _, fun fuel hle => blind_findEntryInDir fuel ((Below.le (below_findEntryInDir true) hle).ok hrun)⟩
  cases h with
  | file htype =>
    refine ⟨0, __fat16Open p item, fun fuel _ => ?_⟩
    rw [findEntryInDir_file htype]
    exact .pure rfl
  | root hfits =>
    have hlook := (findEntry_iff hp (open_rootDirectory (fat16Probe_root hp).1) _ _ _).mpr hfits
    obtain ⟨fuel, d, t, hrun, -⟩ := hlook ⟨disk, 0, []⟩ rfl
    exact hone hrun
  | directory hchain hfits =>
    have hlook := looksUpChain_of_fits hp hbpc hwhole hchain hfits
    obtain ⟨fuel, d, t, hrun, -⟩ := hlook ⟨disk, 0, []⟩ rfl
    exact hone hrun

/-- With enough fuel `traverse_path` comes to what the path names. -/
theorem Resolves.fuel (hp : fat16Probe ok disk = .ok (.ok p)) (hbpc : 0 < p.bytesPerCluster)
    (hwhole : p.bytesPerCluster % FAT_ENTRY_SIZE = 0) (h : Resolves disk p item names r) :
    ∃ N, ∀ fuel ≥ N, LookupFuel disk p fuel item names ∧ lookupItem disk p fuel item names = r := by
  induction h with
  | here item => exact ⟨0, fun _ _ => ⟨trivial, rfl⟩⟩
  | missing names h =>
    obtain ⟨N, d, hgives⟩ := h.gives hp hbpc hwhole
    refine ⟨N, fun fuel hle => ⟨⟨_, hgives fuel hle, nofun⟩, ?_⟩⟩
    rw [lookupItem_cons (hgives fuel hle)]
    rfl
  | next h _ ih =>
    obtain ⟨N, d, hgives⟩ := h.gives hp hbpc hwhole
    obtain ⟨M, hM⟩ := ih
    refine ⟨max N M, fun fuel hle => ⟨⟨_, hgives fuel (by omega), ?_⟩, ?_⟩⟩
    · rintro found ⟨⟩
      exact (hM fuel (by omega)).1
    · rw [lookupItem_cons (hgives fuel (by omega))]
      exact (hM fuel (by omega)).2

/-- With enough fuel the lookup of a path that names `file` comes to it. -/
theorem Names.fuel {filename mode : List Byte} (hp : fat16Probe ok disk = .ok (.ok p))
    (hbpc : 0 < p.bytesPerCluster)
    (hwhole : p.bytesPerCluster % FAT_ENTRY_SIZE = 0)
    (hnames : Names disk p filename mode r) :
    ∃ N, ∀ fuel ≥ N, Reaches filename mode →
      LookupFuel disk p fuel p.rootDirectory (partsOf filename) ∧
      lookupItem disk p fuel p.rootDirectory (partsOf filename) = r := by
  by_cases hreaches : Reaches filename mode
  · obtain ⟨-, -, hres⟩ := hnames.lookup hreaches
    obtain ⟨N, hN⟩ := hres.fuel hp hbpc hwhole
    exact ⟨N, fun fuel hle _ => hN fuel hle⟩
  · exact ⟨0, fun _ _ h => absurd h hreaches⟩

/-- What the lookup of `fopen` came to is what the path names. -/
theorem Ready.lookupResult {s : Kernel} (h : Ready disk p s) {fuel : Nat} {x : Option FatItem}
    (hfuel : LookupFuel disk p fuel p.rootDirectory names ∧
      lookupItem disk p fuel p.rootDirectory names = r)
    (hx : LookupResult s p fuel p.rootDirectory names x) : r = x := by
  rw [← hfuel.2]
  rw [LookupResult, h.disk_eq] at hx
  exact hx h.answers hfuel.1

end

/-! ## Open files -/

namespace Held

variable {base : Kernel} {s : FileSession} {handle : Word → Handle}

/-- Two open files have two descriptors. -/
theorem descriptor_inj (h : Held base s handle) {o o' : Opened} (ho : o ∈ s.opened)
    (ho' : o' ∈ s.opened) (heq : (handle o.file).descriptor = (handle o'.file).descriptor) :
    o.file = o'.file := by
  have hnodup := (h.blocks.map Block.ptr).nodup_iff.mp h.heap.nodup
  rw [List.map_append, List.map_flatMap] at hnodup
  have hpairs := (List.nodup_flatMap.mp (List.nodup_append.mp hnodup).1).2
  have hmem : ∀ {o : Opened}, o ∈ s.opened →
      (handle o.file).descriptor ∈ o.own.map Block.ptr := fun ho =>
    List.mem_map_of_mem ((h.own _ ho).mem_iff.mpr List.mem_cons_self)
  by_contra hne
  have : Std.Symm (Function.onFun List.Disjoint fun o : Opened => o.own.map Block.ptr) :=
    ⟨fun _ _ h => List.Disjoint.symm h⟩
  have hdisj : List.Disjoint (o.own.map Block.ptr) (o'.own.map Block.ptr) :=
    hpairs.forall ho ho' fun h => hne (congrArg Opened.file h)
  exact hdisj (hmem ho) (heq ▸ hmem ho')

/-- With a slot left, there is one. -/
theorem not_full (h : Held base s handle) (hroom : s.opened.length < MAX_OPEN_FILES) :
    findFreeSlot s.kernel.fileTable MAX_OPEN_FILES 0 ≠ none := by
  intro hnone
  have hused : ∀ {n i : Nat}, findFreeSlot s.kernel.fileTable n i = none →
      ∀ j, i ≤ j → j < i + n → s.kernel.fileTable j ≠ 0 := by
    intro n
    induction n with
    | zero => intro i _ j h₁ h₂; omega
    | succ n ih =>
      intro i hfind j h₁ h₂
      rw [findFreeSlot] at hfind
      split at hfind
      · cases hfind
      · rename_i hne
        rcases Nat.eq_or_lt_of_le h₁ with rfl | h₁
        · exact hne
        · exact ih hfind j h₁ (by omega)
  have hsub : List.range MAX_OPEN_FILES ⊆ s.opened.map fun o => (handle o.file).fileno := by
    intro i hi
    rw [List.mem_range] at hi
    obtain ⟨o, ho, hno⟩ := h.others i hi (hused hnone i (Nat.zero_le i) (by omega))
    exact List.mem_map.mpr ⟨o, ho, hno⟩
  have hle := (List.subperm_of_subset List.nodup_range hsub).length_le
  rw [List.length_map, List.length_range] at hle
  omega

/-- A descriptor is written, and the stream of the disk is moved. -/
theorem setDescriptor {k : Kernel} {opened : List Opened} (h : Held base ⟨k, opened⟩ handle)
    (dev : DiskStream) (a : Word) (d : FatDescriptor) :
    Held base ⟨{ k with dev := dev, descriptors := Function.update k.descriptors a (some d) }, opened⟩
      handle where
  disk_ne := h.disk_ne
  mounted := h.mounted
  heap := ⟨h.heap.sizes, h.heap.nodup⟩
  file := h.file
  own := h.own
  inMemory o ho := by
    have hlinked : ∀ {segs : List Seg} {first : Word}, Linked k first segs → Linked
        { k with dev := dev, descriptors := Function.update k.descriptors a (some d) } first segs := by
      intro segs
      induction segs with
      | nil => exact fun h => h
      | cons g segs ih =>
        rintro first ⟨h₁, h₂, h₃, h₄, next, h₅, h₆⟩
        exact ⟨h₁, h₂, h₃, h₄, next, h₅, ih h₆⟩
    have hat := h.inMemory o ho
    obtain ⟨first, hroot, hfirst⟩ := hat.path.linked
    obtain ⟨hne, d₀, hd₀⟩ := hat.descriptor
    refine ⟨hat.file_ne, hat.file, ⟨hat.path.ne_null, first, hroot, hlinked hfirst⟩, hat.length_lt,
      hne, ?_⟩
    by_cases heq : (handle o.file).descriptor = a
    · exact ⟨d, by rw [heq]; exact Function.update_self ..⟩
    · exact ⟨d₀, (Function.update_of_ne heq ..).trans hd₀⟩
  slot := h.slot
  nodup := h.nodup
  others := h.others
  blocks := h.blocks

end Held

/-! ## One call -/

/-- The open streams of the specification are those of the client, each with a descriptor at its
position. -/
structure ContentsInv {disk : Disk} {p : FatPrivate} (base : Kernel) (s : FileClient)
    (σ : List (OpenStream disk p)) (opened : List Opened) (handle : Word → Handle) : Prop where
  held : Held base ⟨s.kernel, opened⟩ handle
  ready : Ready disk p s.kernel
  files : opened.map Opened.file = s.streams
  streams : σ.map OpenStream.stream = s.streams
  descriptor : ∀ o ∈ σ, ∃ d, s.kernel.descriptors (handle o.stream).descriptor = some d ∧
    o.file.OpenAt d o.pos

namespace ContentsInv

variable {disk : Disk} {p : FatPrivate} {ok : Nat → Bool} {base : Kernel} {s t : FileClient}
  {σ : List (OpenStream disk p)} {opened : List Opened} {handle : Word → Handle}

theorem mem_streams (h : ContentsInv base s σ opened handle) {stream : Word}
    (hmem : stream ∈ s.streams) : ∃ o ∈ σ, o.stream = stream := by
  rw [← h.streams] at hmem
  exact List.mem_map.mp hmem

theorem opened_of_mem (h : ContentsInv base s σ opened handle) {o : OpenStream disk p} (ho : o ∈ σ) :
    ∃ x ∈ opened, x.file = o.stream := by
  have hmem : o.stream ∈ opened.map Opened.file := by
    rw [h.files, ← h.streams]
    exact List.mem_map_of_mem ho
  exact List.mem_map.mp hmem

theorem length_eq (h : ContentsInv base s σ opened handle) : opened.length = σ.length := by
  rw [← List.length_map Opened.file, h.files, ← h.streams, List.length_map]

/-- The streams are different. -/
theorem stream_inj (h : ContentsInv base s σ opened handle) {o o' : OpenStream disk p} (ho : o ∈ σ)
    (ho' : o' ∈ σ) (heq : o.stream = o'.stream) : o = o' := by
  have hnodup : (σ.map OpenStream.stream).Nodup := by
    rw [h.streams, ← h.files]
    exact h.held.nodup
  exact List.inj_on_of_nodup_map hnodup ho ho' heq

/-- An open stream, as `fread` finds it. -/
theorem openFile (h : ContentsInv base s σ opened handle) {o : OpenStream disk p} (ho : o ∈ σ) :
    OpenFile o.file s.kernel o.stream o.pos := by
  obtain ⟨x, hx, heq⟩ := h.opened_of_mem ho
  obtain ⟨d, hd, hat⟩ := h.descriptor o ho
  have hfile := h.held.fileAt hx
  obtain ⟨hlt, hslot⟩ := h.held.slot x hx
  have hin := h.held.inMemory x hx
  have hne : x.file ≠ 0 := h.held.file x hx ▸ hin.file_ne
  rw [heq] at hfile hlt hslot hin hne
  refine ⟨h.ready.mounted, h.ready.disk_eq, hne, _, hfile, h.ready.disk_ne, Int.natCast_nonneg _,
    Int.ofNat_lt.mpr hlt, ?_, hin.descriptor.1, d, hd, hat⟩
  rw [Int.toNat_natCast]
  exact hslot

/-- The kernel has changed, but the descriptors of the open streams are as before. -/
theorem keep (h : ContentsInv base s σ opened handle) {k : Kernel} {opened' : List Opened}
    {handle' : Word → Handle} {σ' : List (OpenStream disk p)} {streams : List Word}
    (hheld : Held base ⟨k, opened'⟩ handle') (hdisk : SameDisk s.kernel k)
    (hfiles : opened'.map Opened.file = streams) (hstreams : σ'.map OpenStream.stream = streams)
    (hsub : ∀ o ∈ σ', o ∈ σ)
    (hkeep : ∀ o ∈ σ', ∀ d, s.kernel.descriptors (handle o.stream).descriptor = some d →
      k.descriptors (handle' o.stream).descriptor = some d) :
    ContentsInv base ⟨k, streams⟩ σ' opened' handle' where
  held := hheld
  ready := hdisk.ready h.ready
  files := hfiles
  streams := hstreams
  descriptor o ho := by
    obtain ⟨d, hd, hat⟩ := h.descriptor o (hsub o ho)
    exact ⟨d, hkeep o ho d hd, hat⟩

section Fopen

variable {filename mode : List Byte} {file : Option (RegularFile disk p)} {r : Word} {k : Kernel}

theorem fopen (h : ContentsInv base s σ opened handle) (hp : fat16Probe ok disk = .ok (.ok p))
    (hbpc : 0 < p.bytesPerCluster) (hwhole : p.bytesPerCluster % FAT_ENTRY_SIZE = 0)
    (hnames : Names disk p filename mode (file.map RegularFile.item)) {N : Nat}
    (hrun : ∀ fuel ≥ N, AvocadOS.fopen fuel filename mode s.kernel = .ok (r, k)) :
    ∃ σ' opened' handle', SpecStep σ (.fopen filename mode r) σ' ∧
      ContentsInv base ⟨k, if r = 0 then s.streams else r :: s.streams⟩ σ' opened' handle' := by
  obtain ⟨M, hM⟩ := hnames.fuel hp hbpc hwhole
  have hfuel := hM (max N M) (Nat.le_max_right N M)
  have hdoes : Does (fun _ => True) (AvocadOS.fopen (max N M) filename mode) s.kernel _ :=
    fopen_finds trivial h.held.heap.sizes h.held.disk_ne (fun _ => trivial)
      (fun _ => .inr trivial) fun _ _ _ _ => .inr fun _ => trivial
  rcases hdoes.post (hrun (max N M) (Nat.le_max_left N M)) with
    ⟨rfl, hg, hnone⟩ | ⟨new, t₀, rfl, hreaches, hmounted, hslot, hat, hfinds, hg, rfl⟩
  · refine ⟨σ, opened, handle, ?_, ?_⟩
    · by_cases hfull : MAX_OPEN_FILES ≤ σ.length
      · exact .full filename mode hfull
      have hfree := h.held.not_full (show opened.length < _ by rw [h.length_eq]; omega)
      have hmissing : file.map RegularFile.item = none := by
        by_cases hreaches : Reaches filename mode
        · exact h.ready.lookupResult (hfuel hreaches) (hnone hreaches (hnames.lookup hreaches).1 hfree p
            h.ready.mounted)
        · exact hnames.other hreaches
      exact .missing (hmissing ▸ hnames)
    · rw [if_pos rfl]
      exact h.keep (h.held.grown hg) (.grown hg) h.files h.streams (fun _ ho => ho)
        fun _ _ _ hd => hg.get descriptors_local hd
  · obtain ⟨-, p', y, hp', hd, hres⟩ := hfinds
    cases h.ready.mounted.symm.trans hp'
    obtain ⟨f, rfl, rfl⟩ := Option.map_eq_some_iff.mp (h.ready.lookupResult (hfuel hreaches) hres)
    have hheld := h.held.fopen_handle hmounted hslot hat hg
    have hnew : new.file ∉ s.streams := by
      rw [← h.files]
      exact (List.nodup_cons.mp hheld.nodup).1
    have hold : ∀ o ∈ σ, o.stream ≠ new.file := by
      rintro o ho heq
      rw [← heq, ← h.streams] at hnew
      exact hnew (List.mem_map_of_mem ho)
    refine ⟨⟨new.file, f, 0⟩ :: σ, _, _, .fopen hnames ?_ hat.file_ne hold, hheld, ?_, ?_, ?_, ?_⟩
    · by_contra hfull
      rw [h.held.full (show MAX_OPEN_FILES ≤ opened.length by rw [h.length_eq]; omega)] at hslot
      cases hslot
    · have hsame := SameDisk.grown hg
      exact SameDisk.ready ⟨hsame.1, hsame.2, hsame.3, hsame.4⟩ h.ready
    · rw [if_neg hat.file_ne, List.map_cons, h.files]
    · rw [if_neg hat.file_ne, List.map_cons, h.streams]
    · intro o ho
      rcases List.mem_cons.mp ho with rfl | ho
      · rw [Function.update_self]
        exact ⟨_, hd, RegularFile.open_item, rfl, Nat.zero_le _, nofun⟩
      · rw [Function.update_of_ne (hold o ho)]
        obtain ⟨d, hd, hat'⟩ := h.descriptor o ho
        exact ⟨d, hg.get descriptors_local hd, hat'⟩

end Fopen

/-- What a read delivers, as `OpenFile.fread_eq` puts it. -/
theorem bytes_eq (o : OpenStream disk p) (len : Nat) :
    (o.bytes len).length = min len (o.file.content.length - o.pos) ∧
      (o.file.content.drop o.pos).take (min len (o.file.content.length - o.pos)) = o.bytes len := by
  refine ⟨by rw [OpenStream.bytes, List.length_take, List.length_drop], ?_⟩
  rw [OpenStream.bytes, List.take_eq_take_iff, List.length_drop]
  omega

/-- A `fread` of an open stream. -/
theorem fread (h : ContentsInv base s σ opened handle) (hp : fat16Probe ok disk = .ok (.ok p))
    (hs : p.header.sectorsPerCluster ≠ 0) {o : OpenStream disk p} (ho : o ∈ σ) {size nmemb : Nat}
    (hlen : size * nmemb < 2 ^ 32) :
    ∃ k, AvocadOS.fread size nmemb o.stream s.kernel =
        .ok (((o.bytes (size * nmemb)).length, o.bytes (size * nmemb)), k) ∧
      ContentsInv base ⟨k, s.streams⟩
        (σ.map fun o' => if o'.stream = o.stream then o'.advance (size * nmemb) else o') opened
        handle := by
  obtain ⟨x, d, dev, hx, hat, hdev, hrun⟩ :=
    (h.openFile ho).fread_eq (fat16Probe_geometry hp) hs hlen
  obtain ⟨hcount, hbytes⟩ := bytes_eq o (size * nmemb)
  rw [hbytes, ← hcount] at hrun
  rw [← hcount] at hat
  -- the descriptor is that of the handle
  obtain ⟨y, hy, heq⟩ := h.opened_of_mem ho
  have hfile := h.held.fileAt hy
  rw [heq, show s.kernel.files o.stream = some x from hx] at hfile
  have hpriv : x.privateData = (handle o.stream).descriptor := by rw [Option.some.inj hfile]
  rw [hpriv] at hrun
  refine ⟨_, hrun, h.held.setDescriptor dev _ d, ⟨h.ready.answers, h.ready.mounted, hdev,
    h.ready.disk_ne⟩, h.files, ?_, ?_⟩
  · rw [← h.streams, List.map_map]
    refine List.map_congr_left fun o' _ => ?_
    rw [Function.comp_apply]
    split <;> rfl
  · intro o' ho'
    obtain ⟨o', hmem, rfl⟩ := List.mem_map.mp ho'
    split
    · rename_i hsame
      obtain rfl := h.stream_inj hmem ho hsame
      exact ⟨d, Function.update_self .., hat⟩
    · rename_i hne
      obtain ⟨d', hd', hat'⟩ := h.descriptor o' hmem
      refine ⟨d', (Function.update_of_ne (fun hdesc => hne ?_) ..).trans hd', hat'⟩
      obtain ⟨y', hy', heq'⟩ := h.opened_of_mem hmem
      rw [← heq, ← heq'] at hdesc ⊢
      exact h.held.descriptor_inj hy' hy hdesc

/-- A `fstat` of the number of an open stream. -/
theorem fstat (h : ContentsInv base s σ opened handle) {o : OpenStream disk p} (ho : o ∈ σ) :
    (do AvocadOS.fstat (← AvocadOS.files.load o.stream).fileno) s.kernel =
      .ok ((0, o.file.content.length), s.kernel) :=
  (h.openFile ho).fstat

/-- An `fclose` of an open stream. -/
theorem fclose (h : ContentsInv base s σ opened handle) {o : OpenStream disk p} (ho : o ∈ σ) :
    ∃ k, AvocadOS.fclose o.stream s.kernel = .ok (0, k) ∧
      ContentsInv base ⟨k, s.streams.eraseP (· = o.stream)⟩ (σ.eraseP (·.stream = o.stream))
        (opened.eraseP (·.file = o.stream)) handle := by
  obtain ⟨x, hx, heq⟩ := h.opened_of_mem ho
  have hmem : o.stream ∈ FileSession.files ⟨s.kernel, opened⟩ := List.mem_map.mpr ⟨x, hx, heq⟩
  obtain ⟨k, hrun, hdisk, hheld, hcells⟩ := h.held.fclose hmem
  have hfiles : (opened.eraseP (·.file = o.stream)).map Opened.file =
      s.streams.eraseP (· = o.stream) := by
    rw [← h.files, List.eraseP_map]
    rfl
  have hstreams : (σ.eraseP (·.stream = o.stream)).map OpenStream.stream =
      s.streams.eraseP (· = o.stream) := by
    rw [← h.streams, List.eraseP_map]
    rfl
  refine ⟨k, hrun, h.keep hheld hdisk hfiles hstreams (fun _ hm => List.mem_of_mem_eraseP hm) ?_⟩
  intro o' ho' d hd
  have hmem : o'.stream ∈ (opened.eraseP (·.file = o.stream)).map Opened.file := by
    rw [hfiles, ← hstreams]
    exact List.mem_map_of_mem ho'
  obtain ⟨x', hx', heq'⟩ := List.mem_map.mp hmem
  rw [← heq'] at hd ⊢
  exact (descriptors_local.get_congr (hcells x' hx' _ List.mem_cons_self)).trans hd

/-- A call of the code is one of the specification. -/
theorem step (h : ContentsInv base s σ opened handle) (hp : fat16Probe ok disk = .ok (.ok p))
    (hbpc : 0 < p.bytesPerCluster) (hwhole : p.bytesPerCluster % FAT_ENTRY_SIZE = 0)
    {event : FileEvent} (hscope : event.InScope disk p) (hstep : FileClient.Step s event t) :
    ∃ σ' opened' handle', SpecStep σ event σ' ∧ ContentsInv base t σ' opened' handle' := by
  have hs := (fat16Probe_geometry hp).sectorsPerCluster_ne_zero hbpc
  cases hstep with
  | fopen hrun =>
    obtain ⟨file, hnames⟩ := hscope
    exact h.fopen hp hbpc hwhole hnames hrun
  | fread hmem hlen hrun =>
    obtain ⟨o, ho, rfl⟩ := h.mem_streams hmem
    obtain ⟨k, hrun', h'⟩ := h.fread hp hs ho hlen
    cases hrun'.symm.trans hrun
    exact ⟨_, _, _, .fread ho _ _, h'⟩
  | fstat hmem hrun =>
    obtain ⟨o, ho, rfl⟩ := h.mem_streams hmem
    cases (h.fstat ho).symm.trans hrun
    exact ⟨_, _, _, .fstat ho, h⟩
  | fclose hmem hrun =>
    obtain ⟨o, ho, rfl⟩ := h.mem_streams hmem
    obtain ⟨k, hrun', h'⟩ := h.fclose ho
    cases hrun'.symm.trans hrun
    exact ⟨_, _, _, .fclose ho, h'⟩

/-- `fopen` returns. -/
theorem fopen_returns (h : ContentsInv base s σ opened handle)
    (hp : fat16Probe ok disk = .ok (.ok p)) (hbpc : 0 < p.bytesPerCluster)
    (hwhole : p.bytesPerCluster % FAT_ENTRY_SIZE = 0) {filename mode : List Byte}
    {file : Option (RegularFile disk p)}
    (hnames : Names disk p filename mode (file.map RegularFile.item)) :
    ∃ N, (∀ fuel ≥ N, AvocadOS.fopen fuel filename mode s.kernel = .error .misallocated) ∨
      ∃ r k, ∀ fuel ≥ N, AvocadOS.fopen fuel filename mode s.kernel = .ok (r, k) := by
  obtain ⟨N, hN⟩ := hnames.fuel hp hbpc hwhole
  have hmore : ∀ fuel ≥ N, Below .hang (AvocadOS.fopen N filename mode)
      (AvocadOS.fopen fuel filename mode) := fun fuel hle =>
    Below.le (fun n => below_fopen n filename mode) hle
  have hdoes : Does (· = .misallocated) (AvocadOS.fopen N filename mode) s.kernel _ :=
    fopen_finds (E := (· = .misallocated)) rfl h.held.heap.sizes h.held.disk_ne
      (fun hno => absurd (.of_all h.ready.answers _ _) hno)
      (fun hreaches => .inl (hnames.lookup hreaches).1) fun hreaches _ p' hp' => by
        cases h.ready.mounted.symm.trans hp'
        refine .inl ⟨h.ready.answers, (hnames.lookup hreaches).2.1, ?_⟩
        rw [h.ready.disk_eq]
        exact (hN N (Nat.le_refl N) hreaches).1
  refine ⟨N, ?_⟩
  rcases hdoes with ⟨_, hrun, rfl⟩ | ⟨r, k, hrun, -⟩
  · left
    intro fuel hle
    rw [hmore fuel hle s.kernel (by rw [hrun]; exact fun h => by cases h), hrun]
  · exact .inr ⟨r, k, fun fuel hle => (hmore fuel hle).ok hrun⟩

end ContentsInv

/-! ## Sequences of calls -/

namespace FileClient

variable {disk : Disk} {p : FatPrivate} {ok : Nat → Bool} {base : Kernel} {s : FileClient}

/-- Without open files. -/
theorem start (hready : Ready disk p base) (hheap : base.HeapOk)
    (hempty : ∀ i < MAX_OPEN_FILES, base.fileTable i = 0) :
    ContentsInv base ⟨base, []⟩ ([] : List (OpenStream disk p)) [] fun _ => ⟨0, 0, [], 0, 0⟩ :=
  ⟨FileSession.held_empty hready.disk_ne hheap hempty, hready, rfl, rfl, by simp⟩

/-- The next call returns. -/
structure Responds (disk : Disk) (p : FatPrivate) (s : FileClient) : Prop where
  fopen : ∀ filename mode, FileEvent.InScope disk p (.fopen filename mode 0) → ∃ N,
    (∀ fuel ≥ N, AvocadOS.fopen fuel filename mode s.kernel = .error .misallocated) ∨
      ∃ r t, Step s (.fopen filename mode r) t
  fread : ∀ stream ∈ s.streams, ∀ size nmemb, size * nmemb < 2 ^ 32 →
    ∃ n bytes t, Step s (.fread stream size nmemb n bytes) t
  fstat : ∀ stream ∈ s.streams, ∃ res size t, Step s (.fstat stream res size) t
  fclose : ∀ stream ∈ s.streams, ∃ res t, Step s (.fclose stream res) t

theorem responds {σ : List (OpenStream disk p)} {opened : List Opened} {handle : Word → Handle}
    (h : ContentsInv base s σ opened handle) (hprobe : fat16Probe ok disk = .ok (.ok p))
    (hbpc : 0 < p.bytesPerCluster) (hwhole : p.bytesPerCluster % FAT_ENTRY_SIZE = 0) :
    s.Responds disk p := by
  have hs := (fat16Probe_geometry hprobe).sectorsPerCluster_ne_zero hbpc
  refine ⟨?_, ?_, ?_, ?_⟩
  · rintro filename mode ⟨file, hnames⟩
    obtain ⟨N, hno | ⟨r, k, hyes⟩⟩ := h.fopen_returns hprobe hbpc hwhole hnames
    · exact ⟨N, .inl hno⟩
    · exact ⟨N, .inr ⟨r, _, .fopen hyes⟩⟩
  · intro stream hmem size nmemb hlen
    obtain ⟨o, ho, rfl⟩ := h.mem_streams hmem
    obtain ⟨k, hrun, -⟩ := h.fread hprobe hs ho hlen
    exact ⟨_, _, _, .fread hmem hlen hrun⟩
  · intro stream hmem
    obtain ⟨o, ho, rfl⟩ := h.mem_streams hmem
    exact ⟨_, _, _, .fstat hmem (h.fstat ho)⟩
  · intro stream hmem
    obtain ⟨o, ho, rfl⟩ := h.mem_streams hmem
    obtain ⟨k, hrun, -⟩ := h.fclose ho
    exact ⟨_, _, .fclose hmem hrun⟩

/-- On an accepted volume of whole slots, from a state without open files: every sequence of calls is
one of the specification, with the same results, and the next call returns. The paths that are opened
name regular files or nothing, in directories that the driver scans right. -/
theorem runs_refine (hprobe : fat16Probe ok disk = .ok (.ok p)) (hbpc : 0 < p.bytesPerCluster)
    (hwhole : p.bytesPerCluster % FAT_ENTRY_SIZE = 0) (hready : Ready disk p base)
    (hheap : base.HeapOk) (hempty : ∀ i < MAX_OPEN_FILES, base.fileTable i = 0)
    {events : List FileEvent}
    (hrun : Runs (fun s e t => e.InScope disk p ∧ Step s e t) ⟨base, []⟩ events s) :
    ∃ σ : List (OpenStream disk p), Runs SpecStep [] events σ ∧
      σ.map OpenStream.stream = s.streams ∧ s.Responds disk p := by
  obtain ⟨σ, hruns, opened, handle, h⟩ := hrun.simulates
    (fun s σ => ∃ opened handle, ContentsInv base s σ opened handle) (fun e => [e])
    (fun s e t σ ⟨_, _, h⟩ hstep => by
      obtain ⟨σ', opened', handle', hspec, h'⟩ := h.step hprobe hbpc hwhole hstep.1 hstep.2
      exact ⟨σ', .cons hspec (.nil _), opened', handle', h'⟩)
    ⟨_, _, start hready hheap hempty⟩
  rw [List.flatMap_singleton'] at hruns
  exact ⟨σ, hruns, h.streams, responds h hprobe hbpc hwhole⟩

/-! A volume whose root directory has the file `A`, of three bytes in cluster 2. -/

def noteDisk : Disk where
  bytes a :=
    if a = 30 * 512 + 4 ∨ a = 30 * 512 + 5 then 0xFF   -- the FAT entry of cluster 2
    else if a = 31 * 512 + 26 then 2
    else if a = 31 * 512 + 28 then 3
    else if 32 * 512 ≤ a then BitVec.ofNat 8 a
    else (oneFileDisk 30).bytes a

def noteVolume : FatPrivate := .ofHeader (.ofBytes (noteDisk.slice 0 FAT_HEADER_SIZE))

def noteKernel : Kernel :=
  { FileSession.fullKernel with fsPrivate := some noteVolume, dev := ⟨noteDisk, 0, []⟩ }

theorem noteKernel_probe : fat16Probe (fun _ => true) noteDisk = .ok (.ok noteVolume) :=
  fat16Probe_accepts (by decide) (by decide) (by decide)

theorem noteKernel_ready : Ready noteDisk noteVolume noteKernel where
  answers := FileSession.fullKernel_ready.answers
  mounted := rfl
  disk_eq := rfl
  disk_ne := by decide

theorem cluster_two : 2 ≤ 2 ∧ 2 < FAT16_CLUSTER_RESERVED := by decide

def noteFile : RegularFile noteDisk noteVolume :=
  .ofCluster noteVolume.rootDirectory (slotAt noteDisk (rootSlotAddr noteVolume 0)) 1 2
    (by decide) (by decide) cluster_two (by decide) (by decide) (by decide) (by decide) (by decide)

/-- The root directory has it under its name. -/
theorem noteVolume_names : Names noteDisk noteVolume (ascii "0:/A") (ascii "r")
    (some noteFile.item) := by
  have hlookup : rootLookup noteDisk noteVolume (splitName (ascii "A")).1 (splitName (ascii "A")).2 =
      (1, some 0) := by decide
  have hentry : DirEntry noteDisk noteVolume noteVolume.rootDirectory (ascii "A")
      (some noteFile.item) := by
    refine (DirEntry.root ?_ : DirEntry noteDisk noteVolume _ (ascii "A")
      ((rootLookup noteDisk noteVolume _ _).2.map _))
    refine ⟨by decide, by rw [hlookup]; decide, by rw [hlookup]; decide, ?_, fun _ => rfl⟩
    rw [hlookup]
    exact ⟨by decide, show FAT_ENTRY_SIZE * 1 ≤ noteVolume.dataSector by decide⟩
  have hparts : partsOf (ascii "0:/A") = [ascii "A"] := by decide
  refine ⟨fun _ => ⟨by decide, by decide, ?_⟩, fun hno => absurd ?_ hno⟩
  · rw [hparts]
    exact .next hentry (.here _)
  · exact ⟨by decide, by decide, by rw [hparts]; decide⟩

/-- The file is opened, and two of its bytes are read. -/
theorem runs_refine_open_and_read : ∃ (n : Nat) (bytes : List Byte)
    (σ : List (OpenStream noteDisk noteVolume)),
    Runs SpecStep [] [.fopen (ascii "0:/A") (ascii "r") 0xC0203000, .fread 0xC0203000 1 2 n bytes] σ ∧
      σ.map OpenStream.stream = [0xC0203000] := by
  have hfst : (fopen 10 (ascii "0:/A") (ascii "r") noteKernel).toOption.map Prod.fst =
      some 0xC0203000 := by decide +kernel
  obtain ⟨⟨_, k⟩, hk, rfl⟩ := Option.map_eq_some_iff.mp hfst
  have hrun := ok_of_toOption hk
  have hopen : Step ⟨noteKernel, []⟩ (.fopen (ascii "0:/A") (ascii "r") 0xC0203000)
      ⟨k, [0xC0203000]⟩ :=
    .fopen fun fuel hle => (Below.le (fun n => below_fopen n _ _) hle).ok hrun
  have hscope : FileEvent.InScope noteDisk noteVolume
      (.fopen (ascii "0:/A") (ascii "r") 0xC0203000) := ⟨some noteFile, noteVolume_names⟩
  have hrefine : ∀ {events : List FileEvent} {s : FileClient}, _ := fun {events s} =>
    @runs_refine noteDisk noteVolume (fun _ => true) noteKernel s noteKernel_probe (by decide)
      (by decide) noteKernel_ready ⟨FileSession.fullKernel_heap.sizes, .nil⟩ (fun _ _ => rfl) events
  obtain ⟨-, -, -, hresponds⟩ := hrefine (.cons ⟨hscope, hopen⟩ (.nil _))
  obtain ⟨n, bytes, t, hread⟩ := hresponds.fread _ List.mem_cons_self 1 2 (by decide)
  have hread' : FileEvent.InScope noteDisk noteVolume (.fread 0xC0203000 1 2 n bytes) ∧ _ :=
    ⟨trivial, hread⟩
  obtain ⟨σ, hspec, hstreams, -⟩ := hrefine (.cons ⟨hscope, hopen⟩ (.cons hread' (.nil _)))
  refine ⟨n, bytes, σ, hspec, hstreams.trans ?_⟩
  cases hread
  rfl

end FileClient

end AvocadOS
