import AvocadOS.Fs.Paths
import AvocadOS.Fat16.Ends

/-!
# Looking up a path

`traverse_path` goes down the directories of a path, one scan for each part. `LookupEnds` says that
these scans end; `traversePath` then returns an item or NULL, and every item and descriptor on the
way is freed.

* `lookupEnds_fuel`: one amount of fuel is enough for the whole path, whatever else used the stream;
* `fat16OpenItem_does`, `fat16FindEntry_does`, `traverseParts_does`, `fat16Open_does`: what each
  function keeps.
-/

namespace AvocadOS

open Kernel

set_option linter.style.nameCheck false

/-! ## Components -/

/-- The name and the extension that `fat16_split_entry_name` finds. -/
def splitName (name : List Byte) : List Byte × List Byte :=
  let len := strnlen name 12
  let point := (name.take len).findIdx (· = 0x2E)
  let copy (src : List Byte) (n : Nat) : List Byte := src ++ List.replicate (n - src.length) 0x20
  (copy (name.take point) 8, copy ((name.take len).drop (point + 1)) 3)

/-- The component is within 8.3. -/
def Fits (name : List Byte) : Prop :=
  let len := strnlen name 12
  let point := (name.take len).findIdx (· = 0x2E)
  (name.take point).length ≤ 8 ∧ ((name.take len).drop (point + 1)).length ≤ 3

instance (name : List Byte) : Decidable (Fits name) := inferInstanceAs (Decidable (_ ∧ _))

theorem fat16SplitEntryName_eq {name : List Byte} (h : Fits name) (s : Kernel) :
    fat16SplitEntryName name s = .ok (splitName name, s) := by
  rw [Fits] at h
  rw [fat16SplitEntryName]
  dsimp only at h ⊢
  rw [if_pos h]
  rfl

theorem fat16SplitEntryName_does {E : Fault → Prop} {name : List Byte} {u : Kernel}
    (h : Fits name ∨ ∀ e, E e) : Does E (fat16SplitEntryName name) u fun r t =>
      r = splitName name ∧ t = u := by
  by_cases hfits : Fits name
  · exact .of_eq (fat16SplitEntryName_eq hfits u) ⟨rfl, rfl⟩
  · refine .inl ⟨.outOfBounds, ?_, h.resolve_left hfits _⟩
    rw [Fits] at hfits
    rw [fat16SplitEntryName]
    dsimp only at hfits ⊢
    rw [if_neg hfits]

/-! ## Scans -/

section Scan

variable {disk : Disk} {p : FatPrivate} {d : FatDescriptor} {filename extension : List Byte}

theorem blind_findEntryLoop (name ext : List Byte) : ∀ (fuel : Nat) (d : FatDescriptor)
    (e : FatEntry) (j : Nat), Blind (findEntryLoop p name ext fuel d e j) := by
  intro fuel
  induction fuel with
  | zero => exact fun _ _ _ => .throw _
  | succ fuel ih =>
    intro d e j
    rw [findEntryLoop]
    refine .ite (.pure _) (.bind (blind_readLoop _ _ _ _) fun r => ?_)
    exact .ite (.pure _) (.ite (ih _ _ _) (.ite (.pure _) (.ite (ih _ _ _) (.pure _))))

theorem blind_findEntryInDir (fuel : Nat) :
    Blind (fat16FindEntryInDir true fuel p d filename extension) := by
  rw [fat16FindEntryInDir]
  refine .ite (.pure _) (.bind (blind_findEntryLoop _ _ _ _ _ _) fun r => ?_)
  obtain ⟨d', found⟩ := r
  cases found with
  | none => exact .pure _
  | some x => exact .pure _

/-- A scan that ends finds the same with enough fuel, from any position of the stream. -/
theorem scan_gives {ok : Nat → Bool} (hp : fat16Probe ok disk = .ok (.ok p))
    (hs : p.header.sectorsPerCluster ≠ 0) (hd : d.item = p.rootDirectory ∨ d.item.type = .directory)
    (h : ScanEnds disk p d.item .zero (findStops filename extension)) :
    ∃ N r, ∀ fuel ≥ N, Gives disk (fat16FindEntryInDir true fuel p d filename extension) (· = r) := by
  obtain ⟨N, ⟨r, t⟩, hrun⟩ :=
    (findEntryInDir_terminates_iff hp hs hd filename extension true).mpr h ⟨disk, 0, []⟩ rfl
  exact ⟨N, r, fun fuel hle => blind_findEntryInDir fuel
    ((Below.le (below_findEntryInDir true) hle).ok hrun)⟩

end Scan

/-! ## The scans of a path -/

section Lookup

variable {disk : Disk} {p : FatPrivate} {item : FatItem} {names : List (List Byte)}

/-- The scans of `traverse_path` end: at each directory on the way, the one for the next part. -/
def LookupEnds (disk : Disk) (p : FatPrivate) : FatItem → List (List Byte) → Prop
  | _, [] => True
  | item, name :: names =>
    let d := __fat16Open p item
    d.item.type = .file ∨
      ScanEnds disk p d.item .zero (findStops (splitName name).1 (splitName name).2) ∧
      ∀ fuel d' found t, fat16FindEntryInDir true fuel p d (splitName name).1 (splitName name).2
        ⟨disk, 0, []⟩ = .ok ((d', some found), t) → LookupEnds disk p found names

/-- `fuel` is enough for them. -/
def LookupFuel (disk : Disk) (p : FatPrivate) (fuel : Nat) : FatItem → List (List Byte) → Prop
  | _, [] => True
  | item, name :: names => ∃ r,
    Gives disk (fat16FindEntryInDir true fuel p (__fat16Open p item) (splitName name).1
      (splitName name).2) (· = r) ∧
    ∀ found, r.2 = some found → LookupFuel disk p fuel found names

/-- What the scans come to: the item of the last part, or `none` where a part is not found. -/
def lookupItem (disk : Disk) (p : FatPrivate) (fuel : Nat) :
    FatItem → List (List Byte) → Option FatItem
  | item, [] => some item
  | item, name :: names =>
    match fat16FindEntryInDir true fuel p (__fat16Open p item) (splitName name).1 (splitName name).2
        ⟨disk, 0, []⟩ with
    | .ok ((_, some found), _) => lookupItem disk p fuel found names
    | _ => none

theorem lookupItem_cons {fuel : Nat} {name : List Byte} {r : FatDescriptor × Option FatItem}
    (h : Gives disk (fat16FindEntryInDir true fuel p (__fat16Open p item) (splitName name).1
      (splitName name).2) (· = r)) :
    lookupItem disk p fuel item (name :: names) =
      r.2.bind fun found => lookupItem disk p fuel found names := by
  obtain ⟨r, t, hrun, -, rfl⟩ := h ⟨disk, 0, []⟩ rfl
  obtain ⟨d, found⟩ := r
  rw [lookupItem, hrun]
  cases found <;> rfl

/-- An item of the volume: the root directory, or one that a scan found. -/
def OnVolume (p : FatPrivate) (item : FatItem) : Prop :=
  item = p.rootDirectory ∨ item.type ≠ .rootDirectory

theorem OnVolume.ofEntry (dir : FatItem) (entry : FatEntry) (dirPos : Nat) :
    OnVolume p (.ofEntry p dir entry dirPos) := by
  refine .inr ?_
  simp only [FatItem.ofEntry]
  split <;> simp

/-- What a scan finds is an item of the volume. -/
theorem found_onVolume {fuel : Nat} {d d' : FatDescriptor} {filename extension : List Byte}
    {s t : DiskStream}
    (h : fat16FindEntryInDir true fuel p d filename extension s = .ok ((d', some item), t)) :
    OnVolume p item := by
  rw [fat16FindEntryInDir] at h
  split at h
  · cases h
  · simp only [Bind.bind, StateT.bind, Except.bind] at h
    split at h
    · cases h
    · rename_i r _
      obtain ⟨⟨d₁, found⟩, u⟩ := r
      cases found with
      | none => cases h
      | some x =>
        cases h
        exact .ofEntry _ _ _

theorem OnVolume.open_cases (hroot : p.rootDirectory.type = .rootDirectory) (h : OnVolume p item) :
    (__fat16Open p item).item.type = .file ∨ (__fat16Open p item).item = p.rootDirectory ∨
      (__fat16Open p item).item.type = .directory := by
  rcases h with rfl | h
  · refine .inr (.inl ?_)
    simp only [__fat16Open, fat16ItemIsRootDir, hroot, __fat16ResetCursors, beq_self_eq_true,
      Bool.and_self, if_true]
    rw [← hroot]
  · have hnot : fat16ItemIsRootDir p item = false := by
      simp [fat16ItemIsRootDir, h]
    simp only [__fat16Open, hnot, Bool.false_eq_true, if_false]
    split
    · exact .inr (.inr rfl)
    · exact .inl rfl

/-- A scan of a file finds nothing. -/
theorem findEntryInDir_file {d : FatDescriptor} (h : d.item.type = .file) (fuel : Nat)
    (filename extension : List Byte) :
    fat16FindEntryInDir true fuel p d filename extension = pure (d, none) := by
  rw [fat16FindEntryInDir, if_pos (by simp [h])]

/-- Without clusters, nothing is found in the root directory. -/
theorem lookupFuel_noClusters (hroot : p.rootDirectory.type = .rootDirectory)
    (hbpc : p.bytesPerCluster = 0) (fuel : Nat) (names : List (List Byte)) :
    LookupFuel disk p (fuel + 1) p.rootDirectory names := by
  cases names with
  | nil => exact trivial
  | cons name names =>
    have hdir : ¬ ((__fat16Open p p.rootDirectory).item.type ≠ .directory ∧
        (__fat16Open p p.rootDirectory).item.type ≠ .rootDirectory) := by
      simp [__fat16Open, fat16ItemIsRootDir, hroot]
    obtain ⟨t, hread, -⟩ := @readLoop_nothing p
      (__fat16ResetCursors (__fat16Open p p.rootDirectory)) ⟨disk, 0, []⟩ 31 [] rfl hbpc.symm
      (by decide)
    change __fat16Read p _ FAT_ENTRY_SIZE _ = _ at hread
    have hloop : ∃ d, findEntryLoop p (padded (splitName name).1 8) (padded (splitName name).2 3)
        (fuel + 1) (__fat16ResetCursors (__fat16Open p p.rootDirectory)) .zero 0 ⟨disk, 0, []⟩ =
          .ok ((d, none), t) := by
      rw [findEntryLoop, if_neg (by simp [__fat16ResetCursors]), bind_eq hread]
      have hlfn : (FatEntry.zero.overlay []).isLfnOrLabel = false := by decide
      have hend : charAt (FatEntry.zero.overlay []).filename 0 = 0 := by decide
      dsimp only
      rw [if_neg (by decide), if_neg (by rw [hlfn]; decide), if_pos hend]
      exact ⟨_, rfl⟩
    obtain ⟨d, hloop⟩ := hloop
    have hrun : fat16FindEntryInDir true (fuel + 1) p (__fat16Open p p.rootDirectory)
        (splitName name).1 (splitName name).2 ⟨disk, 0, []⟩ =
          .ok ((__fat16ResetCursors d, none), t) := by
      rw [fat16FindEntryInDir, if_neg hdir]
      exact bind_eq hloop
    exact ⟨_, blind_findEntryInDir _ hrun, fun found hfound => by cases hfound⟩

/-- One amount of fuel is enough for the whole path. -/
theorem lookupEnds_fuel {ok : Nat → Bool} (hp : fat16Probe ok disk = .ok (.ok p))
    (hs : p.header.sectorsPerCluster ≠ 0) (hitem : OnVolume p item)
    (h : LookupEnds disk p item names) : ∃ N, ∀ fuel ≥ N, LookupFuel disk p fuel item names := by
  induction names generalizing item with
  | nil => exact ⟨0, fun _ _ => trivial⟩
  | cons name names ih =>
    rcases Classical.em ((__fat16Open p item).item.type = .file) with hfile | hdir
    · refine ⟨0, fun fuel _ => ⟨(__fat16Open p item, none), ?_, fun found hr => by cases hr⟩⟩
      rw [findEntryInDir_file hfile]
      exact .pure rfl
    · obtain ⟨hends, hrest⟩ := h.resolve_left hdir
      have hd := (hitem.open_cases (fat16Probe_root hp).1).resolve_left hdir
      obtain ⟨N, ⟨d', found⟩, hgives⟩ := scan_gives hp hs hd hends
      cases found with
      | none => exact ⟨N, fun fuel hle => ⟨_, hgives fuel hle, fun found hr => by cases hr⟩⟩
      | some found =>
        obtain ⟨r, t, hrun, -, rfl⟩ := hgives N (Nat.le_refl N) ⟨disk, 0, []⟩ rfl
        obtain ⟨M, hM⟩ := ih (found_onVolume hrun) (hrest N d' found t hrun)
        refine ⟨max N M, fun fuel hle => ⟨_, hgives fuel (by omega), fun found' hr => ?_⟩⟩
        cases hr
        exact hM fuel (by omega)

theorem rootLookup_fuel {ok : Nat → Bool} (hp : fat16Probe ok disk = .ok (.ok p))
    (h : LookupEnds disk p p.rootDirectory names) :
    ∃ N, ∀ fuel ≥ N, LookupFuel disk p fuel p.rootDirectory names := by
  by_cases hs : p.header.sectorsPerCluster = 0
  · have hbpc : p.bytesPerCluster = 0 := by rw [(fat16Probe_geometry hp).bytesPerCluster, hs, Nat.mul_zero]
    refine ⟨1, fun fuel hle => ?_⟩
    obtain ⟨fuel, rfl⟩ := Nat.exists_eq_add_one_of_ne_zero (Nat.ne_of_gt hle)
    exact lookupFuel_noClusters (fat16Probe_root hp).1 hbpc fuel names
  · exact lookupEnds_fuel hp hs (.inl rfl) h

end Lookup

/-! ## More fuel changes nothing -/

theorem below_onDev {α : Type} {m m' : DevM α} (h : Below .hang m m') :
    Below .hang (onDev m) (onDev m') := by
  intro s hs
  simp only [onDev] at hs ⊢
  rw [h s.dev fun heq => hs (by rw [heq])]

theorem below_fat16FindEntry (fuel : Nat) (descriptor : Word) (filename extension : List Byte) :
    Below .hang (fat16FindEntry fuel descriptor filename extension)
      (fat16FindEntry (fuel + 1) descriptor filename extension) := by
  rw [fat16FindEntry, fat16FindEntry]
  refine .bind (.refl _) fun p _ _ _ => .bind (.refl _) fun d _ _ _ => .ite (.refl _) ?_
  exact .bind (below_onDev (below_findEntryLoop _ _ _ _)) fun _ _ _ _ => .refl _

theorem below_traverseParts (fuel : Nat) : ∀ (n : Nat) (item path : Word),
    Below .hang (traverseParts fuel n item path) (traverseParts (fuel + 1) n item path) := by
  intro n
  induction n with
  | zero => exact fun _ _ => .refl _
  | succ n ih =>
    intro item path
    rw [traverseParts, traverseParts]
    refine .ite (.refl _) (.bind (.refl _) fun folder _ _ _ => .bind (.refl _) fun _ _ _ _ => ?_)
    refine .ite (.refl _) (.bind (.refl _) fun part _ _ _ => .bind (.refl _) fun name _ _ _ => ?_)
    refine .bind (.refl _) fun x _ _ _ => .bind (below_fat16FindEntry _ _ _ _) fun item' _ _ _ => ?_
    refine .bind (.refl _) fun _ _ _ _ => .ite (.refl _) ?_
    exact .bind (.refl _) fun _ _ _ _ => ih _ _

theorem below_fat16Open (fuel : Nat) (path : Word) :
    Below .hang (fat16Open fuel path) (fat16Open (fuel + 1) path) := by
  rw [fat16Open, fat16Open, traversePath, traversePath]
  refine .bind (.bind (.refl _) fun _ _ _ _ => .bind (.refl _) fun _ _ _ _ => ?_)
    fun _ _ _ _ => .refl _
  exact .bind (.refl _) fun _ _ _ _ => below_traverseParts _ _ _ _

/-! ## What the functions keep -/

section Does

variable {s u : Kernel} {own : List Block} {disk : Disk} {p : FatPrivate} {fuel : Nat}
  {E : Fault → Prop}

theorem fsPrivate_eq (h : u.fsPrivate = some p) : fsPrivate u = .ok (p, u) := by
  rw [fsPrivate, bind_get_eq, h]
  rfl

/-- A descriptor is allocated and filled, or the request is refused. -/
theorem fat16OpenItem_does (hE : E .misallocated) (hg : Grown s u own)
    (hp : s.fsPrivate = some p) {item : Word} {x : FatItem} (hne : item ≠ 0)
    (hx : u.items item = some x) :
    Does E (fat16OpenItem item) u fun d t => (d = 0 ∧ Grown s t own ∧ ∃ n, s.answers n = 0) ∨
      (d ≠ 0 ∧ Grown s t (⟨d, fatDescriptorSize⟩ :: own) ∧
        t.descriptors d = some (__fat16Open p x)) := by
  refine (hg.alloc_cases hE descriptors_local (by decide) .zero).seq ?_
  rintro d u₁ ⟨-, ⟨rfl, hzero, hg₁, -⟩ | ⟨hd, -, hnew, hg₁, hd₁, he₁⟩⟩
  · exact .pure (.inl ⟨rfl, hg₁, _, hzero⟩)
  have hx₁ : u₁.items item = some x :=
    (items_local.get_congr (he₁ _ (hnew.ne items_local hx))).trans hx
  rw [if_neg hd]
  refine .step (Store.load_eq hne hx₁) (.step (fsPrivate_eq (hg₁.fsPrivate_eq.trans hp)) ?_)
  refine (hg₁.modify descriptors_local (by simp) hd hd₁ _).seq fun _ t ⟨hgt, hdt, _⟩ => ?_
  exact .pure (.inr ⟨hd, hgt, hdt⟩)

/-- A scan on a descriptor of the heap returns an item of its own, or NULL. -/
theorem fat16FindEntry_does (hE : E .misallocated) (hg : Grown s u own)
    (hp : s.fsPrivate = some p) {folder : Word} {d : FatDescriptor}
    {filename extension : List Byte} (hmem : folder ∈ own.map Block.ptr) (hne : folder ≠ 0)
    (hd : u.descriptors folder = some d)
    (hscan : (∃ r, Gives s.dev.disk (fat16FindEntryInDir true fuel p d filename extension) (· = r)) ∨
      ∀ e, E e) :
    Does E (fat16FindEntry fuel folder filename extension) u fun item t =>
      (item = 0 ∧ Grown s t own ∧ ((∀ n, s.answers n ≠ 0) → ∀ r, Gives s.dev.disk
        (fat16FindEntryInDir true fuel p d filename extension) (· = r) → r.2 = none)) ∨
      ∃ x, item ≠ 0 ∧ Grown s t (⟨item, fatItemSize⟩ :: own) ∧
        t.items item = some x ∧ ∀ r, Gives s.dev.disk
          (fat16FindEntryInDir true fuel p d filename extension) (· = r) → r.2 = some x := by
  refine .step (fsPrivate_eq (hg.fsPrivate_eq.trans hp)) (.step (Store.load_eq hne hd) ?_)
  by_cases htype : d.item.type ≠ .directory ∧ d.item.type ≠ .rootDirectory
  · rw [if_pos htype]
    refine .pure (.inl ⟨rfl, hg, fun _ r hgives => ?_⟩)
    obtain ⟨_, _, hrun, -, rfl⟩ := hgives u.dev hg.disk_eq
    rw [fat16FindEntryInDir, if_pos htype] at hrun
    cases hrun
    rfl
  rw [if_neg htype]
  cases hloop : findEntryLoop p (padded filename 8) (padded extension 3) fuel
      (__fat16ResetCursors d) .zero 0 u.dev with
  | error e =>
    refine .bind (.inl ⟨e, by simp only [onDev, hloop], ?_⟩)
    rcases hscan with ⟨r, hgives⟩ | hall
    · obtain ⟨_, _, hrun, -⟩ := hgives u.dev hg.disk_eq
      rw [fat16FindEntryInDir, if_neg htype] at hrun
      simp only [Bind.bind, StateT.bind, Except.bind, hloop] at hrun
      cases hrun
    · exact hall e
  | ok x =>
    obtain ⟨⟨d₁, found⟩, dev₁⟩ := x
    have hg₁ := hg.setDev (((blind_findEntryLoop _ _ _ _ _ _).disk_eq hloop).trans hg.disk_eq)
    refine .step (onDev_eq hloop) ?_
    cases found with
    | none =>
      refine (hg₁.modify descriptors_local hmem hne hd _).seq ?_
      rintro - t ⟨hgt, -⟩
      refine .pure (.inl ⟨rfl, hgt, fun _ r hgives => ?_⟩)
      obtain ⟨_, _, hrun, -, rfl⟩ := hgives u.dev hg.disk_eq
      rw [fat16FindEntryInDir, if_neg htype] at hrun
      simp only [Bind.bind, StateT.bind, Except.bind, hloop] at hrun
      cases hrun
      rfl
    | some found =>
      refine (hg₁.alloc_cases hE items_local (by decide) .zero).seq ?_
      rintro item u₂ ⟨-, ⟨rfl, hzero, hg₂, hsame₂⟩ | ⟨hitem, -, hnew, hg₂, hitem₂, he₂⟩⟩
      · rw [if_pos rfl]
        have hd₂ : u₂.descriptors folder = some d := (descriptors_local.get_congr (hsame₂ _)).trans hd
        refine (hg₂.modify descriptors_local hmem hne hd₂ _).seq ?_
        rintro - t ⟨hgt, -⟩
        exact .pure (.inl ⟨rfl, hgt, fun hans => absurd hzero (hans _)⟩)
      rw [if_neg hitem]
      refine (hg₂.modify items_local (by simp) hitem hitem₂ _).seq ?_
      rintro - u₃ ⟨hg₃, hitem₃, he₃, -⟩
      have hfolder : folder ≠ item := hnew.ne descriptors_local hd
      have hd₃ : u₃.descriptors folder = some d :=
        (descriptors_local.get_congr (he₃ _ hfolder)).trans
          ((descriptors_local.get_congr (he₂ _ hfolder)).trans hd)
      refine (hg₃.modify descriptors_local (List.mem_cons_of_mem _ hmem) hne hd₃ _).seq ?_
      rintro - t ⟨hgt, -, het, -⟩
      refine .pure (.inr ⟨_, hitem, hgt, (items_local.get_congr (het _ hfolder.symm)).trans hitem₃,
        fun r hgives => ?_⟩)
      obtain ⟨_, _, hrun, -, rfl⟩ := hgives u.dev hg.disk_eq
      rw [fat16FindEntryInDir, if_neg htype] at hrun
      simp only [Bind.bind, StateT.bind, Except.bind, hloop] at hrun
      cases hrun
      rfl

/-- A lookup ends, and no request on the way is refused; or any error is allowed. -/
def LookupOk (E : Fault → Prop) (s : Kernel) (p : FatPrivate) (fuel : Nat) (item : FatItem)
    (names : List (List Byte)) : Prop :=
  ((∀ n, s.answers n ≠ 0) ∧ (∀ name ∈ names, Fits name) ∧
    LookupFuel s.dev.disk p fuel item names) ∨ ∀ e, E e

/-- `r` is what the scans come to, if they end and no request is refused. -/
def LookupResult (s : Kernel) (p : FatPrivate) (fuel : Nat) (item : FatItem)
    (names : List (List Byte)) (r : Option FatItem) : Prop :=
  (∀ n, s.answers n ≠ 0) → LookupFuel s.dev.disk p fuel item names →
    lookupItem s.dev.disk p fuel item names = r

/-- The first scan, and the rest. -/
theorem LookupResult.cons {item : FatItem} {name : List Byte} {names : List (List Byte)}
    {found r : Option FatItem}
    (hfound : (∀ n, s.answers n ≠ 0) → ∀ x, Gives s.dev.disk (fat16FindEntryInDir true fuel p
      (__fat16Open p item) (splitName name).1 (splitName name).2) (· = x) → x.2 = found)
    (hrest : match found with
      | none => r = none
      | some y => LookupResult s p fuel y names r) :
    LookupResult s p fuel item (name :: names) r := by
  rintro hans ⟨x, hgives, hfuel⟩
  have hx := hfound hans x hgives
  rw [lookupItem_cons hgives, hx]
  cases found with
  | none => exact hrest.symm
  | some y => exact hrest hans (hfuel y hx)

/-- A call that allocates does not change what the scans come to. -/
theorem LookupResult.of_grown {item : FatItem} {names : List (List Byte)} {r : Option FatItem}
    (h : LookupResult u p fuel item names r) (hg : Grown s u own) :
    LookupResult s p fuel item names r := by
  rw [LookupResult, hg.answers_eq, hg.disk_eq] at h
  exact h

/-- The loop frees the item it starts from and the descriptors and items on the way. -/
theorem traverseParts_does (hE : E .misallocated) (hp : s.fsPrivate = some p) {segs : List Seg} :
    ∀ {u : Kernel} {n : Nat} {item path : Word} {x : FatItem}, segs.length < n → item ≠ 0 →
      u.items item = some x → Grown s u [⟨item, fatItemSize⟩] → Linked s path segs →
      LookupOk E s p fuel x (segs.map Seg.name) →
      Does E (traverseParts fuel n item path) u fun r t =>
        (r = 0 ∧ Grown s t [] ∧ LookupResult s p fuel x (segs.map Seg.name) none) ∨
          (r ≠ 0 ∧ Grown s t [⟨r, fatItemSize⟩] ∧ ∃ y, t.items r = some y ∧
            LookupResult s p fuel x (segs.map Seg.name) (some y)) := by
  induction segs with
  | nil =>
    intro u n item path x hn hitem hx hg hlinked _
    obtain ⟨n, rfl⟩ := Nat.exists_eq_add_one_of_ne_zero (Nat.ne_zero_of_lt hn)
    rw [traverseParts, if_pos (show path = 0 from hlinked)]
    exact .pure (.inr ⟨hitem, hg, x, hx, fun _ _ => rfl⟩)
  | cons g segs ih =>
    intro u n item path x hn hitem hx hg hlinked hlook
    obtain ⟨n, rfl⟩ := Nat.exists_eq_add_one_of_ne_zero (Nat.ne_zero_of_lt hn)
    obtain ⟨rfl, hpart, hstring, hname, next, hnext, hlinked⟩ := hlinked
    rw [traverseParts, if_neg hpart]
    refine (fat16OpenItem_does hE hg hp hitem hx).seq ?_
    rintro folder u₁ (⟨rfl, hg₁, n₀, hzero⟩ | ⟨hfolder, hg₁, hd₁⟩)
    · exact hg₁.free_head.seq fun _ t ⟨hgt, _⟩ =>
        .pure (.inl ⟨rfl, hgt, fun hans => absurd hzero (hans n₀)⟩)
    refine hg₁.free_second.seq fun _ u₂ ⟨hg₂, he₂⟩ => ?_
    have hd₂ := (descriptors_local.get_congr he₂).trans hd₁
    rw [if_neg hfolder]
    refine .step (Store.load_eq hpart (hg₂.get parts_local hnext)) ?_
    refine .step (Store.load_eq hstring (hg₂.get strings_local hname)) ?_
    refine (fat16SplitEntryName_does (u := u₂) (hlook.imp_left fun h =>
      h.2.1 _ List.mem_cons_self)).seq ?_
    rintro _ _ ⟨rfl, rfl⟩
    refine (fat16FindEntry_does hE hg₂ hp (by simp) hfolder hd₂
      (hlook.imp_left fun h => h.2.2.imp fun _ hr => hr.1)).seq ?_
    rintro item' u₃ (⟨rfl, hg₃, hnone⟩ | ⟨y, hitem', hg₃, hy₃, hy⟩)
    · refine hg₃.free_head.seq fun _ t ⟨hgt, _⟩ => ?_
      exact .pure (.inl ⟨rfl, hgt, .cons hnone rfl⟩)
    · refine hg₃.free_second.seq fun _ u₄ ⟨hg₄, he₄⟩ => ?_
      rw [if_neg hitem']
      refine .step (Store.load_eq hpart (hg₄.get parts_local hnext)) ?_
      refine (ih (Nat.lt_of_succ_lt_succ hn) hitem' ((items_local.get_congr he₄).trans hy₃) hg₄ hlinked
        (hlook.imp_left ?_)).mono ?_
      · rintro ⟨hans, hfits, r, hgives, hrest⟩
        exact ⟨hans, fun name hmem => hfits name (List.mem_cons_of_mem _ hmem), hrest y (hy r hgives)⟩
      · rintro r t (⟨rfl, hgt, hr⟩ | ⟨hr, hgt, z, hz, hres⟩)
        · exact .inl ⟨rfl, hgt, .cons (fun _ => hy) hr⟩
        · exact .inr ⟨hr, hgt, z, hz, .cons (fun _ => hy) hres⟩

/-- `fat16_open`: of everything on the way only the returned descriptor is left. -/
theorem fat16Open_does (hE : E .misallocated) (hok : ∀ b ∈ s.blocks, 0 < b.size)
    (hp : s.fsPrivate = some p) {segs : List Seg} {path : Word} (hlen : segs.length < MAX_PATH_LEN)
    (h : Linked s path segs)
    (hlook : LookupOk E s p fuel p.rootDirectory (segs.map Seg.name)) :
    Does E (fat16Open fuel path) s fun d t =>
      (d = 0 ∧ Grown s t [] ∧ LookupResult s p fuel p.rootDirectory (segs.map Seg.name) none) ∨
      (d ≠ 0 ∧ Grown s t [⟨d, fatDescriptorSize⟩] ∧ ∃ y, t.descriptors d = some (__fat16Open p y) ∧
        LookupResult s p fuel p.rootDirectory (segs.map Seg.name) (some y)) := by
  refine Does.seq (Q := fun r t =>
    (r = 0 ∧ Grown s t [] ∧ LookupResult s p fuel p.rootDirectory (segs.map Seg.name) none) ∨
    (r ≠ 0 ∧ Grown s t [⟨r, fatItemSize⟩] ∧ ∃ y, t.items r = some y ∧
      LookupResult s p fuel p.rootDirectory (segs.map Seg.name) (some y))) ?_ ?_
  · refine .step (fsPrivate_eq hp) ?_
    refine ((Grown.refl hok).alloc_cases hE items_local (by decide) .zero).seq ?_
    rintro item u ⟨-, ⟨rfl, hzero, -⟩ | ⟨hitem, -, -, hg, hx, -⟩⟩
    · -- the item is used without a check
      refine .bind (Store.modify_null ?_ _)
      rcases hlook with ⟨hans, -⟩ | hall
      · exact absurd hzero (hans _)
      · exact hall _
    refine (hg.modify items_local (by simp) hitem hx _).seq fun _ u₁ ⟨hg₁, hx₁, _⟩ => ?_
    exact traverseParts_does hE hp hlen hitem hx₁ hg₁ h hlook
  · rintro item u (⟨rfl, hg, hnone⟩ | ⟨hitem, hg, x, hx, hres⟩)
    · exact .pure (.inl ⟨rfl, hg, hnone⟩)
    · rw [if_neg hitem]
      refine (fat16OpenItem_does hE hg hp hitem hx).seq ?_
      rintro d u₁ (⟨rfl, hg₁, n₀, hzero⟩ | ⟨hd, hg₁, hd₁⟩)
      · exact hg₁.free_head.seq fun _ t ⟨hgt, _⟩ =>
          .pure (.inl ⟨rfl, hgt, fun hans => absurd hzero (hans n₀)⟩)
      refine hg₁.free_second.seq fun _ t ⟨hgt, het⟩ => ?_
      exact .pure (.inr ⟨hd, hgt, x, (descriptors_local.get_congr het).trans hd₁, hres⟩)

end Does

end AvocadOS
