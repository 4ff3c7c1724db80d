import AvocadOS.Fs.Lookup
import AvocadOS.Lib.Avoids
import AvocadOS.Fat16.Read

/-!
# Divisions by fields of the boot sector

`fat16_probe` divides by `bytes_per_sector`, and the cursors of everything but the root directory
are computed with divisions by `sectors_per_cluster` and `bytes_per_cluster`. The probe checks the
signature and the system id only.

* `Spares`: with nonzero divisors, no function of the driver divides by zero, whatever it is given;
* `divisions_iff`: which boot sectors are safe.
-/

namespace AvocadOS

set_option linter.style.nameCheck false

/-! ## The driver -/

/-- Code that reads the disk and does not divide by zero. -/
abbrev Spares {α : Type} (m : DevM α) : Prop := Avoids (fun _ => True) Fault.divideByZero m

section Driver

variable {p : FatPrivate}

theorem spares_read (len : Int) : Spares (diskstreamRead len) :=
  .ok fun s _ => by
    obtain ⟨t, h, -⟩ := diskstreamRead_int s len
    exact ⟨_, t, h, trivial⟩

theorem spares_seek (ppos : Nat) : Spares (diskstreamSeek ppos) := .ok fun _ _ => ⟨_, _, rfl, trivial⟩

theorem spares_readFat (c : Nat) : Spares (fat16ReadFat p c) := by
  unfold fat16ReadFat
  exact .ite (.pure _) (.bind (spares_seek _) fun _ => .bind (spares_read _) fun _ => .pure _)

theorem spares_followClusterChain (n : Nat) : ∀ c : Nat, Spares (fat16FollowClusterChain p c n) := by
  induction n with
  | zero => exact fun c => .pure _
  | succ n ih =>
    intro c
    unfold fat16FollowClusterChain
    exact .ite (.bind (spares_readFat c) fun v => .ite (.pure _) (ih v)) (.pure _)

variable (hs : p.header.sectorsPerCluster ≠ 0) (hbpc : p.bytesPerCluster ≠ 0)

include hs hbpc

theorem spares_adjustCursors (d : FatDescriptor) (offset : Int) :
    Spares (__fat16AdjustCursors p d offset) := by
  unfold __fat16AdjustCursors __fat16AdjustCursorsNonRoot fat16SectorToClusterNumber
  refine .ite (.pure _) (.ite (.pure _) ?_)
  rw [if_neg hbpc]
  refine .bind ?_ fun _ => .bind (spares_followClusterChain _ _) fun _ => ?_
  · rw [if_neg hs]
    exact .pure _
  · exact .ite (.pure _) (.ite (.pure _) (.pure _))

theorem spares_readLoop (len : Nat) : ∀ (fuel : Nat) (d : FatDescriptor) (out : List Byte),
    Spares (__fat16ReadLoop p len fuel d out) := by
  intro fuel
  induction fuel with
  | zero => exact fun _ _ => .pure _
  | succ fuel ih =>
    intro d out
    rw [__fat16ReadLoop]
    refine .ite (.bind (spares_seek _) fun _ => .bind (spares_read _) fun r => ?_) (.pure _)
    refine .ite (.pure _) (.bind (spares_adjustCursors hs hbpc _ _) fun r => ?_)
    exact .ite (.pure _) (ih _ _)

theorem spares_read16 (d : FatDescriptor) (size nmemb : Nat) : Spares (fat16Read p d size nmemb) := by
  unfold fat16Read
  refine .bind (spares_adjustCursors hs hbpc _ _) fun r => ?_
  refine .ite (.pure _) (.ite (.pure _) (.ite (.pure _) ?_))
  exact .bind (spares_readLoop hs hbpc _ _ _ _) fun _ => .pure _

theorem spares_findEntryLoop (name ext : List Byte) : ∀ (fuel : Nat) (d : FatDescriptor)
    (e : FatEntry) (j : Nat), Spares (findEntryLoop p name ext fuel d e j) := by
  intro fuel
  induction fuel with
  | zero => exact fun _ _ _ => .error (fun _ => rfl) (by decide)
  | succ fuel ih =>
    intro d e j
    rw [findEntryLoop]
    refine .ite (.pure _) (.bind (spares_readLoop hs hbpc _ _ _ _) fun r => ?_)
    exact .ite (.pure _) (.ite (ih _ _ _) (.ite (.pure _) (.ite (ih _ _ _) (.pure _))))

theorem spares_countDirItemsLoop : ∀ (fuel : Nat) (d : FatDescriptor) (e : FatEntry) (count : Int),
    Spares (countDirItemsLoop p fuel d e count) := by
  intro fuel
  induction fuel with
  | zero => exact fun _ _ _ => .error (fun _ => rfl) (by decide)
  | succ fuel ih =>
    intro d e count
    rw [countDirItemsLoop]
    refine .ite (.pure _) (.bind (spares_readLoop hs hbpc _ _ _ _) fun r => ?_)
    exact .ite (.pure _) (.ite (ih _ _ _) (.ite (.pure _) (ih _ _ _)))

theorem spares_findEntryInDir (ok : Bool) (fuel : Nat) (d : FatDescriptor)
    (filename extension : List Byte) :
    Spares (fat16FindEntryInDir ok fuel p d filename extension) := by
  rw [fat16FindEntryInDir]
  refine .ite (.pure _) (.bind (spares_findEntryLoop hs hbpc _ _ _ _ _ _) fun r => ?_)
  obtain ⟨d', found⟩ := r
  cases found with
  | none => exact .pure _
  | some x => exact .ite (.pure _) (.pure _)

theorem spares_countDirItems (stale : FatEntry) (fuel : Nat) (d : FatDescriptor) :
    Spares (fat16CountDirItems stale fuel p d) := by
  rw [fat16CountDirItems]
  refine .bind (spares_countDirItemsLoop hs hbpc _ _ _ _) fun r => ?_
  obtain ⟨d', count⟩ := r
  cases count with
  | none => exact .pure _
  | some x => exact .pure _

end Driver

/-! ## Opening a path -/

section Opening

variable {α : Type} {p : FatPrivate}

/-- Code of the kernel that does not divide by zero while the volume `p` is mounted, and leaves it
so. -/
abbrev KSpares (p : FatPrivate) (m : K α) : Prop :=
  Avoids (fun s : Kernel => s.fsPrivate = some p) Fault.divideByZero m

theorem kspares_onDev {m : DevM α} (h : Spares m) : KSpares p (onDev m) := by
  refine .of_cases fun s hs => ?_
  obtain ⟨hne, -⟩ := h s.dev trivial
  cases hm : m s.dev with
  | error e =>
    rw [hm] at hne
    exact .inl ⟨e, by simp only [onDev, hm], fun heq => hne (by rw [heq])⟩
  | ok r => exact .inr ⟨r.1, _, onDev_eq hm, hs⟩

/-- `disk->fs_private` is the mounted volume. -/
theorem kspares_fsPrivate {f : FatPrivate → K α} (h : KSpares p (f p)) :
    KSpares p (fsPrivate >>= f) := by
  intro s hs
  have hload : fsPrivate s = .ok (p, s) := by
    rw [fsPrivate, bind_get_eq, hs]
    rfl
  rw [bind_eq hload]
  exact h s hs

variable {st : Store α}

theorem kspares_load (a : Word) : KSpares p (st.load a) := by
  refine .of_cases fun s hs => ?_
  by_cases ha : a = 0
  · exact .inl ⟨.nullDeref, by simp only [Store.load, ha, if_true], by decide⟩
  · cases hget : st.get s a with
    | none => exact .inl ⟨.badDeref, by simp only [Store.load, ha, if_false, hget], by decide⟩
    | some x => exact .inr ⟨x, s, Store.load_eq ha hget, hs⟩

theorem fsPrivate_put (hl : st.Local) (s : Kernel) (m : Word → Option α) :
    (st.put s m).fsPrivate = s.fsPrivate :=
  show (st.put s m).still.fsPrivate = s.still.fsPrivate by rw [hl.still_put]

theorem kspares_modify (hl : st.Local) (a : Word) (f : α → α) : KSpares p (st.modify a f) := by
  refine .of_cases fun s hs => ?_
  by_cases ha : a = 0
  · exact .inl ⟨.nullDeref, by simp only [Store.modify, ha, if_true], by decide⟩
  · cases hget : st.get s a with
    | none => exact .inl ⟨.badDeref, by simp only [Store.modify, ha, if_false, hget], by decide⟩
    | some x => exact .inr ⟨(), _, Store.modify_eq ha hget, (fsPrivate_put hl _ _).trans hs⟩

theorem kspares_alloc (hl : st.Local) (size : Nat) (zero : α) : KSpares p (st.alloc size zero) := by
  refine .bind (.of_cases fun s hs => ?_) fun a => .ite (.pure _) ?_
  · rw [kzalloc]
    split
    · exact .inr ⟨_, _, rfl, hs⟩
    · split
      · exact .inr ⟨_, _, rfl, hs⟩
      · exact .inl ⟨.misallocated, rfl, by decide⟩
  · exact .ok fun s hs => ⟨a, _, rfl, (fsPrivate_put hl _ _).trans hs⟩

theorem kspares_free (a : Word) : KSpares p (kfree a) := by
  refine .of_cases fun s hs => ?_
  rw [kfree]
  split
  · exact .inr ⟨(), _, rfl, hs⟩
  · exact .inl ⟨.badFree, rfl, by decide⟩

theorem kspares_openItem (item : Word) : KSpares p (fat16OpenItem item) := by
  refine .bind (kspares_alloc descriptors_local _ _) fun d => .ite (.pure _) ?_
  refine .bind (kspares_load _) fun x => kspares_fsPrivate ?_
  exact .bind (kspares_modify descriptors_local _ _) fun _ => .pure _

theorem kspares_splitEntryName (name : List Byte) : KSpares p (fat16SplitEntryName name) := by
  rw [fat16SplitEntryName]
  exact .ite (.pure _) (.error (fun _ => rfl) (by decide))

variable (hs : p.header.sectorsPerCluster ≠ 0) (hbpc : p.bytesPerCluster ≠ 0)

include hs hbpc

theorem kspares_findEntry (fuel : Nat) (descriptor : Word) (filename extension : List Byte) :
    KSpares p (fat16FindEntry fuel descriptor filename extension) := by
  refine kspares_fsPrivate (.bind (kspares_load _) fun d => .ite (.pure _) ?_)
  refine .bind (kspares_onDev (spares_findEntryLoop hs hbpc _ _ _ _ _ _)) fun r => ?_
  obtain ⟨d', found⟩ := r
  cases found with
  | none => exact .bind (kspares_modify descriptors_local _ _) fun _ => .pure _
  | some x =>
    refine .bind (kspares_alloc items_local _ _) fun item => .ite ?_ ?_
    · exact .bind (kspares_modify descriptors_local _ _) fun _ => .pure _
    · refine .bind (kspares_modify items_local _ _) fun _ => ?_
      exact .bind (kspares_modify descriptors_local _ _) fun _ => .pure _

theorem kspares_traverseParts (fuel : Nat) : ∀ (n : Nat) (item path : Word),
    KSpares p (traverseParts fuel n item path) := by
  intro n
  induction n with
  | zero => exact fun _ _ => .error (fun _ => rfl) (by decide)
  | succ n ih =>
    intro item path
    rw [traverseParts]
    refine .ite (.pure _) (.bind (kspares_openItem _) fun folder => ?_)
    refine .bind (kspares_free _) fun _ => .ite (.pure _) ?_
    refine .bind (kspares_load _) fun part => .bind (kspares_load _) fun name => ?_
    refine .bind (kspares_splitEntryName _) fun names => ?_
    refine .bind (kspares_findEntry hs hbpc _ _ _ _) fun found => .bind (kspares_free _) fun _ => ?_
    exact .ite (.pure _) (.bind (kspares_load _) fun _ => ih _ _)

theorem kspares_open (fuel : Nat) (path : Word) : KSpares p (fat16Open fuel path) := by
  refine .bind ?_ fun item => .ite (.pure _) ?_
  · refine kspares_fsPrivate (.bind (kspares_alloc items_local _ _) fun item => ?_)
    exact .bind (kspares_modify items_local _ _) fun _ => kspares_traverseParts hs hbpc _ _ _ _
  · exact .bind (kspares_openItem _) fun _ => .bind (kspares_free _) fun _ => .pure _

end Opening

/-! ## Boot sectors -/

/-- An item of the disk: the root directory, or one made of 32 bytes of the disk. -/
def ItemOn (disk : Disk) (p : FatPrivate) (item : FatItem) : Prop :=
  item = p.rootDirectory ∨ ∃ dir a dirPos, item = .ofEntry p dir (slotAt disk a) dirPos

/-- On a mounted volume, no open of a path, and no lookup, count or read with a descriptor of an
item divides by zero. -/
structure DividesSafely (disk : Disk) (p : FatPrivate) : Prop where
  opens : ∀ (s : Kernel) (fuel : Nat) (path : Word), s.fsPrivate = some p → s.dev.disk = disk →
    fat16Open fuel path s ≠ .error .divideByZero
  lookups : ∀ (item : FatItem) (d : FatDescriptor), ItemOn disk p item →
    d.item = (__fat16Open p item).item → ∀ (s : DiskStream) (ok : Bool) (fuel : Nat)
      (filename extension : List Byte), s.disk = disk →
      fat16FindEntryInDir ok fuel p d filename extension s ≠ .error .divideByZero
  counts : ∀ (item : FatItem) (d : FatDescriptor), ItemOn disk p item →
    d.item = (__fat16Open p item).item → ∀ (s : DiskStream) (stale : FatEntry) (fuel : Nat),
      s.disk = disk → fat16CountDirItems stale fuel p d s ≠ .error .divideByZero
  reads : ∀ (item : FatItem) (d : FatDescriptor), ItemOn disk p item →
    d.item = (__fat16Open p item).item → ∀ (s : DiskStream) (size nmemb : Nat), s.disk = disk →
      fat16Read p d size nmemb s ≠ .error .divideByZero

/-- A boot sector with which `fat16_probe` does not divide by zero on any disk, and nothing else does
on a disk that it accepts. -/
def BootSafe (boot : List Byte) : Prop :=
  ∀ disk : Disk, disk.slice 0 DISK_SECTOR_SIZE = boot →
    (∀ ok, fat16Probe ok disk ≠ .error .divideByZero) ∧
      ∀ ok p, fat16Probe ok disk = .ok (.ok p) → DividesSafely disk p

section Boot

variable {disk : Disk} {boot : List Byte}

theorem dividesSafely {p : FatPrivate} (hs : p.header.sectorsPerCluster ≠ 0)
    (hbpc : p.bytesPerCluster ≠ 0) : DividesSafely disk p where
  opens s fuel path hp _ := (kspares_open hs hbpc fuel path s hp).1
  lookups _ d _ _ s ok fuel filename extension _ :=
    (spares_findEntryInDir hs hbpc ok fuel d filename extension s trivial).1
  counts _ d _ _ s stale fuel _ := (spares_countDirItems hs hbpc stale fuel d s trivial).1
  reads _ d _ _ s size nmemb _ := (spares_read16 hs hbpc d size nmemb s trivial).1

/-- The header of a disk, from its boot sector. -/
theorem header_of_boot (h : disk.slice 0 DISK_SECTOR_SIZE = boot) :
    FatHeader.ofBytes (disk.slice 0 FAT_HEADER_SIZE) = FatHeader.ofBytes boot := by
  have htake : disk.slice 0 FAT_HEADER_SIZE = boot.take FAT_HEADER_SIZE := by
    rw [← h, Disk.slice_take (by decide)]
  have hchar : ∀ i, i < FAT_HEADER_SIZE → charAt (boot.take FAT_HEADER_SIZE) i = charAt boot i := by
    intro i hi
    simp only [charAt, List.getD_eq_getElem?_getD, List.getElem?_take_of_lt hi]
  have hle : ∀ i, i + 1 < FAT_HEADER_SIZE → le16 (boot.take FAT_HEADER_SIZE) i = le16 boot i :=
    fun i hi => by rw [le16, le16, hchar i (by omega), hchar (i + 1) hi]
  have hid : ((boot.take FAT_HEADER_SIZE).drop 54).take 8 = (boot.drop 54).take 8 := by
    rw [List.drop_take, List.take_take]
    rfl
  rw [htake]
  simp only [FatHeader.ofBytes, hid]
  rw [hle 11 (by decide), hle 14 (by decide), hle 17 (by decide), hle 22 (by decide),
    hchar 13 (by decide), hchar 16 (by decide), hchar 38 (by decide)]

/-- The fields that `fat16_probe` checks. -/
def FatHeader.Checked (header : FatHeader) : Prop :=
  header.signature = FAT16_SIGNATURE ∧
    strncmp header.systemIdString FAT16_SYSTEM_ID FAT16_SYSTEM_ID_LEN = 0

/-- `fat16_probe` divides by zero only if the checks pass and `bytes_per_sector` is 0. -/
theorem fat16Probe_divides {ok : Nat → Bool} (h : fat16Probe ok disk = .error .divideByZero) :
    (FatHeader.ofBytes (disk.slice 0 FAT_HEADER_SIZE)).Checked ∧
      (FatHeader.ofBytes (disk.slice 0 FAT_HEADER_SIZE)).bytesPerSector = 0 := by
  have hread := diskstreamRead_eq ⟨disk, 0, []⟩ FAT_HEADER_SIZE
  simp only [fat16Probe, hread, Bind.bind, Except.bind, Pure.pure, Except.pure, throw, throwThe,
    MonadExceptOf.throw] at h
  split_ifs at h with h₀ h₁ h₂ h₃ h₄ hbps h₆
  all_goals cases h
  exact ⟨⟨not_not.mp h₂, not_not.mp h₃⟩, hbps⟩

theorem fat16Probe_checked {ok : Nat → Bool} {p : FatPrivate}
    (h : fat16Probe ok disk = .ok (.ok p)) :
    (FatHeader.ofBytes (disk.slice 0 FAT_HEADER_SIZE)).Checked := by
  have hread := diskstreamRead_eq ⟨disk, 0, []⟩ FAT_HEADER_SIZE
  simp only [fat16Probe, hread, Bind.bind, Except.bind, Pure.pure, Except.pure, throw, throwThe,
    MonadExceptOf.throw] at h
  split_ifs at h with h₀ h₁ h₂ h₃ h₄ hbps h₆
  all_goals cases h
  exact ⟨not_not.mp h₂, not_not.mp h₃⟩

/-- With the checks passed and `bytes_per_sector` 0, it does. -/
theorem fat16Probe_divides_of (hc : (FatHeader.ofBytes (disk.slice 0 FAT_HEADER_SIZE)).Checked)
    (hbps : (FatHeader.ofBytes (disk.slice 0 FAT_HEADER_SIZE)).bytesPerSector = 0) :
    fat16Probe (fun _ => true) disk = .error .divideByZero := by
  have hread := diskstreamRead_eq ⟨disk, 0, []⟩ FAT_HEADER_SIZE
  simp only [fat16Probe, hread, Bind.bind, Except.bind, Pure.pure, Except.pure, throw, throwThe,
    MonadExceptOf.throw, hc.1, hc.2, hbps, Bool.not_true, Bool.false_eq_true, if_false, ne_eq,
    not_true_eq_false, if_true]
  rw [if_neg (by decide)]

/-- The disk with the boot sector `boot`, and ones everywhere else. -/
def onesDisk (boot : List Byte) : Disk where
  bytes a := if a < DISK_SECTOR_SIZE then charAt boot a else 1

theorem onesDisk_boot (hlen : boot.length = DISK_SECTOR_SIZE) :
    (onesDisk boot).slice 0 DISK_SECTOR_SIZE = boot := by
  refine List.ext_getElem (by rw [Disk.slice_length, hlen]) fun i h₁ h₂ => ?_
  have hi : 0 + i < DISK_SECTOR_SIZE := by omega
  simp only [Disk.slice, List.getElem_map, List.getElem_range, onesDisk, if_pos hi]
  rw [Nat.zero_add, charAt, List.getD_eq_getElem _ _ h₂]

theorem onesDisk_slot (boot : List Byte) : slotAt (onesDisk boot) DISK_SECTOR_SIZE = ⟨fun _ => 1⟩ := by
  unfold slotAt FatEntry.overlay
  congr 1
  funext i
  have hi : (i : Nat) < FAT_ENTRY_SIZE := i.isLt
  rw [List.getD_eq_getElem _ _ (by rw [Disk.slice_length]; exact hi)]
  simp only [Disk.slice, List.getElem_map, List.getElem_range, onesDisk]
  rw [if_neg (by omega)]

/-- Without sectors in a cluster, a read of a file that has one divides by zero. -/
theorem fat16Read_divides {p : FatPrivate} (hbpc : p.bytesPerCluster = 0) {dir : FatItem}
    {entry : FatEntry} {dirPos : Nat} (hattr : FAT16_FILE_SUBDIRECTORY &&& entry.attributes = 0)
    (hlow : entry.low16BitsFirstCluster ≠ 0) (s : DiskStream) (size nmemb : Nat) :
    fat16Read p (__fat16Open p (.ofEntry p dir entry dirPos)) size nmemb s =
      .error .divideByZero := by
  have hitem := @open_ofEntry p dir entry dirPos hattr
  have hentry : (FatItem.ofEntry p dir entry dirPos).entry = entry := rfl
  simp only [fat16Read, __fat16AdjustCursors, hitem, ofEntry_not_root hattr, hentry, hlow, hbpc,
    __fat16AdjustCursorsNonRoot, Bool.false_eq_true, if_false, if_true]
  rfl

/-- A boot sector is safe, if and only if it is rejected by its signature or its system id, or
`bytes_per_sector` and `sectors_per_cluster` are not 0. -/
theorem divisions_iff (hlen : boot.length = DISK_SECTOR_SIZE) : BootSafe boot ↔
    ¬ (FatHeader.ofBytes boot).Checked ∨
      ((FatHeader.ofBytes boot).bytesPerSector ≠ 0 ∧
        (FatHeader.ofBytes boot).sectorsPerCluster ≠ 0) := by
  constructor
  · intro hsafe
    obtain ⟨hprobe, hlater⟩ := hsafe (onesDisk boot) (onesDisk_boot hlen)
    have hheader := header_of_boot (onesDisk_boot hlen)
    by_cases hc : (FatHeader.ofBytes boot).Checked
    · refine .inr ?_
      have hbps : (FatHeader.ofBytes boot).bytesPerSector ≠ 0 := fun h0 =>
        hprobe _ (fat16Probe_divides_of (by rw [hheader]; exact hc) (by rw [hheader]; exact h0))
      refine ⟨hbps, fun hspc => ?_⟩
      have haccept := @fat16Probe_accepts (onesDisk boot) (by rw [hheader]; exact hc.1)
        (by rw [hheader]; exact hc.2) (by rw [hheader]; exact hbps)
      rw [hheader] at haccept
      have hbpc : (FatPrivate.ofHeader (FatHeader.ofBytes boot)).bytesPerCluster = 0 := by
        simp only [FatPrivate.ofHeader, hspc, Nat.mul_zero]
      -- a file made of ones
      refine (hlater _ _ haccept).reads (.ofEntry _ .zero (slotAt (onesDisk boot) DISK_SECTOR_SIZE) 1)
        (__fat16Open _ _) (.inr ⟨_, _, _, rfl⟩) rfl ⟨onesDisk boot, 0, []⟩ 0 0 rfl ?_
      rw [onesDisk_slot]
      exact fat16Read_divides hbpc (by decide) (by decide) _ _ _
    · exact .inl hc
  · intro hcond disk hboot
    have hheader := header_of_boot hboot
    refine ⟨fun ok hdiv => ?_, fun ok p hp => ?_⟩
    · obtain ⟨hc, h0⟩ := fat16Probe_divides hdiv
      rw [hheader] at hc h0
      rcases hcond with h | h
      · exact h hc
      · exact h.1 h0
    · have hc := fat16Probe_checked hp
      rw [hheader] at hc
      obtain ⟨hbps, hspc⟩ := hcond.resolve_left (not_not_intro hc)
      have hg := fat16Probe_geometry hp
      obtain ⟨rfl, -⟩ := fat16Probe_eq hp
      rw [hheader] at hg ⊢
      exact dividesSafely hspc (Nat.pos_iff_ne_zero.mp (hg.bytesPerCluster_pos hspc))

end Boot

/-- The boot sector of a volume with one sector per cluster. -/
theorem divisions_iff_tinyDisk : BootSafe ((tinyDisk 1).slice 0 DISK_SECTOR_SIZE) := by
  refine (divisions_iff (Disk.slice_length _ _)).mpr (.inr ?_)
  rw [← header_of_boot rfl]
  decide

/-- A disk with nothing in its header but the signature and the system id. -/
def signedDisk : Disk where
  bytes a :=
    if 54 ≤ a ∧ a < 62 then charAt FAT16_SYSTEM_ID (a - 54) else if a = 38 then 0x29 else 0

/-- The probe of such a disk divides by zero. -/
theorem boot_sector_not_safe :
    ¬ ∀ boot : List Byte, boot.length = DISK_SECTOR_SIZE → BootSafe boot := by
  intro h
  have hsafe := h (signedDisk.slice 0 DISK_SECTOR_SIZE) (Disk.slice_length _ _) signedDisk rfl
  exact hsafe.1 _ (fat16Probe_divides_of ⟨by decide, by decide⟩ (by decide))

end AvocadOS
