import AvocadOS.Fat16.Chain
import AvocadOS.Fat16.DirScan
import AvocadOS.Lib.Fuel
import AvocadOS.String.Compare

/-!
# Looking up a name in the root directory

The root directory is a region of `root_dir_entries` slots. The driver scans it by `rootScan`, and
its position in the region is also its position in the "cluster", so `__fat16_read` gets stuck
behind `bytes_per_cluster` bytes.

* `strncmp_bounded`: what the comparisons of `fat16_find_entry_in_dir` read and return;
* `findEntryLoop_eq`: the driver's loop is `rootScan`, if that ends within the first cluster;
* `findEntryLoop_stuck`: otherwise it makes a short read;
* `findEntry_iff`: the lookup does what it is for, exactly if the directory has the right size.
-/

namespace AvocadOS

set_option linter.style.nameCheck false

/-! ## The driver's loop -/

section Driver

variable {disk : Disk} {p : FatPrivate} {d : FatDescriptor} {s : DiskStream} {j : Nat}

/-- The address of a slot of the root region. -/
def rootSlotAddr (p : FatPrivate) (j : Nat) : Nat :=
  p.rootDirectory.firstSector * p.header.bytesPerSector + FAT_ENTRY_SIZE * j

/-- The address that the driver computes for it. -/
def driverAddr (p : FatPrivate) (j : Nat) : Nat :=
  u32 (u32 (p.rootDirectory.firstSector * p.header.bytesPerSector) + FAT_ENTRY_SIZE * j)

def slotAt (disk : Disk) (a : Nat) : FatEntry := FatEntry.zero.overlay (disk.slice a FAT_ENTRY_SIZE)

/-- A descriptor of the root directory in front of slot `j`. -/
structure RootAt (p : FatPrivate) (d : FatDescriptor) (j : Nat) : Prop where
  item : d.item = p.rootDirectory
  pos : d.pos = FAT_ENTRY_SIZE * j
  relativePos : d.relativePos = FAT_ENTRY_SIZE * j
  sector : d.currentClusterFirstSector = p.rootDirectory.firstSector

theorem RootAt.address (h : RootAt p d j) : __fat16DescriptorToAbsoluteAddress p d = driverAddr p j := by
  simp only [__fat16DescriptorToAbsoluteAddress, h.sector, h.relativePos, driverAddr]

/-- The descriptor behind slot `j`. -/
def afterSlot (p : FatPrivate) (d : FatDescriptor) (j : Nat) : FatDescriptor :=
  { d with
    pos := FAT_ENTRY_SIZE * (j + 1)
    relativePos := FAT_ENTRY_SIZE * (j + 1)
    eof := d.eof || p.dataSector ≤ FAT_ENTRY_SIZE * (j + 1)
    error := if p.dataSector < FAT_ENTRY_SIZE * (j + 1) then - EIO else d.error }

theorem RootAt.next (h : RootAt p d j) : RootAt p (afterSlot p d j) (j + 1) :=
  ⟨h.item, rfl, rfl, h.sector⟩

/-- The stream after a read of `n` bytes at `a`. -/
def DiskStream.afterRead (s : DiskStream) (a n : Nat) : DiskStream :=
  { s with ppos := u32 (a + n), reads := s.reads ++ [(a, n)] }

/-- `__fat16_adjust_cursors` of the root directory behind slot `j`. -/
theorem adjust_root (hroot : p.rootDirectory.type = .rootDirectory) (h : RootAt p d j)
    (hj : FAT_ENTRY_SIZE * (j + 1) < 2 ^ 32) :
    __fat16AdjustCursors p d FAT_ENTRY_SIZE =
      pure (afterSlot p d j,
        if p.dataSector < FAT_ENTRY_SIZE * (j + 1) then - EIO else 0) := by
  have hpos : asSizeT (d.pos + FAT_ENTRY_SIZE) = FAT_ENTRY_SIZE * (j + 1) := by
    rw [h.pos]; unfold asSizeT FAT_ENTRY_SIZE at *; omega
  have hisroot : fat16ItemIsRootDir p d.item = true := by simp [fat16ItemIsRootDir, h.item, hroot]
  simp only [__fat16AdjustCursors, hpos, hisroot, if_true, __fat16AdjustCursorsRootDir]
  by_cases hle : p.dataSector ≤ FAT_ENTRY_SIZE * (j + 1)
  · by_cases hlt : p.dataSector < FAT_ENTRY_SIZE * (j + 1)
    · simp [hle, hlt, afterSlot]
    · simp [hle, hlt, afterSlot]
  · have hlt : ¬ p.dataSector < FAT_ENTRY_SIZE * (j + 1) := by omega
    simp [hle, hlt, afterSlot]

/-! Every function of the driver only adds to the record of the reads. -/

theorem logs_readFat (c : Nat) : Logs (fat16ReadFat p c) := by
  unfold fat16ReadFat
  split
  · exact .pure _
  · exact .bind (.seek _) fun _ => .bind (.read _) fun _ => .pure _

theorem logs_followClusterChain (n c : Nat) : Logs (fat16FollowClusterChain p c n) := by
  induction n generalizing c with
  | zero => exact .pure _
  | succ n ih =>
    unfold fat16FollowClusterChain
    split
    · refine .bind (logs_readFat c) fun v => ?_
      split
      · exact .pure _
      · exact ih v
    · exact .pure _

theorem logs_adjustCursors (d : FatDescriptor) (offset : Int) :
    Logs (__fat16AdjustCursors p d offset) := by
  unfold __fat16AdjustCursors __fat16AdjustCursorsNonRoot fat16SectorToClusterNumber
  simp only
  split
  · exact .pure _
  split
  · exact .pure _
  split
  · exact .throw _
  refine .bind ?_ fun first => .bind (logs_followClusterChain _ _) fun c => ?_
  · split
    · exact .throw _
    · exact .pure _
  · split
    · exact .pure _
    · split <;> exact .pure _

theorem logs_readLoop (len fuel : Nat) (d : FatDescriptor) (out : List Byte) :
    Logs (__fat16ReadLoop p len fuel d out) := by
  induction fuel generalizing d out with
  | zero => exact .pure _
  | succ fuel ih =>
    unfold __fat16ReadLoop
    split
    · refine .bind (.seek _) fun _ => .bind (.read _) fun r => ?_
      obtain ⟨chunkRead, chunk⟩ := r
      simp only
      split
      · exact .pure _
      · refine .bind (logs_adjustCursors d _) fun r => ?_
        obtain ⟨d, res⟩ := r
        simp only
        split
        · exact .pure _
        · exact ih d _
    · exact .pure _

theorem logs_findEntryLoop (name ext : List Byte) (fuel : Nat) (d : FatDescriptor) (e : FatEntry)
    (pos : Nat) : Logs (findEntryLoop p name ext fuel d e pos) := by
  induction fuel generalizing d e pos with
  | zero => exact .throw _
  | succ fuel ih =>
    unfold findEntryLoop
    split
    · exact .pure _
    refine .bind (logs_readLoop _ _ _ _) fun r => ?_
    obtain ⟨d, res, bytes⟩ := r
    simp only
    split
    · exact .pure _
    split
    · exact ih _ _ _
    split
    · exact .pure _
    split
    · exact ih _ _ _
    · exact .pure _

/-- What the loop of `__fat16_read` does after a chunk. -/
def afterChunk (p : FatPrivate) (len fuel : Nat) (d : FatDescriptor) (out chunk : List Byte) :
    DevM (FatDescriptor × Int × List Byte) :=
  if chunk.length = 0 then pure ({ d with error := 0 }, 0, out)
  else do
    let (d, res) ← __fat16AdjustCursors p d chunk.length
    if res ≠ 0 then pure (d, res, out ++ chunk) else __fat16ReadLoop p len fuel d (out ++ chunk)

theorem logs_afterChunk (p : FatPrivate) (len fuel : Nat) (d : FatDescriptor)
    (out chunk : List Byte) : Logs (afterChunk p len fuel d out chunk) := by
  unfold afterChunk
  split
  · exact .pure _
  · refine .bind (logs_adjustCursors d _) fun r => ?_
    obtain ⟨d, res⟩ := r
    simp only
    split
    · exact .pure _
    · exact logs_readLoop _ _ _ _

/-- One iteration of the loop of `__fat16_read`. -/
theorem readLoop_step {len fuel m : Nat} {out : List Byte} (hlt : out.length < len)
    (heof : d.eof = false) (hm : min (len - out.length) (sub32 p.bytesPerCluster d.relativePos) = m)
    (hmax : m < 2 ^ 31) :
    __fat16ReadLoop p len (fuel + 1) d out s =
      afterChunk p len fuel d out (s.disk.slice (__fat16DescriptorToAbsoluteAddress p d) m)
        (s.afterRead (__fat16DescriptorToAbsoluteAddress p d) m) := by
  have hread := diskstreamRead_eq { s with ppos := __fat16DescriptorToAbsoluteAddress p d } m
  have hint : asInt m = m := by
    unfold asInt u32
    rw [Nat.mod_eq_of_lt (by omega), if_pos hmax]
  rw [__fat16ReadLoop, if_pos ⟨hlt, heof⟩, hm]
  simp only [Bind.bind, StateT.bind, Except.bind, diskstreamSeek, hint, hread, afterChunk,
    Disk.slice_length]
  by_cases h0 : m = 0
  · subst h0
    simp [Disk.slice, DiskStream.afterRead]
  · rw [if_neg (by omega), if_neg h0]
    rfl

/-- `__fat16_read` of a slot inside the first `bytes_per_cluster` bytes. -/
theorem read_slot (hroot : p.rootDirectory.type = .rootDirectory) (h : RootAt p d j)
    (heof : d.eof = false) (hbpc : p.bytesPerCluster < 2 ^ 24)
    (hj : FAT_ENTRY_SIZE * (j + 1) ≤ p.bytesPerCluster) :
    __fat16Read p d FAT_ENTRY_SIZE s =
      .ok ((afterSlot p d j,
        if p.dataSector < FAT_ENTRY_SIZE * (j + 1) then - EIO else FAT_ENTRY_SIZE,
        s.disk.slice (driverAddr p j) FAT_ENTRY_SIZE),
        s.afterRead (driverAddr p j) FAT_ENTRY_SIZE) := by
  have hsub : min (FAT_ENTRY_SIZE - ([] : List Byte).length)
      (sub32 p.bytesPerCluster d.relativePos) = FAT_ENTRY_SIZE := by
    rw [h.relativePos]
    unfold sub32 u32 FAT_ENTRY_SIZE at *
    simp only [List.length_nil]
    omega
  have hstep : __fat16ReadLoop p FAT_ENTRY_SIZE (31 + 1) d [] s = _ :=
    readLoop_step (by decide) heof hsub (by decide)
  rw [h.address] at hstep
  rw [__fat16Read]
  refine hstep.trans ?_
  rw [afterChunk, Disk.slice_length, if_neg (by decide), adjust_root hroot h (by omega), pure_bind]
  by_cases hio : p.dataSector < FAT_ENTRY_SIZE * (j + 1)
  · simp only [hio, if_true, List.nil_append]
    rfl
  · simp only [hio, if_false, ne_eq, not_true_eq_false, List.nil_append]
    rw [__fat16ReadLoop, if_neg (by simp)]
    simp only [Disk.slice_length]
    rfl

/-- A slot that reaches over the first `bytes_per_cluster` bytes is not read at once. -/
theorem read_slot_short {r : FatDescriptor × Int × List Byte} {t : DiskStream} (h : RootAt p d j)
    (heof : d.eof = false) (hbpc : p.bytesPerCluster < 2 ^ 24)
    (hj : FAT_ENTRY_SIZE * j ≤ p.bytesPerCluster)
    (hover : p.bytesPerCluster < FAT_ENTRY_SIZE * (j + 1))
    (hrun : __fat16Read p d FAT_ENTRY_SIZE s = .ok (r, t)) :
    s.reads ++ [(driverAddr p j, p.bytesPerCluster - FAT_ENTRY_SIZE * j)] <+: t.reads := by
  have hsub : min (FAT_ENTRY_SIZE - ([] : List Byte).length)
      (sub32 p.bytesPerCluster d.relativePos) = p.bytesPerCluster - FAT_ENTRY_SIZE * j := by
    rw [h.relativePos]
    unfold sub32 u32 FAT_ENTRY_SIZE at *
    simp only [List.length_nil]
    omega
  have hstep : __fat16ReadLoop p FAT_ENTRY_SIZE (31 + 1) d [] s = _ :=
    readLoop_step (by decide) heof hsub (by omega)
  rw [h.address] at hstep
  rw [__fat16Read] at hrun
  exact logs_afterChunk _ _ _ _ _ _ _ _ _ (hstep.symm.trans hrun)

/-- A read of a whole slot leaves nothing of the entry before it. -/
theorem overlay_slice (e : FatEntry) (a : Nat) :
    e.overlay (disk.slice a FAT_ENTRY_SIZE) = slotAt disk a := by
  unfold slotAt FatEntry.overlay
  congr 1
  funext i
  have hi : (i : Nat) < (disk.slice a FAT_ENTRY_SIZE).length := by
    rw [Disk.slice_length]; exact i.isLt
  rw [List.getD_eq_getElem _ _ hi, List.getD_eq_getElem _ _ hi]

/-- `eof` is set behind `eofSlots` slots. -/
theorem afterSlot_eof {n : Nat} (heof : d.eof = false) (hn : n + 1 + j = eofSlots p.dataSector) :
    (afterSlot p d j).eof = decide (n = 0) := by
  simp only [afterSlot, heof, Bool.false_or, decide_eq_decide]
  unfold eofSlots FAT_ENTRY_SIZE at *
  omega

variable {name ext : List Byte} {hit : FatEntry → Bool}

/-- `hit` is the comparison that the driver makes in a slot that is not skipped. -/
def Compares (name ext : List Byte) (hit : FatEntry → Bool) : Prop :=
  ∀ e : FatEntry, e.isLfnOrLabel = false →
    ((strncmp name e.filename 8 ≠ 0 ∨ strncmp ext e.extension 3 ≠ 0) ↔ hit e = false)

/-- The loop in front of slot `j`: it reads the slot, and ends or goes on as `rootScan` says. -/
theorem findEntryLoop_slot (hroot : p.rootDirectory.type = .rootDirectory)
    (hcmp : Compares name ext hit) (h : RootAt p d j) (heof : d.eof = false)
    (hbpc : p.bytesPerCluster < 2 ^ 24) (hj : FAT_ENTRY_SIZE * (j + 1) ≤ p.bytesPerCluster)
    (fuel : Nat) (e : FatEntry) :
    findEntryLoop p name ext (fuel + 1) d e j s =
      let slot := slotAt s.disk (driverAddr p j)
      let t := s.afterRead (driverAddr p j) FAT_ENTRY_SIZE
      if p.dataSector < FAT_ENTRY_SIZE * (j + 1) then .ok ((afterSlot p d j, none), t)
      else if slot.isLfnOrLabel then findEntryLoop p name ext fuel (afterSlot p d j) slot (j + 1) t
      else if slot.isEnd then .ok (({ afterSlot p d j with eof := true }, none), t)
      else if hit slot then .ok ((afterSlot p d j, some (slot, j + 1)), t)
      else findEntryLoop p name ext fuel (afterSlot p d j) slot (j + 1) t := by
  have hread := @read_slot p d s j hroot h heof hbpc hj
  rw [findEntryLoop, heof]
  simp only [Bool.false_eq_true, if_false, Bind.bind, StateT.bind, Except.bind, hread,
    overlay_slice]
  by_cases hio : p.dataSector < FAT_ENTRY_SIZE * (j + 1)
  · simp only [hio, if_true]
    rw [if_pos (by decide)]
    rfl
  simp only [hio, if_false]
  rw [if_neg (by decide)]
  by_cases hlfn : (slotAt s.disk (driverAddr p j)).isLfnOrLabel = true
  · simp only [hlfn, if_true]
  simp only [hlfn, Bool.false_eq_true, if_false]
  by_cases hend : charAt (slotAt s.disk (driverAddr p j)).filename 0 = 0
  · have hisEnd : (slotAt s.disk (driverAddr p j)).isEnd = true := by simp [FatEntry.isEnd, hend]
    simp only [hend, hisEnd, if_true]
    rfl
  have hisEnd : (slotAt s.disk (driverAddr p j)).isEnd = false := by simpa [FatEntry.isEnd] using hend
  simp only [hend, hisEnd, Bool.false_eq_true, if_false]
  have hiff := hcmp _ (by simpa using hlfn)
  by_cases hhit : hit (slotAt s.disk (driverAddr p j)) = true
  · rw [if_neg (fun h => by rw [hiff.mp h] at hhit; cases hhit), if_pos hhit]
    rfl
  · rw [if_pos (hiff.mpr (by simpa using hhit)), if_neg hhit]

/-- The loop, started in front of slot `j`, read slots up to `r.1 - 1` and found `r.2`. -/
def Scanned (disk : Disk) (p : FatPrivate) (j : Nat) (r : Nat × Option Nat) (s : DiskStream)
    (run : Except Fault ((FatDescriptor × Option (FatEntry × Nat)) × DiskStream)) : Prop :=
  ∃ d t, run = .ok ((d, r.2.map fun i => (slotAt disk (driverAddr p i), i + 1)), t) ∧
    d.item = p.rootDirectory ∧
    t.reads = s.reads ++ (List.range' j (r.1 - j)).map fun i => (driverAddr p i, FAT_ENTRY_SIZE)

theorem Scanned.last (hd : d.item = p.rootDirectory) (found : Option Nat) :
    Scanned disk p j (j + 1, found) s (.ok
      ((d, found.map fun i => (slotAt disk (driverAddr p i), i + 1)),
        s.afterRead (driverAddr p j) FAT_ENTRY_SIZE)) :=
  ⟨d, _, rfl, hd, by simp [DiskStream.afterRead]⟩

theorem Scanned.cons {r : Nat × Option Nat}
    {run : Except Fault ((FatDescriptor × Option (FatEntry × Nat)) × DiskStream)} (hr : j + 1 ≤ r.1)
    (h : Scanned disk p (j + 1) r (s.afterRead (driverAddr p j) FAT_ENTRY_SIZE) run) :
    Scanned disk p j r s run := by
  obtain ⟨d, t, hrun, hd, hreads⟩ := h
  refine ⟨d, t, hrun, hd, ?_⟩
  rw [hreads, show r.1 - j = r.1 - (j + 1) + 1 by omega, List.range'_succ]
  simp [DiskStream.afterRead]

theorem le_rootScan {slot : Nat → FatEntry} {D n : Nat} : j ≤ (rootScan slot hit D n j).1 := by
  rcases Nat.eq_zero_or_pos n with rfl | hn
  · exact Nat.le_refl j
  · exact Nat.le_of_lt (rootScan_end hn).lt

/-- The driver's loop is `rootScan`, if that ends within the first `bytes_per_cluster` bytes. -/
theorem findEntryLoop_eq (hroot : p.rootDirectory.type = .rootDirectory)
    (hcmp : Compares name ext hit) (hbpc : p.bytesPerCluster < 2 ^ 24) {n : Nat} :
    ∀ {j fuel : Nat} {d : FatDescriptor} {e : FatEntry} {s : DiskStream}, s.disk = disk →
      n + j = eofSlots p.dataSector → RootAt p d j → d.eof = decide (n = 0) → n < fuel →
      FAT_ENTRY_SIZE * (rootScan (fun i => slotAt disk (driverAddr p i)) hit p.dataSector n j).1 ≤
        p.bytesPerCluster →
      Scanned disk p j (rootScan (fun i => slotAt disk (driverAddr p i)) hit p.dataSector n j) s
        (findEntryLoop p name ext fuel d e j s) := by
  induction n with
  | zero =>
    rintro j fuel d e s rfl hn h heof hfuel _
    obtain ⟨fuel, rfl⟩ := Nat.exists_eq_add_one_of_ne_zero (show fuel ≠ 0 by omega)
    refine ⟨d, s, ?_, h.item, by simp [rootScan]⟩
    rw [findEntryLoop, heof]
    rfl
  | succ n ih =>
    rintro j fuel d e s rfl hn h heof hfuel hfits
    obtain ⟨fuel, rfl⟩ := Nat.exists_eq_add_one_of_ne_zero (show fuel ≠ 0 by omega)
    have heof : d.eof = false := by simpa using heof
    have hlt := (@rootScan_end (fun i => slotAt s.disk (driverAddr p i)) hit p.dataSector (n + 1) j
      (by omega)).lt
    have hj : FAT_ENTRY_SIZE * (j + 1) ≤ p.bytesPerCluster :=
      Nat.le_trans (Nat.mul_le_mul_left _ hlt) hfits
    have hnext := fun e => @ih (j + 1) fuel (afterSlot p d j) e
      (s.afterRead (driverAddr p j) FAT_ENTRY_SIZE) rfl (by omega) h.next (afterSlot_eof heof hn)
      (by omega)
    rw [findEntryLoop_slot hroot hcmp h heof hbpc hj]
    simp only [rootScan] at hfits ⊢
    by_cases hio : p.dataSector < FAT_ENTRY_SIZE * (j + 1)
    · simp only [hio, if_true]
      exact .last (by exact h.item) none
    simp only [hio, if_false] at hfits ⊢
    by_cases hlfn : (slotAt s.disk (driverAddr p j)).isLfnOrLabel = true
    · simp only [hlfn, if_true] at hfits ⊢
      exact .cons le_rootScan (hnext _ hfits)
    simp only [hlfn, Bool.false_eq_true, if_false] at hfits ⊢
    by_cases hend : (slotAt s.disk (driverAddr p j)).isEnd = true
    · simp only [hend, if_true]
      exact .last (by exact h.item) none
    simp only [hend, Bool.false_eq_true, if_false] at hfits ⊢
    by_cases hhit : hit (slotAt s.disk (driverAddr p j)) = true
    · simp only [hhit, if_true]
      exact .last (by exact h.item) (some j)
    · simp only [hhit, Bool.false_eq_true, if_false] at hfits ⊢
      exact .cons le_rootScan (hnext _ hfits)

/-- Otherwise a run that returns has made a read that is not of one slot. -/
theorem findEntryLoop_stuck (hroot : p.rootDirectory.type = .rootDirectory)
    (hcmp : Compares name ext hit) (hbpc : p.bytesPerCluster < 2 ^ 24) {n : Nat} :
    ∀ {j fuel : Nat} {d : FatDescriptor} {e : FatEntry} {s t : DiskStream}
      {r : FatDescriptor × Option (FatEntry × Nat)}, s.disk = disk →
      n + j = eofSlots p.dataSector → RootAt p d j → d.eof = decide (n = 0) →
      FAT_ENTRY_SIZE * j ≤ p.bytesPerCluster → p.bytesPerCluster <
        FAT_ENTRY_SIZE * (rootScan (fun i => slotAt disk (driverAddr p i)) hit p.dataSector n j).1 →
      findEntryLoop p name ext fuel d e j s = .ok (r, t) →
      ∃ reads, s.reads ++ reads <+: t.reads ∧ ∃ x ∈ reads, x.2 ≠ FAT_ENTRY_SIZE := by
  induction n with
  | zero =>
    intro j fuel d e s t r _ _ _ _ hle hlt _
    simp only [rootScan] at hlt
    omega
  | succ n ih =>
    rintro j fuel d e s t r rfl hn h heof hle hover hrun
    have heof : d.eof = false := by simpa using heof
    cases fuel with
    | zero => cases hrun
    | succ fuel =>
      by_cases hj : FAT_ENTRY_SIZE * (j + 1) ≤ p.bytesPerCluster
      · -- a whole slot: the scan went on
        have hnext := fun e => @ih (j + 1) fuel (afterSlot p d j) e
          (s.afterRead (driverAddr p j) FAT_ENTRY_SIZE) t r rfl (by omega) h.next
          (afterSlot_eof heof hn) hj
        have hcons : (∃ reads, (s.afterRead (driverAddr p j) FAT_ENTRY_SIZE).reads ++ reads <+:
            t.reads ∧ ∃ x ∈ reads, x.2 ≠ FAT_ENTRY_SIZE) →
            ∃ reads, s.reads ++ reads <+: t.reads ∧ ∃ x ∈ reads, x.2 ≠ FAT_ENTRY_SIZE := by
          rintro ⟨reads, hpre, x, hx, hne⟩
          refine ⟨(driverAddr p j, FAT_ENTRY_SIZE) :: reads, ?_, x, List.mem_cons_of_mem _ hx, hne⟩
          simpa [DiskStream.afterRead] using hpre
        rw [findEntryLoop_slot hroot hcmp h heof hbpc hj] at hrun
        simp only [rootScan] at hover hrun
        by_cases hio : p.dataSector < FAT_ENTRY_SIZE * (j + 1)
        · simp only [hio, if_true] at hover
          omega
        simp only [hio, if_false] at hover hrun
        by_cases hlfn : (slotAt s.disk (driverAddr p j)).isLfnOrLabel = true
        · simp only [hlfn, if_true] at hover hrun
          exact hcons (hnext _ hover hrun)
        simp only [hlfn, Bool.false_eq_true, if_false] at hover hrun
        by_cases hend : (slotAt s.disk (driverAddr p j)).isEnd = true
        · simp only [hend, if_true] at hover
          omega
        simp only [hend, Bool.false_eq_true, if_false] at hover hrun
        by_cases hhit : hit (slotAt s.disk (driverAddr p j)) = true
        · simp only [hhit, if_true] at hover
          omega
        · simp only [hhit, Bool.false_eq_true, if_false] at hover hrun
          exact hcons (hnext _ hover hrun)
      · -- the short read
        rw [findEntryLoop, heof] at hrun
        simp only [Bool.false_eq_true, if_false, Bind.bind, StateT.bind, Except.bind] at hrun
        cases hread : __fat16Read p d FAT_ENTRY_SIZE s with
        | error e => simp [hread] at hrun
        | ok x =>
          obtain ⟨⟨d', res, bytes⟩, u⟩ := x
          have hshort := read_slot_short h heof hbpc hle (by omega) hread
          have hgrows : u.reads <+: t.reads := by
            have hloop := fun e => logs_findEntryLoop (p := p) name ext fuel d' e (j + 1) u r t
            simp only [hread] at hrun
            split at hrun
            · cases hrun; exact List.prefix_rfl
            split at hrun
            · exact hloop _ hrun
            split at hrun
            · cases hrun; exact List.prefix_rfl
            split at hrun
            · exact hloop _ hrun
            · cases hrun; exact List.prefix_rfl
          refine ⟨_, hshort.trans hgrows, _, List.mem_singleton_self _, ?_⟩
          rw [Nat.mul_add_one] at hj
          simp only
          omega

/-- More fuel changes nothing. -/
theorem below_findEntryLoop : ∀ (fuel : Nat) (d : FatDescriptor) (e : FatEntry) (j : Nat),
    Below .hang (findEntryLoop p name ext fuel d e j) (findEntryLoop p name ext (fuel + 1) d e j) := by
  intro fuel
  induction fuel with
  | zero => exact fun _ _ _ => .throw
  | succ fuel ih =>
    intro d e j
    rw [findEntryLoop, findEntryLoop]
    refine .ite (.refl _) (.bind (.refl _) fun r _ _ _ => ?_)
    exact .ite (.refl _) (.ite (ih _ _ _) (.ite (.refl _) (.ite (ih _ _ _) (.refl _))))

end Driver

/-! ## The lookup -/

section Lookup

variable {disk : Disk} {p : FatPrivate} {filename extension : List Byte}

/-- A slot that is not skipped and has the padded name. -/
def isMatch (filename extension : List Byte) (e : FatEntry) : Bool :=
  !e.isLfnOrLabel && e.filename == padded filename 8 && e.extension == padded extension 3

theorem padded_ne_zero {str : List Byte} {n : Nat} : ∀ c ∈ padded str n, c ≠ 0 := by
  intro c hc
  simp only [padded, List.mem_map, List.mem_range] at hc
  obtain ⟨i, -, rfl⟩ := hc
  split
  · rename_i h; exact charAt_ne_zero_of_lt_strnlen h
  · decide

theorem padded_length (str : List Byte) (n : Nat) : (padded str n).length = n := by simp [padded]

theorem filename_length (e : FatEntry) : e.filename.length = 8 := by
  simp [FatEntry.filename, FatEntry.raw]

theorem extension_length (e : FatEntry) : e.extension.length = 3 := by
  simp [FatEntry.extension, FatEntry.raw]

theorem strncmp_filename (filename : List Byte) (e : FatEntry) :
    strncmp (padded filename 8) e.filename 8 = 0 ↔ padded filename 8 = e.filename :=
  strncmp_eq_zero (padded_length filename 8) (filename_length e) padded_ne_zero

theorem strncmp_extension (extension : List Byte) (e : FatEntry) :
    strncmp (padded extension 3) e.extension 3 = 0 ↔ padded extension 3 = e.extension :=
  strncmp_eq_zero (padded_length extension 3) (extension_length e) padded_ne_zero

/-- The two comparisons of `fat16_find_entry_in_dir`: the padded request has no NUL, and neither it nor
the field has a terminator, whatever bytes lie behind them. -/
structure FieldCompare (e : FatEntry) (filename extension : List Byte) : Prop where
  no_nul : (∀ c ∈ padded filename 8, c ≠ 0) ∧ ∀ c ∈ padded extension 3, c ≠ 0
  filename : ∀ rest₁ rest₂,
    ((strncmpRun (charAt (padded filename 8 ++ rest₁)) (charAt (e.raw ++ rest₂)) 8).1 = 0 ↔
      padded filename 8 = e.filename)
  extension : ∀ rest₁ rest₂,
    ((strncmpRun (charAt (padded extension 3 ++ rest₁)) (charAt (e.raw.drop 8 ++ rest₂)) 3).1 = 0 ↔
      padded extension 3 = e.extension)

theorem fieldCompare (e : FatEntry) (filename extension : List Byte) :
    FieldCompare e filename extension := by
  refine ⟨⟨padded_ne_zero, padded_ne_zero⟩, fun rest₁ rest₂ => ?_, fun rest₁ rest₂ => ?_⟩
  · have hraw : e.raw ++ rest₂ = e.filename ++ (e.raw.drop 8 ++ rest₂) := by
      rw [FatEntry.filename, ← List.append_assoc, List.take_append_drop]
    rw [hraw, strncmpRun_arrays (by decide) (padded_length filename 8) (filename_length e),
      strncmp_filename]
  · have hraw : e.raw.drop 8 ++ rest₂ = e.extension ++ ((e.raw.drop 8).drop 3 ++ rest₂) := by
      rw [FatEntry.extension, ← List.append_assoc, List.take_append_drop]
    rw [hraw, strncmpRun_arrays (by decide) (padded_length extension 3) (extension_length e),
      strncmp_extension]

/-- `strncmp` stays inside its `n` bytes, and compares them. -/
theorem strncmp_bounded (s₁ s₂ : Nat → Byte) (n : Nat) (hn : 1 ≤ n) : BoundedCompare s₁ s₂ n ∧
    ∀ (e : FatEntry) (filename extension : List Byte), FieldCompare e filename extension :=
  ⟨strncmpRun_spec s₁ s₂ hn, fieldCompare⟩

theorem strncmp_bounded_abc :
    BoundedCompare (charAt (ascii "abc")) (charAt (ascii "abd")) 2 :=
  (strncmp_bounded _ _ 2 (by decide)).1

theorem compares_isMatch (filename extension : List Byte) :
    Compares (padded filename 8) (padded extension 3) (isMatch filename extension) := by
  intro e hlfn
  rw [ne_eq, ne_eq, strncmp_filename, strncmp_extension]
  simp only [isMatch, hlfn, Bool.not_false, Bool.true_and, Bool.and_eq_false_iff, beq_eq_false_iff_ne]
  exact or_congr (not_congr eq_comm) (not_congr eq_comm)

/-- What a lookup in the root directory is for: the slots to examine and the matching one. -/
def rootLookup (disk : Disk) (p : FatPrivate) (filename extension : List Byte) : Nat × Option Nat :=
  dirScan (fun j => slotAt disk (rootSlotAddr p j)) (isMatch filename extension)
    p.header.rootDirEntries 0

/-- From any position of the stream, `fat16_find_entry_in_dir` returns, has read the slots to
examine and nothing else, and returns the item of the matching slot. -/
def LooksUp (kzallocOk : Bool) (disk : Disk) (p : FatPrivate) (d : FatDescriptor)
    (filename extension : List Byte) : Prop :=
  ∀ s : DiskStream, s.disk = disk → ∃ fuel d' t,
    fat16FindEntryInDir kzallocOk fuel p d filename extension s = .ok ((d',
      (rootLookup disk p filename extension).2.map fun j =>
        .ofEntry p p.rootDirectory (slotAt disk (rootSlotAddr p j)) (j + 1)), t) ∧
    t.reads = s.reads ++ (List.range (rootLookup disk p filename extension).1).map
      fun j => (rootSlotAddr p j, FAT_ENTRY_SIZE)

/-- The directory has slots; those to examine lie in the first `bytes_per_cluster` bytes and below
4 GiB, and the comparison with `data_sector` ends the scan behind the last one; the item can be
allocated. -/
structure RootDirFits (kzallocOk : Bool) (disk : Disk) (p : FatPrivate)
    (filename extension : List Byte) : Prop where
  slots : 0 < p.header.rootDirEntries
  cluster : FAT_ENTRY_SIZE * (rootLookup disk p filename extension).1 ≤ p.bytesPerCluster
  address : rootSlotAddr p ((rootLookup disk p filename extension).1 - 1) < 2 ^ 32
  ends : EndsRight (fun j => slotAt disk (rootSlotAddr p j)) p.dataSector
    (rootLookup disk p filename extension)
  memory : (rootLookup disk p filename extension).2 ≠ none → kzallocOk = true

theorem driverAddr_eq {j : Nat} (h : rootSlotAddr p j < 2 ^ 32) :
    driverAddr p j = rootSlotAddr p j := by
  unfold rootSlotAddr at *
  rw [driverAddr, u32, u32, Nat.mod_add_mod, Nat.mod_eq_of_lt h]

/-- Slots that no scan looks at do not matter. -/
theorem ScanEnd.congr {slot slot' : Nat → FatEntry} {hit : FatEntry → Bool} {n j : Nat}
    {r : Nat × Option Nat} (h : ScanEnd slot hit n j r) (hs : ∀ i < r.1, slot i = slot' i) :
    ScanEnd slot' hit n j r := by
  have hlt := h.lt
  refine ⟨h.lt, h.le, fun i h₁ h₂ => ?_, fun i hi => ?_, fun hnone => ?_⟩
  · rw [← hs i (by omega)]; exact h.before i h₁ h₂
  · have hfound := h.found i hi
    rw [← hs i (by omega)]; exact hfound
  · rw [← hs _ (by omega)]; exact h.missing hnone

theorem EndsRight.congr {slot slot' : Nat → FatEntry} {D : Nat} {r : Nat × Option Nat}
    (h : EndsRight slot D r) (hr : 0 < r.1) (hs : ∀ i < r.1, slot i = slot' i) :
    EndsRight slot' D r := by
  unfold EndsRight at *
  rw [← hs _ (by omega)]
  exact h

/-- The root directory of an accepted volume. -/
theorem fat16Probe_root {kzallocOk : Nat → Bool} (hp : fat16Probe kzallocOk disk = .ok (.ok p)) :
    p.rootDirectory.type = .rootDirectory ∧ (0 < p.header.rootDirEntries → 0 < p.dataSector) := by
  obtain ⟨rfl, hpos⟩ := fat16Probe_eq hp
  refine ⟨rfl, fun hE => ?_⟩
  have hE' := le16_lt (disk.slice 0 FAT_HEADER_SIZE) 17
  have hbps := le16_lt (disk.slice 0 FAT_HEADER_SIZE) 11
  simp only [FatPrivate.ofHeader, FatHeader.ofBytes, FAT_ENTRY_SIZE, u32] at *
  have hdiv : 0 < (le16 (disk.slice 0 FAT_HEADER_SIZE) 17 * 32 +
      le16 (disk.slice 0 FAT_HEADER_SIZE) 11 - 1) % 2 ^ 32 / le16 (disk.slice 0 FAT_HEADER_SIZE) 11 := by
    rw [Nat.mod_eq_of_lt (by omega)]
    exact Nat.div_pos (by omega) hpos
  omega

variable {d d' : FatDescriptor} {s t : DiskStream} {fuel : Nat} {kzallocOk : Bool}

/-- What `fat16_find_entry_in_dir` makes of the outcome of its loop. -/
theorem findEntryInDir_of_loop (hd : d.item.type = .directory ∨ d.item.type = .rootDirectory)
    {found : Option (FatEntry × Nat)}
    (h : findEntryLoop p (padded filename 8) (padded extension 3) fuel (__fat16ResetCursors d)
      .zero 0 s = .ok ((d', found), t)) :
    ∃ d'', fat16FindEntryInDir kzallocOk fuel p d filename extension s = .ok ((d'',
        if kzallocOk then found.map fun x => .ofEntry p d'.item x.1 x.2 else none), t) ∧
      (found = none ∨ kzallocOk = true → d'' = __fat16ResetCursors d') := by
  rw [fat16FindEntryInDir, if_neg (by rcases hd with hd | hd <;> simp [hd])]
  simp only [Bind.bind, StateT.bind, Except.bind, h]
  cases found with
  | none => exact ⟨_, by simp; rfl, fun _ => rfl⟩
  | some x =>
    cases kzallocOk with
    | true => exact ⟨_, rfl, fun _ => rfl⟩
    | false => exact ⟨_, rfl, by simp⟩

theorem loop_of_findEntryInDir (hd : d.item.type = .directory ∨ d.item.type = .rootDirectory)
    {r : FatDescriptor × Option FatItem}
    (h : fat16FindEntryInDir kzallocOk fuel p d filename extension s = .ok (r, t)) :
    ∃ d' found, findEntryLoop p (padded filename 8) (padded extension 3) fuel
      (__fat16ResetCursors d) .zero 0 s = .ok ((d', found), t) := by
  rw [fat16FindEntryInDir, if_neg (by rcases hd with hd | hd <;> simp [hd])] at h
  simp only [Bind.bind, StateT.bind, Except.bind] at h
  cases hloop : findEntryLoop p (padded filename 8) (padded extension 3) fuel
      (__fat16ResetCursors d) .zero 0 s with
  | error e => simp [hloop] at h
  | ok x =>
    obtain ⟨⟨d', found⟩, u⟩ := x
    simp only [hloop] at h
    refine ⟨d', found, ?_⟩
    cases found with
    | none => cases h; rfl
    | some x => cases kzallocOk <;> (cases h; rfl)

theorem below_findEntryInDir (kzallocOk : Bool) (fuel : Nat) :
    Below .hang (fat16FindEntryInDir kzallocOk fuel p d filename extension)
      (fat16FindEntryInDir kzallocOk (fuel + 1) p d filename extension) := by
  rw [fat16FindEntryInDir, fat16FindEntryInDir]
  exact .ite (.refl _) (.bind (below_findEntryLoop _ _ _ _) fun _ _ _ _ => .refl _)

theorem resetCursors_rootAt (hd : d.item = p.rootDirectory) : RootAt p (__fat16ResetCursors d) 0 :=
  ⟨hd, rfl, rfl, by simp [__fat16ResetCursors, hd]⟩

/-- What the driver's loop reads and finds. -/
def driverLookup (disk : Disk) (p : FatPrivate) (filename extension : List Byte) :
    Nat × Option Nat :=
  rootScan (fun j => slotAt disk (driverAddr p j)) (isMatch filename extension) p.dataSector
    (eofSlots p.dataSector) 0

theorem eofSlots_pos (D : Nat) : 0 < eofSlots D := by unfold eofSlots; omega

theorem resetCursors_eof (D : Nat) : (__fat16ResetCursors d).eof = decide (eofSlots D = 0) := by
  simp only [__fat16ResetCursors, Nat.pos_iff_ne_zero.mp (eofSlots_pos D), decide_false]

/-- The lookup, if the driver's scan ends within the first `bytes_per_cluster` bytes. -/
theorem findEntryInDir_eq (hroot : p.rootDirectory.type = .rootDirectory)
    (hbpc : p.bytesPerCluster < 2 ^ 24) (hd : d.item = p.rootDirectory) (hs : s.disk = disk)
    (hfits : FAT_ENTRY_SIZE * (driverLookup disk p filename extension).1 ≤ p.bytesPerCluster)
    (hfuel : eofSlots p.dataSector < fuel) :
    ∃ d' t, fat16FindEntryInDir kzallocOk fuel p d filename extension s = .ok ((d',
        if kzallocOk then (driverLookup disk p filename extension).2.map fun j =>
          .ofEntry p p.rootDirectory (slotAt disk (driverAddr p j)) (j + 1) else none), t) ∧
      t.reads = s.reads ++ (List.range (driverLookup disk p filename extension).1).map
        fun j => (driverAddr p j, FAT_ENTRY_SIZE) := by
  obtain ⟨d', t, hloop, hitem, hreads⟩ := findEntryLoop_eq hroot
    (compares_isMatch filename extension) hbpc hs (Nat.add_zero _) (resetCursors_rootAt hd)
    (resetCursors_eof p.dataSector) hfuel hfits
  obtain ⟨d'', hrun, -⟩ := @findEntryInDir_of_loop p filename extension d d' s t fuel kzallocOk
    (.inr (by rw [hd, hroot])) _ hloop
  refine ⟨d'', t, ?_, ?_⟩
  · rw [hrun, hitem, Option.map_map]
    rfl
  · rw [hreads, Nat.sub_zero, ← List.range_eq_range']
    rfl

theorem looksUp_of_fits (hroot : p.rootDirectory.type = .rootDirectory)
    (hbpc : p.bytesPerCluster < 2 ^ 24) (hd : d.item = p.rootDirectory)
    (h : RootDirFits kzallocOk disk p filename extension) :
    LooksUp kzallocOk disk p d filename extension := by
  obtain ⟨hslot, hcluster, haddr, hends, hmem⟩ := h
  have hscan : ScanEnd (fun j => slotAt disk (rootSlotAddr p j)) (isMatch filename extension)
      p.header.rootDirEntries 0 (rootLookup disk p filename extension) := dirScan_end hslot
  have hpos := hscan.lt
  -- the slots that the driver sees are those of the region
  have haddrs : ∀ j < (rootLookup disk p filename extension).1,
      driverAddr p j = rootSlotAddr p j := by
    refine fun j hj => driverAddr_eq ?_
    unfold rootSlotAddr FAT_ENTRY_SIZE at *
    omega
  have hslots : ∀ j < (rootLookup disk p filename extension).1,
      slotAt disk (rootSlotAddr p j) = slotAt disk (driverAddr p j) :=
    fun j hj => by rw [haddrs j hj]
  have hhit : ∀ e, isMatch filename extension e = true → e.isLfnOrLabel = false := by
    intro e h
    simp only [isMatch, Bool.and_eq_true, Bool.not_eq_true'] at h
    exact h.1.1
  have heq : driverLookup disk p filename extension = rootLookup disk p filename extension :=
    rootScan_eq hhit (hscan.congr hslots) (hends.congr hpos hslots) (Nat.add_zero _) hpos
  rintro s hs
  obtain ⟨d', t, hrun, hreads⟩ := @findEntryInDir_eq disk p filename extension d s
    (eofSlots p.dataSector + 1) kzallocOk hroot hbpc hd hs (by rw [heq]; exact hcluster) (by omega)
  refine ⟨_, d', t, hrun.trans ?_, ?_⟩
  · rw [heq]
    cases hfound : (rootLookup disk p filename extension).2 with
    | none => simp
    | some j =>
      have hj := (hscan.found j hfound).1
      simp only [hmem (by simp [hfound]), if_true, Option.map_some, haddrs j (by omega)]
  · rw [hreads, heq]
    congr 1
    refine List.map_congr_left fun j hj => ?_
    rw [haddrs j (List.mem_range.mp hj)]

theorem fits_of_looksUp (hroot : p.rootDirectory.type = .rootDirectory)
    (hD : 0 < p.header.rootDirEntries → 0 < p.dataSector) (hbpc : p.bytesPerCluster < 2 ^ 24)
    (hd : d.item = p.rootDirectory) (h : LooksUp kzallocOk disk p d filename extension) :
    RootDirFits kzallocOk disk p filename extension := by
  obtain ⟨fuel, d₁, t, hrun, hreads⟩ := h ⟨disk, 0, []⟩ rfl
  obtain ⟨d₂, found, hloop⟩ := loop_of_findEntryInDir (.inr (by rw [hd, hroot])) hrun
  have hrend : RootEnd (fun j => slotAt disk (driverAddr p j)) (isMatch filename extension)
      p.dataSector (eofSlots p.dataSector) 0 (driverLookup disk p filename extension) :=
    rootScan_end (eofSlots_pos _)
  have hfits : FAT_ENTRY_SIZE * (driverLookup disk p filename extension).1 ≤ p.bytesPerCluster := by
    by_contra hover
    -- a read of another length is in the record
    obtain ⟨reads, hpre, x, hx, hne⟩ := @findEntryLoop_stuck disk p _ _ _ hroot
      (compares_isMatch filename extension) hbpc (eofSlots p.dataSector) 0 _ _ _ _ _ _ rfl
      (Nat.add_zero _) (resetCursors_rootAt hd) (resetCursors_eof p.dataSector) (by simp)
      (Nat.lt_of_not_le hover) hloop
    have hmem := hpre.subset (List.mem_append_right _ hx)
    rw [hreads] at hmem
    simp only [List.nil_append, List.mem_map] at hmem
    obtain ⟨j, -, rfl⟩ := hmem
    exact hne rfl
  obtain ⟨d₃, t₃, hrun₃, hreads₃⟩ := @findEntryInDir_eq disk p filename extension d ⟨disk, 0, []⟩
    (max fuel (eofSlots p.dataSector + 1)) kzallocOk hroot hbpc hd rfl hfits (by omega)
  -- with more fuel the outcome is the same
  have hsame := ((Below.le (below_findEntryInDir kzallocOk)
    (Nat.le_max_left fuel (eofSlots p.dataSector + 1))).ok hrun).symm.trans hrun₃
  simp only [Except.ok.injEq, Prod.mk.injEq] at hsame
  obtain ⟨⟨-, hresult⟩, rfl⟩ := hsame
  have hcount := congrArg List.length (hreads₃.symm.trans hreads)
  simp only [List.nil_append, List.length_map, List.length_range] at hcount
  have haddrs : ∀ j < (rootLookup disk p filename extension).1,
      driverAddr p j = rootSlotAddr p j := by
    have heq := hreads₃.symm.trans hreads
    rw [hcount, List.append_right_inj, List.map_inj_left] at heq
    intro j hj
    exact (Prod.mk.inj (heq j (List.mem_range.mpr hj))).1
  have hpos := hrend.lt
  rw [hcount] at hpos hfits
  have hslot : 0 < p.header.rootDirEntries := by
    refine Nat.pos_of_ne_zero fun h0 => ?_
    rw [rootLookup, h0] at hpos
    exact absurd hpos (by simp [dirScan])
  have hscan : ScanEnd (fun j => slotAt disk (rootSlotAddr p j)) (isMatch filename extension)
      p.header.rootDirEntries 0 (rootLookup disk p filename extension) := dirScan_end hslot
  have hslots : ∀ j < (rootLookup disk p filename extension).1,
      slotAt disk (rootSlotAddr p j) = slotAt disk (driverAddr p j) :=
    fun j hj => by rw [haddrs j hj]
  -- a match that is there was returned, so it was found and allocated
  have hfound : (rootLookup disk p filename extension).2 ≠ none →
      (driverLookup disk p filename extension).2 ≠ none ∧ kzallocOk = true := by
    intro hne
    obtain ⟨j, hj⟩ := Option.ne_none_iff_exists'.mp hne
    rw [hj, Option.map_some] at hresult
    cases kzallocOk with
    | false => simp at hresult
    | true =>
      refine ⟨fun h => ?_, rfl⟩
      rw [h] at hresult
      simp at hresult
  refine ⟨hslot, hfits, ?_, ?_, fun hne => (hfound hne).2⟩
  · rw [← haddrs _ (by omega)]
    exact Nat.mod_lt _ (by decide)
  · exact (endsRight_of_rootScan (hD hslot) (hscan.congr hslots) hrend hcount
      fun hne => (hfound hne).1).congr hpos fun j hj => (hslots j hj).symm

/-- On an accepted volume, looking up a name in the root directory does what it is for, exactly if
the directory fits. -/
theorem findEntry_iff {kzallocs : Nat → Bool} (hp : fat16Probe kzallocs disk = .ok (.ok p))
    (hd : d.item = p.rootDirectory) (filename extension : List Byte) (kzallocOk : Bool) :
    LooksUp kzallocOk disk p d filename extension ↔
      RootDirFits kzallocOk disk p filename extension := by
  obtain ⟨hroot, hD⟩ := fat16Probe_root hp
  have hbpc := (fat16Probe_geometry hp).bytesPerCluster_lt
  exact ⟨fits_of_looksUp hroot hD hbpc hd, looksUp_of_fits hroot hbpc hd⟩

/-! A volume with a root directory of 16 slots, of which the first is the file `A`. -/

def oneFileDisk (reservedSectors : Byte) : Disk where
  bytes a :=
    if 54 ≤ a ∧ a < 62 then charAt FAT16_SYSTEM_ID (a - 54)
    else if a = 12 then 2                     -- 512 bytes per sector
    else if a = 13 ∨ a = 16 ∨ a = 22 then 1   -- one sector per cluster, one FAT of one sector
    else if a = 14 then reservedSectors
    else if a = 17 then 16
    else if a = 38 then 0x29
    else if (reservedSectors.toNat + 1) * 512 ≤ a then
      charAt (ascii "A          ") (a - (reservedSectors.toNat + 1) * 512)
    else 0

def oneFileVolume (reservedSectors : Byte) : FatPrivate :=
  .ofHeader (.ofBytes ((oneFileDisk reservedSectors).slice 0 FAT_HEADER_SIZE))

/-- With `data_sector = 32`, the lookup of `A` finds it. -/
theorem findEntry_iff_first_slot :
    rootLookup (oneFileDisk 30) (oneFileVolume 30) (ascii "A") [] = (1, some 0) ∧
      LooksUp true (oneFileDisk 30) (oneFileVolume 30)
        (__fat16Open (oneFileVolume 30) (oneFileVolume 30).rootDirectory) (ascii "A") [] := by
  have hlookup : rootLookup (oneFileDisk 30) (oneFileVolume 30) (ascii "A") [] = (1, some 0) := by
    decide
  have hp : fat16Probe (fun _ => true) (oneFileDisk 30) = .ok (.ok (oneFileVolume 30)) :=
    fat16Probe_accepts (by decide) (by decide) (by decide)
  refine ⟨hlookup, (findEntry_iff hp rfl (ascii "A") [] true).mpr ?_⟩
  refine ⟨by decide, by rw [hlookup]; decide, by rw [hlookup]; decide, ?_, fun _ => rfl⟩
  rw [hlookup]
  exact ⟨by decide, show FAT_ENTRY_SIZE * 1 ≤ (oneFileVolume 30).dataSector by decide⟩

/-- With `data_sector = 3`, the first slot already lies behind the end that the driver computes. -/
theorem findEntry_misses_first_slot :
    ¬ ∀ (disk : Disk) (p : FatPrivate), fat16Probe (fun _ => true) disk = .ok (.ok p) →
      p.header.bytesPerSector ≠ 0 → p.header.sectorsPerCluster ≠ 0 →
      ∀ filename extension : List Byte,
        LooksUp true disk p (__fat16Open p p.rootDirectory) filename extension := by
  intro h
  have hp : fat16Probe (fun _ => true) (oneFileDisk 1) = .ok (.ok (oneFileVolume 1)) :=
    fat16Probe_accepts (by decide) (by decide) (by decide)
  have hlookup : rootLookup (oneFileDisk 1) (oneFileVolume 1) (ascii "A") [] = (1, some 0) := by
    decide
  obtain ⟨hroot, hD⟩ := fat16Probe_root hp
  have hfits := fits_of_looksUp hroot hD (fat16Probe_geometry hp).bytesPerCluster_lt rfl
    (h _ _ hp (by decide) (by decide) (ascii "A") [])
  have hends := hfits.ends
  rw [hlookup] at hends
  exact absurd hends.2 (show ¬ FAT_ENTRY_SIZE * 1 ≤ (oneFileVolume 1).dataSector by decide)

end Lookup

end AvocadOS
