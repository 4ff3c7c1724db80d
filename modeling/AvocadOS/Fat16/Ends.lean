import AvocadOS.Fat16.RootDir
import AvocadOS.Fat16.Walk
import Mathlib.Data.Nat.Find

/-!
# When directory scans end

`fat16_find_entry_in_dir` and `fat16_count_dir_items` read a directory slot by slot. `dirLoop` is
what their loops have in common: it stops at the end of the directory, after a failed read, and at
a slot with `stop`.

* `findEntryLoop_dirLoop`, `countDirItemsLoop_dirLoop`: both loops end when `dirLoop` does;
* `dirLoop_ends_iff`: a scan ends if and only if it does not go on behind some slot;
* `chainScan_ends_iff`: a directory with clusters: its chain ends, or a slot stops the scan;
* `rootScan_ends_iff`: the root directory, where the driver gets stuck behind `bytes_per_cluster`;
* `scans_end_iff`: both functions, on every directory of every volume.
-/

namespace AvocadOS

set_option linter.style.nameCheck false

/-- A loop with `fuel` returns from any position of a stream on `disk`, given enough of it. -/
def Terminates {α : Type} (disk : Disk) (m : Nat → DevM α) : Prop :=
  ∀ s : DiskStream, s.disk = disk → ∃ fuel r, m fuel s = .ok r

theorem error_neg : - EIO < 0 := by decide

/-- Nothing is read behind `eof`. -/
theorem readLoop_eof {p : FatPrivate} {d : FatDescriptor} (h : d.eof = true) (len fuel : Nat)
    (out : List Byte) : __fat16ReadLoop p len fuel d out = pure (d, asInt out.length, out) := by
  cases fuel with
  | zero => rfl
  | succ fuel => rw [__fat16ReadLoop, if_neg (by simp [h])]

/-! ## The common loop -/

section Common

variable {disk : Disk} {p : FatPrivate} {stop : FatEntry → Bool} {d : FatDescriptor} {e : FatEntry}
  {s : DiskStream} {fuel k : Nat}

def dirLoop (p : FatPrivate) (stop : FatEntry → Bool) : Nat → FatDescriptor → FatEntry → DevM Unit
  | 0, _, _ => throw .hang
  | fuel + 1, d, entry =>
    if d.eof then pure ()
    else do
      let (d, res, bytes) ← __fat16Read p d FAT_ENTRY_SIZE
      let entry := entry.overlay bytes
      if res < 0 ∨ stop entry then pure () else dirLoop p stop fuel d entry

/-- The slots that stop `fat16_count_dir_items`. -/
def countStops (e : FatEntry) : Bool := !e.isLfnOrLabel && e.isEnd

/-- The slots that stop `fat16_find_entry_in_dir`. -/
def findStops (filename extension : List Byte) (e : FatEntry) : Bool :=
  countStops e || isMatch filename extension e

theorem countStops_eq {e : FatEntry} (h : e.isLfnOrLabel = false) :
    countStops e = decide (charAt e.filename 0 = 0) := by
  rw [countStops, h, FatEntry.isEnd, Bool.not_false, Bool.true_and]
  rfl

theorem countDirItemsLoop_dirLoop (count : Int) :
    (fun _ => ()) <$> countDirItemsLoop p fuel d e count = dirLoop p countStops fuel d e := by
  induction fuel generalizing d e count with
  | zero => rfl
  | succ fuel ih =>
    rw [countDirItemsLoop, dirLoop]
    split
    · rfl
    rw [map_bind]
    refine bind_congr fun r => ?_
    obtain ⟨d', res, bytes⟩ := r
    dsimp only
    by_cases hres : res < 0
    · simp [hres]
    cases hlfn : (e.overlay bytes).isLfnOrLabel with
    | true => simp [hres, hlfn, ih, countStops]
    | false =>
      have hstop := countStops_eq hlfn
      by_cases hend : charAt (e.overlay bytes).filename 0 = 0
      · simp [hend, hres, hstop]
      · rw [decide_eq_false hend] at hstop
        rw [if_neg hend]
        simp [hres, hstop, ih]

theorem findEntryLoop_dirLoop (filename extension : List Byte) (dirPos : Nat) :
    (fun _ => ()) <$> findEntryLoop p (padded filename 8) (padded extension 3) fuel d e dirPos =
      dirLoop p (findStops filename extension) fuel d e := by
  induction fuel generalizing d e dirPos with
  | zero => rfl
  | succ fuel ih =>
    rw [findEntryLoop, dirLoop]
    split
    · rfl
    rw [map_bind]
    refine bind_congr fun r => ?_
    obtain ⟨d', res, bytes⟩ := r
    dsimp only
    by_cases hres : res < 0
    · simp [hres]
    cases hlfn : (e.overlay bytes).isLfnOrLabel with
    | true => simp [hres, hlfn, ih, findStops, countStops, isMatch]
    | false =>
      have hstop := countStops_eq hlfn
      have hmatch := compares_isMatch filename extension (e.overlay bytes) hlfn
      by_cases hend : charAt (e.overlay bytes).filename 0 = 0
      · simp [hend, hres, findStops, hstop]
      · rw [decide_eq_false hend] at hstop
        rw [if_neg hend]
        cases hhit : isMatch filename extension (e.overlay bytes) with
        | true =>
          have hno := mt hmatch.mp (by rw [hhit]; exact Bool.noConfusion)
          simp only [hno, if_false]
          simp [hres, findStops, hhit]
        | false =>
          rw [if_pos (hmatch.mpr hhit)]
          simp [hres, findStops, hstop, hhit, ih]

/-- A scan ends if and only if it does not go on behind some slot. `At d e k` says that the loop
is in front of slot `k`, and `goes k` that it goes on behind it. -/
theorem dirLoop_ends_iff {At : FatDescriptor → FatEntry → Nat → Prop} {goes : Nat → Prop}
    (hon : ∀ {d e k s}, s.disk = disk → At d e k → goes k → ∃ d' e' t, t.disk = disk ∧
      At d' e' (k + 1) ∧ ∀ fuel, dirLoop p stop (fuel + 1) d e s = dirLoop p stop fuel d' e' t)
    (hoff : ∀ {d e k s}, s.disk = disk → At d e k → ¬ goes k → ∃ r, dirLoop p stop 2 d e s = .ok r)
    (h : At d e 0) (hs : s.disk = disk) :
    (∃ fuel r, dirLoop p stop fuel d e s = .ok r) ↔ ∃ k, ¬ goes k := by
  constructor
  · rintro ⟨fuel, r, hrun⟩
    by_contra hall
    have hgoes : ∀ k, goes k := fun k => by_contra fun hk => hall ⟨k, hk⟩
    -- every iteration leads in front of the next slot
    have hhang : ∀ fuel k d e s, s.disk = disk → At d e k →
        dirLoop p stop fuel d e s = .error .hang := by
      intro fuel
      induction fuel with
      | zero => exact fun _ _ _ _ _ _ => rfl
      | succ fuel ih =>
        intro k d e s hs h
        obtain ⟨d', e', t, ht, h', hstep⟩ := hon hs h (hgoes k)
        rw [hstep]
        exact ih _ _ _ _ ht h'
    rw [hhang fuel 0 d e s hs h] at hrun
    cases hrun
  · rintro ⟨n, hn⟩
    have hends : ∀ j k d e s, j + k = n → s.disk = disk → At d e k →
        ∃ fuel r, dirLoop p stop fuel d e s = .ok r := by
      intro j
      induction j with
      | zero =>
        intro k d e s hk hs h
        obtain rfl : k = n := by omega
        exact ⟨2, hoff hs h hn⟩
      | succ j ih =>
        intro k d e s hk hs h
        by_cases hgo : goes k
        · obtain ⟨d', e', t, ht, h', hstep⟩ := hon hs h hgo
          obtain ⟨fuel, r, hrun⟩ := ih (k + 1) d' e' t (by omega) ht h'
          exact ⟨fuel + 1, r, (hstep fuel).trans hrun⟩
        · exact ⟨2, hoff hs h hgo⟩
    exact hends n 0 d e s (Nat.add_zero n) hs h

/-- One iteration, from what the read gives. -/
theorem dirLoop_read {d' : FatDescriptor} {res : Int} {bytes : List Byte} {t : DiskStream}
    (heof : d.eof = false) (hread : __fat16Read p d FAT_ENTRY_SIZE s = .ok ((d', res, bytes), t)) :
    dirLoop p stop (fuel + 1) d e s =
      if res < 0 ∨ stop (e.overlay bytes) = true then .ok ((), t)
      else dirLoop p stop fuel d' (e.overlay bytes) t := by
  rw [dirLoop, heof]
  simp only [Bool.false_eq_true, if_false, Bind.bind, StateT.bind, Except.bind, hread]
  split <;> rfl

/-- The loop ends after a read that fails or sets `eof`, and at a slot that stops it. -/
theorem dirLoop_off {d' : FatDescriptor} {res : Int} {bytes : List Byte} {t : DiskStream}
    (heof : d.eof = false) (hread : __fat16Read p d FAT_ENTRY_SIZE s = .ok ((d', res, bytes), t))
    (h : res < 0 ∨ d'.eof = true ∨ stop (e.overlay bytes) = true) :
    ∃ r, dirLoop p stop 2 d e s = .ok r := by
  rw [show 2 = 1 + 1 from rfl, dirLoop_read heof hread]
  split
  · exact ⟨_, rfl⟩
  · rename_i hno
    obtain ⟨hres, hstop⟩ := not_or.mp hno
    have he : d'.eof = true := (h.resolve_left hres).resolve_right hstop
    refine ⟨((), t), ?_⟩
    rw [dirLoop, he]
    rfl

end Common

/-! ## Directories with clusters -/

section Chain

variable {disk : Disk} {p : FatPrivate} {item : FatItem} {stop : FatEntry → Bool}
  {d : FatDescriptor} {k : Nat}

/-- The position in front of slot `k`; it wraps. -/
def slotPos (k : Nat) : Nat := u32 (FAT_ENTRY_SIZE * k)

theorem slotPos_le (k : Nat) : slotPos k + FAT_ENTRY_SIZE ≤ 2 ^ 32 := by
  unfold slotPos u32 FAT_ENTRY_SIZE
  omega

theorem slotPos_succ (k : Nat) : u32 (slotPos k + FAT_ENTRY_SIZE) = slotPos (k + 1) := by
  unfold slotPos u32 FAT_ENTRY_SIZE
  omega

/-- The sector of the descriptor in front of slot `k`: that of the item at the beginning, and that
of the chain's cluster later on. -/
def slotSector (disk : Disk) (p : FatPrivate) (item : FatItem) (k : Nat) : Nat :=
  if k = 0 then item.firstSector
  else fat16ClusterNumberToDataSector p (clusterAt disk p item (slotPos k))

theorem slotSector_succ (disk : Disk) (p : FatPrivate) (item : FatItem) (k : Nat) :
    slotSector disk p item (k + 1) =
      fat16ClusterNumberToDataSector p (clusterAt disk p item (slotPos (k + 1))) :=
  if_neg (Nat.succ_ne_zero k)

/-- Slot `k` of a directory, as the driver reads it. -/
def dirSlot (disk : Disk) (p : FatPrivate) (item : FatItem) (k : Nat) : FatEntry :=
  let address := u32 (u32 (slotSector disk p item k * p.header.bytesPerSector) +
    slotPos k % p.bytesPerCluster)
  ⟨fun i => disk.bytes (sourceAt disk p item address (slotPos k) i)⟩

/-- The chain does not end at a cluster that begins in slot `k` or at the next slot. -/
def SlotLinked (disk : Disk) (p : FatPrivate) (item : FatItem) (k : Nat) : Prop :=
  ∀ q, slotPos k < q → q ≤ slotPos k + FAT_ENTRY_SIZE →
    q % p.bytesPerCluster = 0 ∨ q = slotPos k + FAT_ENTRY_SIZE →
    ¬ EndsChain (clusterAt disk p item (u32 q))

/-- A descriptor in front of slot `k`. -/
structure DirAt (disk : Disk) (p : FatPrivate) (item : FatItem) (d : FatDescriptor) (k : Nat) :
    Prop where
  item_eq : d.item = item
  eof : d.eof = false
  pos : d.pos = slotPos k
  relativePos : d.relativePos = d.pos % p.bytesPerCluster
  sector : d.currentClusterFirstSector = slotSector disk p item k

theorem DirAt.between (h : DirAt disk p item d k) :
    Between disk p item (u32 (u32 (slotSector disk p item k * p.header.bytesPerSector) +
      slotPos k % p.bytesPerCluster)) (slotPos k) d 0 := by
  refine ⟨h.item_eq, h.eof, h.pos, h.relativePos, .inl ⟨rfl, ?_⟩⟩
  rw [__fat16DescriptorToAbsoluteAddress, h.sector, h.relativePos, h.pos]

/-- Reading a slot of 32 bytes leaves nothing of the entry before it. -/
theorem overlay_dirSlot (e : FatEntry) :
    e.overlay (((List.range FAT_ENTRY_SIZE).map (sourceAt disk p item
      (u32 (u32 (slotSector disk p item k * p.header.bytesPerSector) +
        slotPos k % p.bytesPerCluster)) (slotPos k))).map disk.bytes) = dirSlot disk p item k := by
  unfold FatEntry.overlay dirSlot
  congr 1
  funext i
  rw [List.getD_eq_getElem _ _ (by simp [FAT_ENTRY_SIZE])]
  simp

/-- A directory entry without a first cluster. -/
theorem read_noCluster {s : DiskStream} (hbpc : 0 < p.bytesPerCluster)
    (hlt : p.bytesPerCluster < 2 ^ 24) (hroot : fat16ItemIsRootDir p d.item = false)
    (hlow : d.item.entry.low16BitsFirstCluster = 0) (heof : d.eof = false)
    (hrel : d.relativePos = 0) :
    ∃ r t, __fat16Read p d FAT_ENTRY_SIZE s = .ok (r, t) ∧ r.1.eof = true := by
  have hsub : sub32 p.bytesPerCluster d.relativePos = p.bytesPerCluster := by
    rw [hrel]; unfold sub32 u32; omega
  obtain ⟨m, hm⟩ : ∃ m, m = min FAT_ENTRY_SIZE p.bytesPerCluster := ⟨_, rfl⟩
  have hstep : __fat16ReadLoop p FAT_ENTRY_SIZE (31 + 1) d [] s = _ :=
    readLoop_step (m := m) (by decide) heof (by rw [hsub, hm]; rfl)
      (by unfold FAT_ENTRY_SIZE at hm; omega)
  have hadjust : ∀ n : Int, __fat16AdjustCursors p d n =
      pure ({ d with pos := asSizeT (d.pos + n), eof := true }, 0) := fun n => by
    simp [__fat16AdjustCursors, hroot, __fat16AdjustCursorsNonRoot, hlow]
  rw [afterChunk, Disk.slice_length, if_neg (by unfold FAT_ENTRY_SIZE at hm; omega), hadjust,
    pure_bind] at hstep
  dsimp only at hstep
  rw [if_neg (by simp)] at hstep
  exact ⟨_, _, hstep.trans (congrFun (readLoop_eof rfl _ _ _) _), rfl⟩

variable (hf : p.Fields) (hbpc : 0 < p.bytesPerCluster) (hlt : p.bytesPerCluster < 2 ^ 24)
  (hs : p.header.sectorsPerCluster ≠ 0) (hroot : fat16ItemIsRootDir p item = false)
  (hlow : item.entry.low16BitsFirstCluster ≠ 0)

include hf hbpc hlt hs hroot hlow

/-- A slot along which the chain goes on. -/
theorem read_linked (h : DirAt disk p item d k) (hk : SlotLinked disk p item k) (e : FatEntry) :
    Gives disk (__fat16Read p d FAT_ENTRY_SIZE) fun r =>
      DirAt disk p item r.1 (k + 1) ∧ r.2.1 = FAT_ENTRY_SIZE ∧
        e.overlay r.2.2 = dirSlot disk p item k := by
  have hlast : ¬ EndsChain (clusterAt disk p item (u32 (slotPos k + FAT_ENTRY_SIZE))) :=
    hk _ (by unfold FAT_ENTRY_SIZE; omega) (Nat.le_refl _) (.inr rfl)
  have hsources := @sources_upTo disk p item _ (slotPos k) FAT_ENTRY_SIZE FAT_ENTRY_SIZE hf hbpc hlt
    hs hroot hlow (Nat.le_refl _) (slotPos_le k) (.inl rfl)
    (fun q h₁ h₂ h₃ => by
      have := hk q h₁ (Nat.le_of_lt h₂) (.inl h₃)
      rwa [u32, Nat.mod_eq_of_lt (Nat.lt_of_lt_of_le h₂ (slotPos_le k))] at this)
    FAT_ENTRY_SIZE d [] (by decide) (by simp) h.between rfl
  refine hsources.of_sources.mono ?_
  rintro ⟨d', res, bytes⟩ ⟨addrs, ⟨d₀, hitem, heof, hr⟩, rfl⟩
  rw [cursorsAt_on (by rw [hitem]; exact hlast)] at hr
  simp only [ne_eq, not_true_eq_false, if_false, Prod.mk.injEq] at hr
  obtain ⟨rfl, rfl, rfl⟩ := hr
  have hint : asInt FAT_ENTRY_SIZE = FAT_ENTRY_SIZE := by decide
  refine ⟨⟨hitem, heof, slotPos_succ k, rfl, ?_⟩, hint, overlay_dirSlot e⟩
  rw [slotSector_succ, ← slotPos_succ, hitem]

/-- A slot along which the chain ends. -/
theorem read_unlinked (h : DirAt disk p item d k) (hk : ¬ SlotLinked disk p item k) :
    Gives disk (__fat16Read p d FAT_ENTRY_SIZE) fun r => r.2.1 < 0 ∨ r.1.eof = true := by
  -- the first cluster of the slot at which the chain ends
  have hex : ∃ i, 0 < i ∧ i ≤ FAT_ENTRY_SIZE ∧
      ((slotPos k + i) % p.bytesPerCluster = 0 ∨ i = FAT_ENTRY_SIZE) ∧
      EndsChain (clusterAt disk p item (u32 (slotPos k + i))) := by
    simp only [SlotLinked, not_forall, not_not] at hk
    obtain ⟨q, h₁, h₂, h₃, h₄⟩ := hk
    refine ⟨q - slotPos k, by omega, by omega, ?_, ?_⟩
    · rw [show slotPos k + (q - slotPos k) = q by omega]
      exact h₃.imp id (by omega)
    · rw [show slotPos k + (q - slotPos k) = q by omega]
      exact h₄
  classical
  obtain ⟨hpos, hle, hbound, hend⟩ := Nat.find_spec hex
  have hmin := fun i (hi : i < Nat.find hex) => Nat.find_min hex hi
  generalize Nat.find hex = i at hpos hle hbound hend hmin
  have hsources := @sources_upTo disk p item _ (slotPos k) FAT_ENTRY_SIZE i hf hbpc hlt hs hroot
    hlow hle (Nat.le_trans (Nat.add_le_add_left hle _) (slotPos_le k))
    (hbound.symm.imp id fun h => ⟨h, hend⟩)
    (fun q h₁ h₂ h₃ hq => hmin (q - slotPos k) (by omega) (by
      have hu : u32 q = q := Nat.mod_eq_of_lt (by have := slotPos_le k; omega)
      rw [show slotPos k + (q - slotPos k) = q by omega, hu]
      exact ⟨by omega, by omega, .inl h₃, hq⟩))
    FAT_ENTRY_SIZE d [] hpos (by simp) h.between rfl
  refine hsources.of_sources.mono ?_
  rintro ⟨d', res, bytes⟩ ⟨addrs, ⟨d₀, hitem, heof, hr⟩, -⟩
  simp only [Prod.mk.injEq] at hr
  obtain ⟨rfl, rfl, -⟩ := hr
  rcases cursorsAt_end (d := d₀) (by rw [hitem]; exact hend) with hbad | ⟨-, heof⟩
  · refine .inl ?_
    simp only [hbad, if_pos (show - EIO ≠ 0 by decide)]
    exact error_neg
  · exact .inr heof

/-- The scan goes on behind slot `k`, or ends in it. -/
theorem chainScan_goes_iff {s : DiskStream} (hd : DirAt disk p item d 0) (hsd : s.disk = disk)
    (e : FatEntry) : (∃ fuel r, dirLoop p stop fuel d e s = .ok r) ↔
      ∃ k, ¬ (SlotLinked disk p item k ∧ stop (dirSlot disk p item k) = false) := by
  refine @dirLoop_ends_iff disk p stop d e s (fun d _ k => DirAt disk p item d k) _ ?_ ?_ hd hsd
  · rintro d e k s hsd h ⟨hlinked, hstop⟩
    obtain ⟨⟨d', res, bytes⟩, t, hread, ht, hd', hres, hslot⟩ :=
      read_linked hf hbpc hlt hs hroot hlow h hlinked e s hsd
    refine ⟨d', dirSlot disk p item k, t, ht, hd', fun fuel => ?_⟩
    simp only at hres hslot
    rw [dirLoop_read h.eof hread, hslot, if_neg]
    rw [hres, hstop]
    decide
  · intro d e k s hsd h hgo
    by_cases hlinked : SlotLinked disk p item k
    · obtain ⟨⟨d', res, bytes⟩, t, hread, -, -, -, hslot⟩ :=
        read_linked hf hbpc hlt hs hroot hlow h hlinked e s hsd
      refine dirLoop_off h.eof hread (.inr (.inr ?_))
      simp only at hslot
      rw [hslot]
      exact by_contra fun hstop => hgo ⟨hlinked, by simpa using hstop⟩
    · obtain ⟨⟨d', res, bytes⟩, t, hread, -, hend⟩ :=
        read_unlinked hf hbpc hlt hs hroot hlow h hlinked s hsd
      exact dirLoop_off h.eof hread (hend.imp id .inl)

omit hf hlt hs hroot hlow in
/-- Along the whole directory, the driver looks at every cluster below 4 GiB and at every slot up
to the first one behind the wrap of the position. -/
theorem exists_not_goes_iff :
    (∃ k, ¬ (SlotLinked disk p item k ∧ stop (dirSlot disk p item k) = false)) ↔
      (∃ n, n * p.bytesPerCluster < 2 ^ 32 ∧ EndsChain (walk disk p n (firstCluster p item))) ∨
        ∃ k ≤ 2 ^ 27, stop (dirSlot disk p item k) = true := by
  constructor
  · rintro ⟨k, hk⟩
    rcases Classical.not_and_iff_not_or_not.mp hk with hk | hk
    · simp only [SlotLinked, not_forall, not_not] at hk
      obtain ⟨q, -, -, -, hend⟩ := hk
      have hmul := Nat.div_mul_le_self (u32 q) p.bytesPerCluster
      have hq : u32 q < 2 ^ 32 := Nat.mod_lt _ (by decide)
      exact .inl ⟨_, Nat.lt_of_le_of_lt hmul hq, hend⟩
    · have hk : stop (dirSlot disk p item k) = true := by simpa using hk
      rcases Nat.eq_zero_or_pos k with rfl | hpos
      · exact .inr ⟨0, Nat.zero_le _, hk⟩
      · -- the position has wrapped
        refine .inr ⟨(k - 1) % 2 ^ 27 + 1, Nat.mod_lt _ (by decide), ?_⟩
        have hsame : slotPos ((k - 1) % 2 ^ 27 + 1) = slotPos k := by
          unfold slotPos u32 FAT_ENTRY_SIZE
          omega
        obtain ⟨k, rfl⟩ := Nat.exists_eq_add_one_of_ne_zero (Nat.pos_iff_ne_zero.mp hpos)
        rw [dirSlot, slotSector_succ, hsame, ← slotSector_succ]
        exact hk
  · rintro (⟨n, hn, hend⟩ | ⟨k, -, hk⟩)
    · rcases Nat.eq_zero_or_pos n with rfl | hpos
      · -- the first cluster is looked at again behind the wrap
        refine ⟨2 ^ 27 - 1, fun h => h.1 (2 ^ 32) (by decide) (by decide) (.inr (by decide)) ?_⟩
        rw [clusterAt, show u32 (2 ^ 32) = 0 from rfl, Nat.zero_div]
        exact hend
      · have hq : 0 < n * p.bytesPerCluster := Nat.mul_pos hpos hbpc
        refine ⟨(n * p.bytesPerCluster - 1) / FAT_ENTRY_SIZE, fun h =>
          h.1 (n * p.bytesPerCluster) ?_ ?_ (.inl (Nat.mul_mod_left _ _)) ?_⟩
        · unfold slotPos u32 FAT_ENTRY_SIZE
          omega
        · unfold slotPos u32 FAT_ENTRY_SIZE
          omega
        · rw [clusterAt, u32, Nat.mod_eq_of_lt hn, Nat.mul_div_cancel _ hbpc]
          exact hend
    · exact ⟨k, fun h => by rw [h.2] at hk; cases hk⟩

end Chain

/-! ## The root directory -/

section Root

variable {disk : Disk} {p : FatPrivate} {stop : FatEntry → Bool} {stale : FatEntry}
  {d : FatDescriptor} {e : FatEntry} {s : DiskStream} {k : Nat}

/-- The whole slots in the first `bytes_per_cluster` bytes of the root directory. -/
def wholeSlots (p : FatPrivate) : Nat := p.bytesPerCluster / FAT_ENTRY_SIZE

/-- What `entry` holds after the read of slot `k`. Behind the whole slots there is one read of what
is left of the cluster, and then the reads return nothing. -/
def rootEntry (disk : Disk) (p : FatPrivate) (stale : FatEntry) (k : Nat) : FatEntry :=
  if k < wholeSlots p then slotAt disk (driverAddr p k)
  else (if wholeSlots p = 0 then stale else slotAt disk (driverAddr p (wholeSlots p - 1))).overlay
    (disk.slice (driverAddr p (wholeSlots p)) (p.bytesPerCluster % FAT_ENTRY_SIZE))

/-- The loop in front of slot `k`, or stuck behind the whole slots. -/
structure RootScanAt (disk : Disk) (p : FatPrivate) (stale : FatEntry) (d : FatDescriptor)
    (e : FatEntry) (k : Nat) : Prop where
  eof : d.eof = false
  cases : (k ≤ wholeSlots p ∧ RootAt p d k ∧
      e = if k = 0 then stale else slotAt disk (driverAddr p (k - 1))) ∨
    (wholeSlots p < k ∧ d.item = p.rootDirectory ∧ d.relativePos = p.bytesPerCluster ∧
      e = rootEntry disk p stale k)

/-- The read of slot `k` does not reach `data_sector`, the end that the driver assumes. -/
def RootInside (p : FatPrivate) (k : Nat) : Prop :=
  (k < wholeSlots p → FAT_ENTRY_SIZE * (k + 1) < p.dataSector) ∧
    (k = wholeSlots p → p.bytesPerCluster % FAT_ENTRY_SIZE ≠ 0 →
      p.bytesPerCluster < p.dataSector)

/-- Behind `bytes_per_cluster` bytes a read delivers nothing, and reports no error. -/
theorem readLoop_nothing {fuel : Nat} {out : List Byte} (heof : d.eof = false)
    (hrel : d.relativePos = p.bytesPerCluster) (hout : out.length < FAT_ENTRY_SIZE) :
    ∃ t, __fat16ReadLoop p FAT_ENTRY_SIZE (fuel + 1) d out s =
      .ok (({ d with error := 0 }, 0, out), t) ∧ t.disk = s.disk := by
  have hsub : min (FAT_ENTRY_SIZE - out.length) (sub32 p.bytesPerCluster d.relativePos) = 0 := by
    rw [hrel]; unfold sub32 u32; omega
  refine ⟨s.afterRead (__fat16DescriptorToAbsoluteAddress p d) 0,
    (readLoop_step hout heof hsub (by decide)).trans ?_, rfl⟩
  rw [afterChunk, Disk.slice_length, if_pos rfl]
  rfl

theorem adjust_rootDir (hroot : p.rootDirectory.type = .rootDirectory)
    (hitem : d.item = p.rootDirectory) (n : Int) :
    __fat16AdjustCursors p d n =
      pure (__fat16AdjustCursorsRootDir p { d with pos := asSizeT (d.pos + n) }) := by
  have hisroot : fat16ItemIsRootDir p d.item = true := by simp [fat16ItemIsRootDir, hitem, hroot]
  simp [__fat16AdjustCursors, hisroot]

/-- What is left of the cluster behind the whole slots. -/
theorem read_rest (hroot : p.rootDirectory.type = .rootDirectory) (h : RootAt p d (wholeSlots p))
    (heof : d.eof = false) (hlt : p.bytesPerCluster < 2 ^ 24)
    (hrest : p.bytesPerCluster % FAT_ENTRY_SIZE ≠ 0) :
    ∃ r t, __fat16Read p d FAT_ENTRY_SIZE s = .ok (r, t) ∧ t.disk = s.disk ∧
      (p.dataSector ≤ p.bytesPerCluster → r.2.1 < 0 ∨ r.1.eof = true) ∧
      (p.bytesPerCluster < p.dataSector → r.2.1 = 0 ∧ r.1.eof = false ∧
        r.1.item = p.rootDirectory ∧ r.1.relativePos = p.bytesPerCluster ∧
        r.2.2 = s.disk.slice (driverAddr p (wholeSlots p)) (p.bytesPerCluster % FAT_ENTRY_SIZE)) := by
  have hsub : min (FAT_ENTRY_SIZE - ([] : List Byte).length)
      (sub32 p.bytesPerCluster d.relativePos) = p.bytesPerCluster % FAT_ENTRY_SIZE := by
    rw [h.relativePos]
    unfold wholeSlots sub32 u32 FAT_ENTRY_SIZE at *
    simp only [List.length_nil]
    omega
  have hstep : __fat16ReadLoop p FAT_ENTRY_SIZE (31 + 1) d [] s = _ :=
    readLoop_step (by decide) heof hsub (by unfold FAT_ENTRY_SIZE; omega)
  have hpos : asSizeT (d.pos + (p.bytesPerCluster % FAT_ENTRY_SIZE : Nat)) = p.bytesPerCluster := by
    rw [h.pos]
    unfold wholeSlots asSizeT FAT_ENTRY_SIZE at *
    omega
  rw [h.address, afterChunk, Disk.slice_length, if_neg hrest, adjust_rootDir hroot h.item, pure_bind,
    hpos, List.nil_append] at hstep
  generalize hchunk : s.disk.slice (driverAddr p (wholeSlots p))
    (p.bytesPerCluster % FAT_ENTRY_SIZE) = chunk at hstep ⊢
  have hlen : chunk.length < FAT_ENTRY_SIZE := by
    rw [← hchunk, Disk.slice_length]; exact Nat.mod_lt _ (by decide)
  unfold __fat16AdjustCursorsRootDir at hstep
  dsimp only at hstep
  rcases Nat.lt_trichotomy p.dataSector p.bytesPerCluster with hD | hD | hD
  · rw [if_pos (Nat.le_of_lt hD), if_pos hD] at hstep
    exact ⟨_, _, hstep, rfl, fun _ => .inl error_neg, fun h => by omega⟩
  · rw [if_pos (Nat.le_of_eq hD), if_neg (Nat.not_lt_of_le (Nat.le_of_eq hD.symm)),
      if_neg (by simp)] at hstep
    exact ⟨_, _, hstep.trans (congrFun (readLoop_eof rfl _ _ _) _), rfl, fun _ => .inr rfl, fun h => by omega⟩
  · rw [if_neg (Nat.not_le_of_lt hD), if_neg (by simp)] at hstep
    obtain ⟨t, hnothing, ht⟩ := @readLoop_nothing p
      { d with pos := p.bytesPerCluster, relativePos := p.bytesPerCluster }
      (s.afterRead (driverAddr p (wholeSlots p)) (p.bytesPerCluster % FAT_ENTRY_SIZE)) 30 chunk heof
      rfl hlen
    exact ⟨_, t, hstep.trans hnothing, ht, fun h => by omega, fun _ => ⟨rfl, heof, h.item, rfl, rfl⟩⟩

/-- Behind the whole slots nothing changes any more. -/
theorem rootEntry_behind (hk : wholeSlots p ≤ k) :
    rootEntry disk p stale (k + 1) = rootEntry disk p stale k := by
  rw [rootEntry, rootEntry, if_neg (show ¬ k + 1 < wholeSlots p by omega),
    if_neg (show ¬ k < wholeSlots p by omega)]

/-- One read of the root directory. -/
theorem read_rootScan (hroot : p.rootDirectory.type = .rootDirectory)
    (hlt : p.bytesPerCluster < 2 ^ 24) (h : RootScanAt disk p stale d e k) (hs : s.disk = disk) :
    ∃ r t, __fat16Read p d FAT_ENTRY_SIZE s = .ok (r, t) ∧ t.disk = disk ∧
      (RootInside p k → 0 ≤ r.2.1 ∧ e.overlay r.2.2 = rootEntry disk p stale k ∧
        RootScanAt disk p stale r.1 (rootEntry disk p stale k) (k + 1)) ∧
      (¬ RootInside p k → r.2.1 < 0 ∨ r.1.eof = true) := by
  obtain ⟨heof, ⟨hle, hat, he⟩ | ⟨hgt, hitem, hrel, he⟩⟩ := h
  · rcases Nat.lt_or_eq_of_le hle with hk | rfl
    · -- a whole slot
      have hfits : FAT_ENTRY_SIZE * (k + 1) ≤ p.bytesPerCluster := by
        unfold wholeSlots FAT_ENTRY_SIZE at *; omega
      have hslot : rootEntry disk p stale k = slotAt disk (driverAddr p k) := by
        rw [rootEntry, if_pos hk]
      refine ⟨_, _, read_slot hroot hat heof hlt hfits, hs, fun hin => ?_, fun hout => ?_⟩
      · have hD := hin.1 hk
        simp only [show ¬ p.dataSector < FAT_ENTRY_SIZE * (k + 1) by omega, if_false]
        refine ⟨by decide, by rw [hs, overlay_slice, hslot], ?_, .inl ⟨hk, hat.next, by simp [hslot]⟩⟩
        simp only [afterSlot, heof, Bool.false_or, decide_eq_false_iff_not]
        omega
      · have hD : p.dataSector ≤ FAT_ENTRY_SIZE * (k + 1) := by
          refine Nat.le_of_not_lt fun hD => hout ⟨fun _ => hD, fun h => by omega⟩
        right
        simp [afterSlot, hD]
    · by_cases hrest : p.bytesPerCluster % FAT_ENTRY_SIZE = 0
      · -- nothing is left behind the whole slots
        have hrel : d.relativePos = p.bytesPerCluster := by
          rw [hat.relativePos]; unfold wholeSlots FAT_ENTRY_SIZE at *; omega
        have hentry : e = rootEntry disk p stale (wholeSlots p) := by
          rw [rootEntry, if_neg (Nat.lt_irrefl _), hrest, he]
          rfl
        obtain ⟨t, hread, ht⟩ := @readLoop_nothing p d s 31 [] heof hrel (by decide)
        refine ⟨_, t, hread, ht.trans hs, fun _ => ⟨Int.le_refl 0, hentry, heof, .inr ?_⟩,
          fun hout => absurd ⟨fun h => by omega, fun _ h => absurd hrest h⟩ hout⟩
        exact ⟨Nat.lt_succ_self _, hat.item, hrel, (rootEntry_behind (Nat.le_refl _)).symm⟩
      · obtain ⟨r, t, hread, ht, hout, hin⟩ := @read_rest p d s hroot hat heof hlt hrest
        refine ⟨r, t, hread, ht.trans hs, fun h => ?_, fun h => hout (Nat.le_of_not_lt fun hD => ?_)⟩
        · obtain ⟨hres, heof', hitem', hrel', hbytes⟩ := hin (h.2 rfl hrest)
          refine ⟨Int.le_of_eq hres.symm, ?_, heof', .inr ⟨Nat.lt_succ_self _, hitem', hrel', ?_⟩⟩
          · rw [hbytes, hs, rootEntry, if_neg (Nat.lt_irrefl _), he]
          · exact (rootEntry_behind (Nat.le_refl _)).symm
        · exact h ⟨fun h => by omega, fun _ _ => hD⟩
  · obtain ⟨t, hread, ht⟩ := @readLoop_nothing p d s 31 [] heof hrel (by decide)
    refine ⟨_, t, hread, ht.trans hs, fun _ => ⟨Int.le_refl 0, he, heof, .inr ?_⟩,
      fun hout => absurd ⟨fun h => by omega, fun h => by omega⟩ hout⟩
    exact ⟨by omega, hitem, hrel, (rootEntry_behind (by omega)).symm⟩

theorem rootScan_goes_iff (hroot : p.rootDirectory.type = .rootDirectory)
    (hlt : p.bytesPerCluster < 2 ^ 24) (hd : RootScanAt disk p stale d e 0) (hs : s.disk = disk) :
    (∃ fuel r, dirLoop p stop fuel d e s = .ok r) ↔
      ∃ k, ¬ (RootInside p k ∧ stop (rootEntry disk p stale k) = false) := by
  refine dirLoop_ends_iff ?_ ?_ hd hs
  · rintro d e k s hs h ⟨hin, hstop⟩
    obtain ⟨⟨d', res, bytes⟩, t, hread, ht, hnext, -⟩ := read_rootScan hroot hlt h hs
    obtain ⟨hres, hentry, h'⟩ := hnext hin
    simp only at hres hentry
    refine ⟨d', _, t, ht, h', fun fuel => ?_⟩
    rw [dirLoop_read h.eof hread, hentry, if_neg]
    simp [hstop, hres]
  · intro d e k s hs h hgo
    obtain ⟨⟨d', res, bytes⟩, t, hread, -, hnext, hout⟩ := read_rootScan hroot hlt h hs
    refine dirLoop_off h.eof hread ?_
    by_cases hin : RootInside p k
    · obtain ⟨-, hentry, -⟩ := hnext hin
      simp only at hentry
      rw [hentry]
      exact .inr (.inr (by_contra fun hstop => hgo ⟨hin, by simpa using hstop⟩))
    · exact (hout hin).imp id .inl

/-- The driver leaves the root directory at `data_sector` only if that comes before it gets stuck. -/
theorem exists_not_rootGoes_iff (hbpc : 0 < p.bytesPerCluster) :
    (∃ k, ¬ (RootInside p k ∧ stop (rootEntry disk p stale k) = false)) ↔
      p.dataSector ≤ p.bytesPerCluster ∨
        ∃ k ≤ wholeSlots p, stop (rootEntry disk p stale k) = true := by
  constructor
  · rintro ⟨k, hk⟩
    rcases Nat.lt_or_ge p.bytesPerCluster p.dataSector with hD | hD
    · have hin : RootInside p k := by
        refine ⟨fun h => ?_, fun _ _ => hD⟩
        unfold wholeSlots FAT_ENTRY_SIZE at *
        omega
      have hstop : stop (rootEntry disk p stale k) = true :=
        by_contra fun h => hk ⟨hin, by simpa using h⟩
      rcases Nat.le_total k (wholeSlots p) with hle | hge
      · exact .inr ⟨k, hle, hstop⟩
      · refine .inr ⟨wholeSlots p, Nat.le_refl _, ?_⟩
        rwa [rootEntry, if_neg (by omega)] at hstop ⊢
    · exact .inl hD
  · rintro (hD | ⟨k, -, hk⟩)
    · by_cases hrest : p.bytesPerCluster % FAT_ENTRY_SIZE = 0
      · refine ⟨wholeSlots p - 1, fun h => ?_⟩
        have := h.1.1 (by unfold wholeSlots FAT_ENTRY_SIZE at *; omega)
        unfold wholeSlots FAT_ENTRY_SIZE at *
        omega
      · exact ⟨wholeSlots p, fun h => Nat.not_le_of_lt (h.1.2 rfl hrest) hD⟩
    · exact ⟨k, fun h => by rw [h.2] at hk; cases hk⟩

end Root

/-! ## Both functions -/

section Both

variable {disk : Disk} {p : FatPrivate} {stop : FatEntry → Bool} {stale : FatEntry}
  {d : FatDescriptor} {α : Type}

/-- The scan of the directory `item` ends: the root directory's at `data_sector`, another one's
at the end of its chain, and each at a slot with `stop`. -/
def ScanEnds (disk : Disk) (p : FatPrivate) (item : FatItem) (stale : FatEntry)
    (stop : FatEntry → Bool) : Prop :=
  if fat16ItemIsRootDir p item then
    p.dataSector ≤ p.bytesPerCluster ∨ ∃ k ≤ wholeSlots p, stop (rootEntry disk p stale k) = true
  else
    item.entry.low16BitsFirstCluster = 0 ∨
      (∃ n, n * p.bytesPerCluster < 2 ^ 32 ∧ EndsChain (walk disk p n (firstCluster p item))) ∨
      ∃ k ≤ 2 ^ 27, stop (dirSlot disk p item k) = true

theorem dirLoop_terminates_iff {ok : Nat → Bool} (hp : fat16Probe ok disk = .ok (.ok p))
    (hs : p.header.sectorsPerCluster ≠ 0)
    (hd : d.item = p.rootDirectory ∨ d.item.type = .directory) :
    Terminates disk (fun fuel => dirLoop p stop fuel (__fat16ResetCursors d) stale) ↔
      ScanEnds disk p d.item stale stop := by
  have hg := fat16Probe_geometry hp
  have hbpc := hg.bytesPerCluster_pos hs
  have hlt := hg.bytesPerCluster_lt
  unfold ScanEnds
  rcases hd with hitem | hdir
  · obtain ⟨hroot, -⟩ := fat16Probe_root hp
    have hisroot : fat16ItemIsRootDir p d.item = true := by
      simp [fat16ItemIsRootDir, hitem, hroot]
    rw [if_pos hisroot, ← exists_not_rootGoes_iff hbpc]
    have hat : RootScanAt disk p stale (__fat16ResetCursors d) stale 0 :=
      ⟨rfl, .inl ⟨Nat.zero_le _, resetCursors_rootAt hitem, rfl⟩⟩
    exact ⟨fun h => (rootScan_goes_iff hroot hlt hat rfl).mp (h ⟨disk, 0, []⟩ rfl),
      fun h s hsd => (rootScan_goes_iff hroot hlt hat hsd).mpr h⟩
  · have hnot : fat16ItemIsRootDir p d.item = false := by simp [fat16ItemIsRootDir, hdir]
    rw [if_neg (by simp [hnot])]
    by_cases hlow : d.item.entry.low16BitsFirstCluster = 0
    · refine ⟨fun _ => .inl hlow, fun _ s hsd => ⟨2, ?_⟩⟩
      obtain ⟨⟨d', res, bytes⟩, t, hread, heof⟩ := @read_noCluster p (__fat16ResetCursors d) s hbpc
        hlt hnot hlow rfl rfl
      exact dirLoop_off rfl hread (.inr (.inl heof))
    · have hat : DirAt disk p d.item (__fat16ResetCursors d) 0 :=
        ⟨rfl, rfl, rfl, (Nat.zero_mod _).symm, rfl⟩
      have hiff := fun s (hsd : s.disk = disk) => (@chainScan_goes_iff disk p d.item stop _
        (fat16Probe_fields hp) hbpc hlt hs hnot hlow s hat hsd stale).trans
          (exists_not_goes_iff hbpc)
      exact ⟨fun h => .inr ((hiff ⟨disk, 0, []⟩ rfl).mp (h ⟨disk, 0, []⟩ rfl)),
        fun h s hsd => (hiff s hsd).mpr (h.resolve_left hlow)⟩

/-- Code that returns when a part of it does. -/
theorem terminates_congr {m : Nat → DevM α} {m' : Nat → DevM Unit}
    (h : ∀ fuel, (fun _ => ()) <$> m fuel = m' fuel) : Terminates disk m ↔ Terminates disk m' := by
  refine forall_congr' fun s => imp_congr_right fun _ => exists_congr fun fuel => ?_
  rw [← h fuel]
  simp only [Functor.map, StateT.map, Bind.bind, Except.bind, pure, Except.pure]
  cases m fuel s with
  | error e => simp
  | ok r => simp

theorem map_unit_bind {β : Type} (m : DevM α) (f : α → DevM β)
    (h : ∀ a, (fun _ => ()) <$> f a = pure ()) :
    (fun _ => ()) <$> (m >>= f) = (fun _ => ()) <$> m := by
  rw [map_bind]
  simp only [h]
  rw [← bind_pure_comp]

section

variable {ok : Nat → Bool} (hp : fat16Probe ok disk = .ok (.ok p))
  (hs : p.header.sectorsPerCluster ≠ 0) (hd : d.item = p.rootDirectory ∨ d.item.type = .directory)

include hp hs hd

theorem findEntryInDir_terminates_iff (filename extension : List Byte) (kzallocOk : Bool) :
    Terminates disk (fun fuel => fat16FindEntryInDir kzallocOk fuel p d filename extension) ↔
      ScanEnds disk p d.item .zero (findStops filename extension) := by
  rw [← dirLoop_terminates_iff hp hs hd]
  refine terminates_congr fun fuel => ?_
  rw [← findEntryLoop_dirLoop filename extension 0]
  have htype : ¬ (d.item.type ≠ .directory ∧ d.item.type ≠ .rootDirectory) := by
    rcases hd with h | h
    · rw [h, (fat16Probe_root hp).1]; simp
    · simp [h]
  rw [fat16FindEntryInDir, if_neg htype]
  refine map_unit_bind _ _ fun r => ?_
  obtain ⟨d', found⟩ := r
  cases found with
  | none => rfl
  | some x => cases kzallocOk <;> rfl

theorem countDirItems_terminates_iff (stale : FatEntry) :
    Terminates disk (fun fuel => fat16CountDirItems stale fuel p d) ↔
      ScanEnds disk p d.item stale countStops := by
  rw [← dirLoop_terminates_iff hp hs hd]
  refine terminates_congr fun fuel => ?_
  rw [← countDirItemsLoop_dirLoop 0]
  refine map_unit_bind _ _ fun r => ?_
  obtain ⟨d', count⟩ := r
  cases count <;> rfl

/-- On an accepted volume with nonzero geometry, a lookup and a count of a directory return,
exactly if its scan ends. -/
theorem scans_end_iff (filename extension : List Byte) (kzallocOk : Bool) (stale : FatEntry) :
    (Terminates disk (fun fuel => fat16FindEntryInDir kzallocOk fuel p d filename extension) ↔
      ScanEnds disk p d.item .zero (findStops filename extension)) ∧
    (Terminates disk (fun fuel => fat16CountDirItems stale fuel p d) ↔
      ScanEnds disk p d.item stale countStops) :=
  ⟨findEntryInDir_terminates_iff hp hs hd filename extension kzallocOk,
    countDirItems_terminates_iff hp hs hd stale⟩

end

/-! A volume with a root directory of 16 slots, all of them in use. -/

def fullDisk (reservedSectors : Byte) : Disk where
  bytes a :=
    if 54 ≤ a ∧ a < 62 then charAt FAT16_SYSTEM_ID (a - 54)
    else if a = 12 then 2                     -- 512 bytes per sector
    else if a = 13 ∨ a = 16 ∨ a = 22 then 1   -- one sector per cluster, one FAT of one sector
    else if a = 15 then reservedSectors       -- times 256
    else if a = 17 then 16
    else if a = 38 then 0x29
    else if 62 ≤ a then 0x41
    else 0

def fullVolume (reservedSectors : Byte) : FatPrivate :=
  .ofHeader (.ofBytes ((fullDisk reservedSectors).slice 0 FAT_HEADER_SIZE))

/-- The root directory of such a volume, opened. -/
def fullRoot (reservedSectors : Byte) : FatDescriptor :=
  __fat16Open (fullVolume reservedSectors) (fullVolume reservedSectors).rootDirectory

/-- With `data_sector = 258`, below `bytes_per_cluster`, the scans end. -/
theorem scans_end_iff_small_root :
    (fullVolume 1).dataSector = 258 ∧
      Terminates (fullDisk 1) (fun fuel => fat16FindEntryInDir true fuel (fullVolume 1)
        (fullRoot 1) (ascii "B") []) ∧
      Terminates (fullDisk 1) (fun fuel => fat16CountDirItems .zero fuel (fullVolume 1)
        (fullRoot 1)) := by
  have hp : fat16Probe (fun _ => true) (fullDisk 1) = .ok (.ok (fullVolume 1)) :=
    fat16Probe_accepts (by decide) (by decide) (by decide)
  have hiff := @scans_end_iff _ _ (fullRoot 1) _ hp (by decide) (.inl rfl) (ascii "B") [] true .zero
  have hends : ∀ stop, ScanEnds (fullDisk 1) (fullVolume 1) (fullRoot 1).item .zero stop := by
    intro stop
    rw [ScanEnds, if_pos (show fat16ItemIsRootDir (fullVolume 1) (fullRoot 1).item = true by decide)]
    exact .inl (by decide)
  exact ⟨by decide, hiff.1.mpr (hends _), hiff.2.mpr (hends _)⟩

/-- With `data_sector = 514`, behind the first `bytes_per_cluster` bytes, they do not. -/
theorem scan_of_full_root_hangs :
    ¬ ∀ (disk : Disk) (p : FatPrivate), fat16Probe (fun _ => true) disk = .ok (.ok p) →
      p.header.bytesPerSector ≠ 0 → p.header.sectorsPerCluster ≠ 0 → ∀ d : FatDescriptor,
      d.item = p.rootDirectory ∨ d.item.type = .directory → ∀ filename extension : List Byte,
        Terminates disk (fun fuel => fat16FindEntryInDir true fuel p d filename extension) ∧
        Terminates disk (fun fuel => fat16CountDirItems .zero fuel p d) := by
  intro h
  have hp : fat16Probe (fun _ => true) (fullDisk 2) = .ok (.ok (fullVolume 2)) :=
    fat16Probe_accepts (by decide) (by decide) (by decide)
  obtain ⟨hfind, -⟩ := h _ _ hp (by decide) (by decide) (fullRoot 2) (.inl rfl) (ascii "B") []
  have hends := (findEntryInDir_terminates_iff hp (by decide) (.inl rfl) _ _ _).mp hfind
  -- no slot has a zero name byte, and none is `B`
  have hstop : ∀ k ≤ wholeSlots (fullVolume 2), findStops (ascii "B") []
      (rootEntry (fullDisk 2) (fullVolume 2) .zero k) = false := by decide +kernel
  rw [ScanEnds, if_pos (show fat16ItemIsRootDir (fullVolume 2) (fullRoot 2).item = true by decide)]
    at hends
  rcases hends with hle | ⟨k, hk, hk'⟩
  · exact absurd hle (by decide)
  · rw [hstop k hk] at hk'
    cases hk'

end Both

end AvocadOS
