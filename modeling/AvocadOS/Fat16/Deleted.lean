import AvocadOS.Fat16.SubDir

/-!
# Deleted entries

Deleting a file leaves its slot in the directory, with 0xE5 for the first byte of the name. The
driver does not know of this mark: both scans take such a slot for one in use.

* `findEntryLoop_match`: a lookup returns only what has the padded name, on any disk;
* `countDirItemsLoop_run`: the loop that counts is a `Visit.run`;
* `deleted_entries`: a lookup returns a deleted slot only if it was asked for one, and a count is
  that of the slots that are not skipped.
-/

namespace AvocadOS

set_option linter.style.nameCheck false

/-- The mark of a deleted file. -/
def FatEntry.isDeleted (e : FatEntry) : Bool := charAt e.filename 0 == 0xE5

/-! ## Lookups -/

section Find

variable {p : FatPrivate} {filename extension : List Byte} {d : FatDescriptor}

/-- Whatever the reads give, only a match is returned. -/
theorem findEntryLoop_match {fuel : Nat} {e : FatEntry} {k : Nat} {s t : DiskStream}
    {d' : FatDescriptor} {x : FatEntry × Nat}
    (h : findEntryLoop p (padded filename 8) (padded extension 3) fuel d e k s =
      .ok ((d', some x), t)) : isMatch filename extension x.1 = true := by
  induction fuel generalizing d e k s with
  | zero => cases h
  | succ fuel ih =>
    rw [findEntryLoop] at h
    split at h
    · cases h
    simp only [Bind.bind, StateT.bind, Except.bind] at h
    cases hread : __fat16Read p d FAT_ENTRY_SIZE s with
    | error e => simp [hread] at h
    | ok r =>
      obtain ⟨⟨d₁, res, bytes⟩, u⟩ := r
      simp only [hread] at h
      split at h
      · cases h
      split at h
      · exact ih h
      rename_i hlfn
      split at h
      · cases h
      split at h
      · exact ih h
      · rename_i hno
        cases h
        have hmatch := compares_isMatch filename extension _ (Bool.eq_false_iff.mpr hlfn)
        exact Bool.not_eq_false _ ▸ mt hmatch.mpr hno

/-- The first byte of a name is that of its padded form, unless the name is empty. -/
theorem charAt_padded (str : List Byte) (n : Nat) :
    charAt (padded str (n + 1)) 0 = charAt str 0 ∨ charAt (padded str (n + 1)) 0 = 0x20 := by
  simp only [charAt, padded, List.range_succ_eq_map, List.map_cons, List.getD_cons_zero]
  split
  · exact .inl rfl
  · exact .inr rfl

theorem find_not_deleted {kzallocOk : Bool} {fuel : Nat} {s t : DiskStream} {d' : FatDescriptor}
    {item : FatItem}
    (h : fat16FindEntryInDir kzallocOk fuel p d filename extension s = .ok ((d', some item), t))
    (hdel : item.entry.isDeleted = true) : charAt filename 0 = 0xE5 := by
  by_cases hd : d.item.type = .directory ∨ d.item.type = .rootDirectory
  · obtain ⟨d₁, found, hloop⟩ := loop_of_findEntryInDir hd h
    obtain ⟨d₂, hrun, -⟩ := @findEntryInDir_of_loop p filename extension d d₁ s t fuel kzallocOk hd _
      hloop
    rw [h] at hrun
    simp only [Except.ok.injEq, Prod.mk.injEq] at hrun
    obtain ⟨⟨-, hresult⟩, -⟩ := hrun
    cases found with
    | none => simp at hresult
    | some x =>
      split at hresult
      · cases hresult
        have hmatch := findEntryLoop_match hloop
        simp only [isMatch, Bool.and_eq_true, beq_iff_eq] at hmatch
        have hfirst : charAt (padded filename 8) 0 = 0xE5 := by
          rw [← hmatch.1.2]
          exact beq_iff_eq.mp hdel
        rcases charAt_padded filename 7 with hname | hspace
        · rw [← hname, hfirst]
        · rw [hspace] at hfirst
          exact absurd hfirst (by decide)
      · cases hresult
  · rw [fat16FindEntryInDir, if_pos (not_or.mp hd)] at h
    cases h

end Find

/-! ## Counts -/

section Count

variable {disk : Disk} {p : FatPrivate} {item : FatItem} {clusters : List Nat} {d : FatDescriptor}
  {e : FatEntry} {s : DiskStream} {count : Int} {fuel k : Nat}

/-- What a count does at a slot. -/
def countVisit (e : FatEntry) (_ : Nat) (count : Int) : Int ⊕ Int :=
  if countStops e then .inl count
  else .inr (if e.isLfnOrLabel then count else count + 1)

theorem countVisit_inr {b b' : Int} (h : countVisit e k b = .inr b') : countStops e = false := by
  rw [countVisit] at h
  split at h
  · cases h
  · rename_i hstop
    simpa using hstop

/-- One iteration, from what the read gives. -/
theorem countDirItemsLoop_read {d' : FatDescriptor} {res : Int} {bytes : List Byte} {t : DiskStream}
    (heof : d.eof = false) (hread : __fat16Read p d FAT_ENTRY_SIZE s = .ok ((d', res, bytes), t))
    (hres : 0 ≤ res) :
    countDirItemsLoop p (fuel + 1) d e count s =
      match countVisit (e.overlay bytes) k count with
      | .inl count => .ok (({ d' with eof := true }, some count), t)
      | .inr count => countDirItemsLoop p fuel d' (e.overlay bytes) count t := by
  rw [countDirItemsLoop, heof]
  simp only [Bool.false_eq_true, if_false, Bind.bind, StateT.bind, Except.bind, hread]
  rw [if_neg (by omega), countVisit]
  generalize e.overlay bytes = slot
  cases hlfn : slot.isLfnOrLabel with
  | true =>
    rw [if_pos rfl, if_neg (by simp [countStops, hlfn]), if_pos rfl]
  | false =>
    rw [if_neg Bool.false_ne_true, countStops_eq hlfn, if_neg Bool.false_ne_true]
    by_cases hend : charAt slot.filename 0 = 0
    · rw [if_pos hend, decide_eq_true hend, if_pos rfl]
      rfl
    · rw [if_neg hend, decide_eq_false hend, if_neg Bool.false_ne_true]

variable (hf : p.Fields) (hs : p.header.sectorsPerCluster ≠ 0) (hbpc : 0 < p.bytesPerCluster)
  (hwhole : p.bytesPerCluster % FAT_ENTRY_SIZE = 0) (hlt : p.bytesPerCluster < 2 ^ 24)

include hf hs hbpc hwhole hlt in
/-- The loop returns what a scan of the slots that the driver reads gives. -/
theorem countDirItemsLoop_run (h : DirChain disk p item clusters) {r : Int}
    (hr : Visit.run (lastSlot disk p item) (slotVisit countVisit (dirSlot disk p item)) id fuel k
      count = some r) (hd : DirAt disk p item d k) (e : FatEntry) :
    Gives disk (countDirItemsLoop p (fuel + 1) d e count) fun x =>
      x.1.item = item ∧ x.2 = some r := by
  induction fuel generalizing d e k count with
  | zero => cases hr
  | succ fuel ih =>
    intro s hsd
    obtain ⟨⟨d', res, bytes⟩, t, hread, ht, rfl, hslot, hitem, hnext, hend⟩ :=
      h.read hf hs hbpc hwhole hlt hd e s hsd
    simp only at hslot hitem hnext hend
    rw [countDirItemsLoop_read (k := k) hd.eof hread (by decide), hslot]
    cases hv : slotVisit countVisit (dirSlot disk p item) k count with
    | inl r' =>
      rw [Visit.run_inl hv] at hr
      cases hr
      rw [slotVisit] at hv
      rw [hv]
      exact ⟨_, t, rfl, ht, hitem, rfl⟩
    | inr count' =>
      rw [Visit.run_inr hv] at hr
      rw [slotVisit] at hv
      rw [hv]
      split at hr
      · rename_i hl
        cases hr
        dsimp only
        rw [countDirItemsLoop, if_pos (hend hl)]
        exact ⟨_, t, rfl, ht, hitem, rfl⟩
      · rename_i hl
        exact ih hr (hnext (by simpa using hl)) _ t ht

/-- More fuel changes nothing. -/
theorem below_countDirItemsLoop (fuel : Nat) (d : FatDescriptor) (e : FatEntry) (count : Int) :
    Below .hang (countDirItemsLoop p fuel d e count) (countDirItemsLoop p (fuel + 1) d e count) := by
  induction fuel generalizing d e count with
  | zero => exact .throw
  | succ fuel ih =>
    rw [countDirItemsLoop, countDirItemsLoop]
    refine .ite (.refl _) (.bind (.refl _) fun r _ _ _ => ?_)
    exact .ite (.refl _) (.ite (ih _ _ _) (.ite (.refl _) (ih _ _ _)))

theorem below_countDirItems (stale : FatEntry) (fuel : Nat) :
    Below .hang (fat16CountDirItems stale fuel p d) (fat16CountDirItems stale (fuel + 1) p d) := by
  rw [fat16CountDirItems, fat16CountDirItems]
  exact .bind (below_countDirItemsLoop _ _ _ _) fun _ _ _ _ => .refl _

/-- From any position of the stream, and whatever the stack holds, `fat16_count_dir_items` returns
the number of `live` slots in front of the one that ends the directory, and leaves the cursors
reset. -/
def CountsSlots (live : FatEntry → Bool) (disk : Disk) (p : FatPrivate) (clusters : List Nat)
    (d : FatDescriptor) : Prop :=
  ∀ (stale : FatEntry) (s : DiskStream), s.disk = disk → ∃ fuel d' t,
    fat16CountDirItems stale fuel p d s = .ok ((d',
      ((usedSlots disk p clusters).countP fun k => live (chainSlot disk p clusters k) : Nat)), t) ∧
    d'.item = d.item ∧ __fat16ResetCursors d' = d'

theorem countP_takeWhile_run (slot : Nat → FatEntry) {m : Nat} (hm : 0 < m) :
    Visit.run (fun j => j + 1 == k + m) (slotVisit countVisit slot) id m k count =
      some (count + (((List.range' k m).takeWhile fun j => !countStops (slot j)).countP fun j =>
        !(slot j).isLfnOrLabel : Nat)) := by
  induction m generalizing k count with
  | zero => omega
  | succ m ih =>
    rw [List.range'_succ]
    by_cases hstop : countStops (slot k) = true
    · rw [Visit.run_inl (r := count) (by rw [slotVisit, countVisit, if_pos hstop]),
        List.takeWhile_cons_of_neg (by simp [hstop])]
      simp
    have hgo : slotVisit countVisit slot k count =
        .inr (if (slot k).isLfnOrLabel then count else count + 1) := by
      rw [slotVisit, countVisit, if_neg hstop]
    rw [Visit.run_inr hgo, List.takeWhile_cons_of_pos (by simpa using hstop), List.countP_cons]
    have hone : (if (slot k).isLfnOrLabel = true then count else count + 1) =
        count + ((if (!(slot k).isLfnOrLabel) = true then 1 else 0 : Nat) : Int) := by
      cases (slot k).isLfnOrLabel <;> simp
    rcases Nat.eq_zero_or_pos m with rfl | hpos
    · rw [if_pos (by simp), hone]
      simp
    · rw [if_neg (by simp; omega), show k + (m + 1) = k + 1 + m by omega, ih hpos, hone]
      simp only [Nat.cast_add]
      congr 1
      omega

theorem countDirItems_of_loop {stale : FatEntry} {d' : FatDescriptor} {t : DiskStream}
    (h : countDirItemsLoop p fuel (__fat16ResetCursors d) stale 0 s = .ok ((d', some count), t)) :
    fat16CountDirItems stale fuel p d s = .ok ((__fat16ResetCursors d', count), t) := by
  rw [fat16CountDirItems]
  simp only [Bind.bind, StateT.bind, Except.bind, h]
  rfl

theorem countsSlots_of_near {ok : Nat → Bool} (hp : fat16Probe ok disk = .ok (.ok p))
    (hbpc : 0 < p.bytesPerCluster) (hwhole : p.bytesPerCluster % FAT_ENTRY_SIZE = 0)
    (h : DirChain disk p d.item clusters)
    (hneeded : ∀ k, NeededSlot countStops disk p clusters k → slotAddr p clusters k < 2 ^ 32) :
    CountsSlots (fun e => !e.isLfnOrLabel) disk p clusters d := by
  have hg := fat16Probe_geometry hp
  have hvisit : ∀ e k b b', countVisit e k b = .inr b' → countStops e = false :=
    fun _ _ _ _ => countVisit_inr
  have hscan : Visit.run (lastSlot disk p d.item) (slotVisit countVisit (dirSlot disk p d.item)) id
      (slotCount p clusters) 0 0 = some ((usedSlots disk p clusters).countP fun k =>
        !(chainSlot disk p clusters k).isLfnOrLabel : Nat) := by
    have hrun := @countP_takeWhile_run 0 0 (chainSlot disk p clusters) _
      (slotCount_pos hbpc hwhole h)
    rw [Nat.zero_add, ← List.range_eq_range', Int.zero_add] at hrun
    rw [run_chain_eq hvisit hp hbpc hwhole h hneeded]
    exact hrun
  intro stale s hsd
  obtain ⟨⟨d', found⟩, t, hloop, -, hitem, rfl⟩ := countDirItemsLoop_run (fat16Probe_fields hp)
    (hg.sectorsPerCluster_ne_zero hbpc) hbpc hwhole hg.bytesPerCluster_lt h hscan
    resetCursors_dirAt stale s hsd
  exact ⟨_, _, t, countDirItems_of_loop hloop, hitem, rfl⟩

end Count

/-! ## Both functions -/

section Both

variable {disk : Disk} {p : FatPrivate}

/-- No lookup on the volume returns a deleted slot, unless its name is one that was `asked` for. -/
def FindsNoDeleted (disk : Disk) (p : FatPrivate) (asked : List Byte → Prop) : Prop :=
  ∀ (kzallocOk : Bool) (fuel : Nat) (d d' : FatDescriptor) (filename extension : List Byte)
    (s t : DiskStream) (item : FatItem), s.disk = disk → ¬ asked filename →
    fat16FindEntryInDir kzallocOk fuel p d filename extension s = .ok ((d', some item), t) →
    item.entry.isDeleted = false

/-- On an accepted volume, a lookup returns a deleted slot only for a name that begins with 0xE5.
The count of a directory of whole slots, those up to its end being below 4 GiB, is the number of
its slots that are not skipped, the deleted ones included. -/
theorem deleted_entries {ok : Nat → Bool} (hp : fat16Probe ok disk = .ok (.ok p)) :
    FindsNoDeleted disk p (fun filename => charAt filename 0 = 0xE5) ∧
    (0 < p.bytesPerCluster → p.bytesPerCluster % FAT_ENTRY_SIZE = 0 →
      ∀ (d : FatDescriptor) (clusters : List Nat), DirChain disk p d.item clusters →
      (∀ k, NeededSlot countStops disk p clusters k → slotAddr p clusters k < 2 ^ 32) →
      CountsSlots (fun e => !e.isLfnOrLabel) disk p clusters d) := by
  refine ⟨?_, fun hbpc hwhole d clusters h hneeded => countsSlots_of_near hp hbpc hwhole h hneeded⟩
  intro kzallocOk fuel d d' filename extension s t item _ hasked hrun
  by_contra hdel
  exact hasked (find_not_deleted hrun (by simpa using hdel))

/-! The volume of before, with a deleted file in the first slot. -/

def deletedDisk : Disk := (dirDisk 1 2).withSlot (4640 * 512) (entryNamed [0xE5] [] 0)

def deletedVolume : FatPrivate := .ofHeader (.ofBytes (deletedDisk.slice 0 FAT_HEADER_SIZE))

theorem deletedVolume_accepted :
    fat16Probe (fun _ => true) deletedDisk = .ok (.ok deletedVolume) :=
  fat16Probe_accepts (by decide +kernel) (by decide +kernel) (by decide +kernel)

theorem deletedDisk_chain : DirChain deletedDisk deletedVolume (dirOpened 1 2).item [2] :=
  .single (by decide +kernel) (by decide +kernel) (by decide +kernel) (by decide +kernel)
    (by decide +kernel)

theorem deletedDisk_near (stop : FatEntry → Bool) :
    ∀ k, NeededSlot stop deletedDisk deletedVolume [2] k → slotAddr deletedVolume [2] k < 2 ^ 32 := by
  have hbelow : ∀ k < 16, slotAddr deletedVolume [2] k < 2 ^ 32 := by decide +kernel
  exact fun k hk => hbelow k hk.1

/-- The deleted slot is counted. -/
theorem deleted_entries_one_slot :
    (usedSlots deletedDisk deletedVolume [2]).length = 1 ∧
      CountsSlots (fun e => !e.isLfnOrLabel) deletedDisk deletedVolume [2] (dirOpened 1 2) :=
  ⟨by decide +kernel, (deleted_entries deletedVolume_accepted).2 (by decide +kernel)
    (by decide +kernel) _ _ deletedDisk_chain (deletedDisk_near _)⟩

/-- And it is found, by its name. -/
theorem deleted_entry_seen :
    (¬ ∀ (disk : Disk) (p : FatPrivate), fat16Probe (fun _ => true) disk = .ok (.ok p) →
      FindsNoDeleted disk p fun _ => False) ∧
    ¬ ∀ (disk : Disk) (p : FatPrivate), fat16Probe (fun _ => true) disk = .ok (.ok p) →
      0 < p.bytesPerCluster → p.bytesPerCluster % FAT_ENTRY_SIZE = 0 →
      ∀ (d : FatDescriptor) (clusters : List Nat), DirChain disk p d.item clusters →
      CountsSlots (fun e => !e.isDeleted && !e.isLfnOrLabel) disk p clusters d := by
  constructor
  · intro h
    have hfits : SubdirFits true deletedDisk deletedVolume [2] [0xE5] [] :=
      ⟨deletedDisk_near _, fun _ => rfl⟩
    have hlook := looksUpChain_of_fits deletedVolume_accepted (by decide +kernel) (by decide +kernel)
      deletedDisk_chain hfits
    have hfound : chainLookup deletedDisk deletedVolume [2] [0xE5] [] = some 0 := by decide +kernel
    obtain ⟨fuel, d', t, hrun, -⟩ := hlook ⟨deletedDisk, 0, []⟩ rfl
    rw [hfound] at hrun
    have hnot := h _ _ deletedVolume_accepted _ _ _ _ _ _ _ _ _ rfl id hrun
    exact absurd hnot (by decide +kernel)
  · intro h
    obtain ⟨fuel, d', t, hrun, -⟩ := h _ _ deletedVolume_accepted (by decide +kernel)
      (by decide +kernel) _ _ deletedDisk_chain .zero ⟨deletedDisk, 0, []⟩ rfl
    obtain ⟨fuel', d'', t', hrun', -⟩ := countsSlots_of_near deletedVolume_accepted
      (by decide +kernel) (by decide +kernel) deletedDisk_chain (deletedDisk_near _) .zero
      ⟨deletedDisk, 0, []⟩ rfl
    have hzero : (usedSlots deletedDisk deletedVolume [2]).countP (fun k =>
        !(chainSlot deletedDisk deletedVolume [2] k).isDeleted &&
          !(chainSlot deletedDisk deletedVolume [2] k).isLfnOrLabel) = 0 := by decide +kernel
    have hone : (usedSlots deletedDisk deletedVolume [2]).countP (fun k =>
        !(chainSlot deletedDisk deletedVolume [2] k).isLfnOrLabel) = 1 := by decide +kernel
    have hsame := ((Below.le (below_countDirItems .zero) (Nat.le_max_left fuel fuel')).ok
      hrun).symm.trans ((Below.le (below_countDirItems .zero) (Nat.le_max_right fuel fuel')).ok hrun')
    simp only [Except.ok.injEq, Prod.mk.injEq, Nat.cast_inj] at hsame
    exact absurd (hzero.symm.trans (hsame.1.2.trans hone)) (by decide)

end Both

end AvocadOS
