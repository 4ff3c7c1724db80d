import AvocadOS.Fat16.Clusters
import AvocadOS.Fat16.DirChain
import AvocadOS.Lib.Visit

/-!
# Lookups in a directory with clusters

`chainLookup` is what a lookup is for: the first match among the slots in front of the first one
that ends the directory. The driver's scan and this one are both a `Visit.run`, over the slots as
the driver reads them and over the slots themselves.

* `findEntryLoop_run`, `findEntryLoop_hang`: the driver's loop is a `Visit.run`;
* `chainLookup_run`: so is `chainLookup`;
* `subdir_lookup_iff`: on an accepted volume of whole slots, the lookup does what it is for exactly
  if the slots it has to examine lie below 4 GiB and the item can be allocated.
-/

namespace AvocadOS

set_option linter.style.nameCheck false

/-! ## The driver's loop -/

section Driver

variable {disk : Disk} {p : FatPrivate} {item : FatItem} {clusters : List Nat}
  {filename extension : List Byte} {d : FatDescriptor} {e : FatEntry} {s : DiskStream} {fuel k : Nat}

/-- A visit to the slots of a directory. -/
def slotVisit {β γ : Type} (visit : FatEntry → Nat → β → γ ⊕ β) (slot : Nat → FatEntry) (k : Nat)
    (b : β) : γ ⊕ β :=
  visit (slot k) k b

/-- What a lookup does at slot `k` with the entry `e`. -/
def findVisit (hit : FatEntry → Bool) (e : FatEntry) (k : Nat) (_ : Unit) :
    Option (FatEntry × Nat) ⊕ Unit :=
  if countStops e then .inl none
  else if hit e then .inl (some (e, k + 1))
  else .inr ()

/-- One iteration, from what the read gives. -/
theorem findEntryLoop_read {d' : FatDescriptor} {res : Int} {bytes : List Byte} {t : DiskStream}
    (heof : d.eof = false) (hread : __fat16Read p d FAT_ENTRY_SIZE s = .ok ((d', res, bytes), t))
    (hres : 0 ≤ res) :
    findEntryLoop p (padded filename 8) (padded extension 3) (fuel + 1) d e k s =
      if countStops (e.overlay bytes) then .ok (({ d' with eof := true }, none), t)
      else if isMatch filename extension (e.overlay bytes) then
        .ok ((d', some (e.overlay bytes, k + 1)), t)
      else findEntryLoop p (padded filename 8) (padded extension 3) fuel d' (e.overlay bytes)
        (k + 1) t := by
  rw [findEntryLoop, heof]
  simp only [Bool.false_eq_true, if_false, Bind.bind, StateT.bind, Except.bind, hread]
  rw [if_neg (by omega)]
  generalize e.overlay bytes = slot
  cases hlfn : slot.isLfnOrLabel with
  | true =>
    rw [if_pos rfl, if_neg (by simp [countStops, hlfn]), if_neg (by simp [isMatch, hlfn])]
  | false =>
    have hmatch := compares_isMatch filename extension slot hlfn
    rw [if_neg Bool.false_ne_true, countStops_eq hlfn]
    by_cases hend : charAt slot.filename 0 = 0
    · rw [if_pos hend, decide_eq_true hend, if_pos rfl]
      rfl
    · rw [if_neg hend, decide_eq_false hend, if_neg Bool.false_ne_true]
      cases hhit : isMatch filename extension slot with
      | true =>
        rw [if_neg (mt hmatch.mp (by rw [hhit]; exact Bool.noConfusion)), if_pos rfl]
        rfl
      | false => rw [if_pos (hmatch.mpr hhit), if_neg Bool.false_ne_true]

variable (hf : p.Fields) (hs : p.header.sectorsPerCluster ≠ 0) (hbpc : 0 < p.bytesPerCluster)
  (hwhole : p.bytesPerCluster % FAT_ENTRY_SIZE = 0) (hlt : p.bytesPerCluster < 2 ^ 24)

/-- The driver's scan, as a function of the slots that it reads. -/
def driverFind (disk : Disk) (p : FatPrivate) (item : FatItem) (filename extension : List Byte) :
    Nat → Nat → Unit → Option (Option (FatEntry × Nat)) :=
  Visit.run (lastSlot disk p item)
    (slotVisit (findVisit (isMatch filename extension)) (dirSlot disk p item)) fun _ => none

include hf hs hbpc hwhole hlt

/-- One iteration in front of slot `k`: it returns there, or goes on. -/
theorem findEntryLoop_slot_step (h : DirChain disk p item clusters) (hd : DirAt disk p item d k)
    (e : FatEntry) (hsd : s.disk = disk) : ∃ d' t, t.disk = disk ∧ d'.item = item ∧
      match slotVisit (findVisit (isMatch filename extension)) (dirSlot disk p item) k () with
      | .inl r => ∀ fuel, findEntryLoop p (padded filename 8) (padded extension 3) (fuel + 1) d e k s =
          .ok ((d', r), t)
      | .inr _ => (∀ fuel, findEntryLoop p (padded filename 8) (padded extension 3) (fuel + 1) d e k s =
            findEntryLoop p (padded filename 8) (padded extension 3) fuel d'
              (dirSlot disk p item k) (k + 1) t) ∧
          if lastSlot disk p item k then d'.eof = true else DirAt disk p item d' (k + 1) := by
  obtain ⟨⟨d', res, bytes⟩, t, hread, ht, rfl, hslot, hitem, hnext, hend⟩ :=
    h.read hf hs hbpc hwhole hlt hd e s hsd
  simp only at hslot hitem hnext hend
  have hstep := fun fuel => @findEntryLoop_read p filename extension d e s fuel k d' _ bytes t hd.eof
    hread (by decide)
  rw [hslot] at hstep
  by_cases hstop : countStops (dirSlot disk p item k) = true
  · refine ⟨{ d' with eof := true }, t, ht, hitem, ?_⟩
    rw [slotVisit, findVisit, if_pos hstop]
    exact fun fuel => (hstep fuel).trans (if_pos hstop)
  simp only [if_neg hstop] at hstep
  refine ⟨d', t, ht, hitem, ?_⟩
  rw [slotVisit, findVisit, if_neg hstop]
  by_cases hhit : isMatch filename extension (dirSlot disk p item k) = true
  · rw [if_pos hhit]
    exact fun fuel => (hstep fuel).trans (if_pos hhit)
  rw [if_neg hhit]
  refine ⟨fun fuel => (hstep fuel).trans (if_neg hhit), ?_⟩
  split
  · rename_i hl; exact hend hl
  · rename_i hl; exact hnext (by simpa using hl)

/-- A scan that ends: the loop returns its result. -/
theorem findEntryLoop_run (h : DirChain disk p item clusters) {r : Option (FatEntry × Nat)}
    (hr : driverFind disk p item filename extension fuel k () = some r)
    (hd : DirAt disk p item d k) (e : FatEntry) :
    Gives disk (findEntryLoop p (padded filename 8) (padded extension 3) (fuel + 1) d e k) fun x =>
      x.1.item = item ∧ x.2 = r := by
  induction fuel generalizing d e k with
  | zero => cases hr
  | succ fuel ih =>
    intro s hsd
    obtain ⟨d', t, ht, hitem, hstep⟩ := @findEntryLoop_slot_step disk p item clusters filename
      extension d s k hf hs hbpc hwhole hlt h hd e hsd
    cases hv : slotVisit (findVisit (isMatch filename extension)) (dirSlot disk p item) k () with
    | inl r' =>
      rw [driverFind, Visit.run_inl hv] at hr
      cases hr
      rw [hv] at hstep
      exact ⟨_, t, hstep _, ht, hitem, rfl⟩
    | inr b =>
      rw [driverFind, Visit.run_inr hv] at hr
      rw [hv] at hstep
      obtain ⟨hstep, hnext⟩ := hstep
      rw [hstep]
      split at hr
      · rename_i hl
        rw [if_pos hl] at hnext
        cases hr
        rw [findEntryLoop, if_pos hnext]
        exact ⟨_, t, rfl, ht, hitem, rfl⟩
      · rename_i hl
        rw [if_neg hl] at hnext
        exact ih hr hnext _ t ht

/-- One that does not: the loop runs out of fuel. -/
theorem findEntryLoop_hang (h : DirChain disk p item clusters)
    (hr : driverFind disk p item filename extension fuel k () = none)
    (hd : DirAt disk p item d k) (e : FatEntry) (hsd : s.disk = disk) :
    findEntryLoop p (padded filename 8) (padded extension 3) fuel d e k s = .error .hang := by
  induction fuel generalizing d e k s with
  | zero => rfl
  | succ fuel ih =>
    obtain ⟨d', t, ht, -, hstep⟩ := @findEntryLoop_slot_step disk p item clusters filename
      extension d s k hf hs hbpc hwhole hlt h hd e hsd
    cases hv : slotVisit (findVisit (isMatch filename extension)) (dirSlot disk p item) k () with
    | inl r' => rw [driverFind, Visit.run_inl hv] at hr; cases hr
    | inr b =>
      rw [driverFind, Visit.run_inr hv] at hr
      rw [hv] at hstep
      obtain ⟨hstep, hnext⟩ := hstep
      rw [hstep]
      split at hr
      · cases hr
      · rename_i hl
        rw [if_neg hl] at hnext
        exact ih hr hnext _ ht

end Driver

/-! ## What a lookup is for -/

section Lookup

variable {disk disk' : Disk} {p : FatPrivate} {item : FatItem} {clusters : List Nat}
  {filename extension : List Byte} {kzallocOk : Bool} {n k : Nat}

/-- The slots in front of the first one that ends the directory. -/
def usedSlots (disk : Disk) (p : FatPrivate) (clusters : List Nat) : List Nat :=
  (List.range (slotCount p clusters)).takeWhile fun k => !countStops (chainSlot disk p clusters k)

/-- The first slot among them that is not skipped and has the padded name. -/
def chainLookup (disk : Disk) (p : FatPrivate) (clusters : List Nat)
    (filename extension : List Byte) : Option Nat :=
  (usedSlots disk p clusters).find? fun k => isMatch filename extension (chainSlot disk p clusters k)

/-- From any position of the stream, `fat16_find_entry_in_dir` returns the item of that slot, or
`NULL`, and leaves the cursors reset. -/
def LooksUpChain (kzallocOk : Bool) (disk : Disk) (p : FatPrivate) (clusters : List Nat)
    (d : FatDescriptor) (filename extension : List Byte) : Prop :=
  ∀ s : DiskStream, s.disk = disk → ∃ fuel d' t,
    fat16FindEntryInDir kzallocOk fuel p d filename extension s = .ok ((d',
      (chainLookup disk p clusters filename extension).map fun k =>
        .ofEntry p d.item (chainSlot disk p clusters k) (k + 1)), t) ∧
    d'.item = d.item ∧ __fat16ResetCursors d' = d'

/-- A slot that the lookup has to examine: no slot in front of it decides. -/
def NeededSlot (stop : FatEntry → Bool) (disk : Disk) (p : FatPrivate) (clusters : List Nat)
    (k : Nat) : Prop :=
  k < slotCount p clusters ∧ ∀ j < k, stop (chainSlot disk p clusters j) = false

theorem find_takeWhile_run (slot : Nat → FatEntry) (hit : FatEntry → Bool) {m : Nat} (hm : 0 < m) :
    Visit.run (fun j => j + 1 == k + m) (slotVisit (findVisit hit) slot) (fun _ => none) m k () =
      some ((((List.range' k m).takeWhile fun j => !countStops (slot j)).find? fun j =>
        hit (slot j)).map fun j => (slot j, j + 1)) := by
  induction m generalizing k with
  | zero => omega
  | succ m ih =>
    rw [List.range'_succ]
    by_cases hstop : countStops (slot k) = true
    · rw [Visit.run_inl (r := none) (by rw [slotVisit, findVisit, if_pos hstop]),
        List.takeWhile_cons_of_neg (by simp [hstop])]
      rfl
    by_cases hhit : hit (slot k) = true
    · rw [Visit.run_inl (r := some (slot k, k + 1))
          (by rw [slotVisit, findVisit, if_neg hstop, if_pos hhit]),
        List.takeWhile_cons_of_pos (by simpa using hstop), List.find?_cons_of_pos (by exact hhit)]
      rfl
    have hgo : slotVisit (findVisit hit) slot k () = .inr () := by
      rw [slotVisit, findVisit, if_neg hstop, if_neg hhit]
    rw [Visit.run_inr hgo,
      List.takeWhile_cons_of_pos (by simpa using hstop), List.find?_cons_of_neg (by exact hhit)]
    rcases Nat.eq_zero_or_pos m with rfl | hpos
    · rw [if_pos (by simp)]
      rfl
    · rw [if_neg (by simp; omega), ← ih hpos, show k + (m + 1) = k + 1 + m by omega]

theorem chainLookup_run (hn : 0 < slotCount p clusters) :
    Visit.run (fun j => j + 1 == slotCount p clusters)
      (slotVisit (findVisit (isMatch filename extension)) (chainSlot disk p clusters))
      (fun _ => none) (slotCount p clusters) 0 () =
        some ((chainLookup disk p clusters filename extension).map fun j =>
          (chainSlot disk p clusters j, j + 1)) := by
  have h := @find_takeWhile_run 0 (chainSlot disk p clusters) (isMatch filename extension) _ hn
  rwa [Nat.zero_add, ← List.range_eq_range'] at h

/-- A match in front of which nothing decides. -/
theorem chainLookup_eq_some (hk : NeededSlot (findStops filename extension) disk p clusters k)
    (hhit : isMatch filename extension (chainSlot disk p clusters k) = true)
    (hstop : countStops (chainSlot disk p clusters k) = false) :
    chainLookup disk p clusters filename extension = some k := by
  obtain ⟨hlt, hbefore⟩ := hk
  simp only [findStops, Bool.or_eq_false_iff] at hbefore
  have hsplit : List.range (slotCount p clusters) =
      List.range (k + 1) ++ List.range' (k + 1) (slotCount p clusters - (k + 1)) := by
    have happ := @List.range'_append_1 0 (k + 1) (slotCount p clusters - (k + 1))
    rw [Nat.zero_add, Nat.add_sub_cancel' hlt] at happ
    rw [List.range_eq_range', List.range_eq_range', happ]
  rw [chainLookup, usedSlots, hsplit, List.takeWhile_append_of_pos (by
      intro j hj
      rcases Nat.lt_or_eq_of_le (Nat.lt_succ_iff.mp (List.mem_range.mp hj)) with hj | rfl
      · simp [(hbefore j hj).1]
      · simp [hstop]),
    List.range_succ, List.append_assoc, List.find?_append, List.find?_eq_none.mpr (by
      intro j hj
      simp [(hbefore j (List.mem_range.mp hj)).2]),
    Option.none_or, List.singleton_append, List.find?_cons_of_pos (by exact hhit)]

theorem slotCount_pos (hbpc : 0 < p.bytesPerCluster)
    (hwhole : p.bytesPerCluster % FAT_ENTRY_SIZE = 0) (h : DirChain disk p item clusters) :
    0 < slotCount p clusters := by
  obtain ⟨hpos, -⟩ := List.getElem?_eq_some_iff.mp h.first
  rw [DirChain.slotCount_eq hwhole]
  exact Nat.mul_pos hpos (DirChain.slots_pos hbpc hwhole)

/-- If the slots that a scan has to examine lie below 4 GiB, the driver's scan is the right one. -/
theorem run_chain_eq {β γ : Type} {visit : FatEntry → Nat → β → γ ⊕ β} {stop : FatEntry → Bool}
    (hvisit : ∀ e k b b', visit e k b = .inr b' → stop e = false) {done : β → γ} {b : β}
    {ok : Nat → Bool} (hp : fat16Probe ok disk = .ok (.ok p)) (hbpc : 0 < p.bytesPerCluster)
    (hwhole : p.bytesPerCluster % FAT_ENTRY_SIZE = 0) (h : DirChain disk p item clusters)
    (hneeded : ∀ k, NeededSlot stop disk p clusters k → slotAddr p clusters k < 2 ^ 32) :
    Visit.run (lastSlot disk p item) (slotVisit visit (dirSlot disk p item)) done
        (slotCount p clusters) 0 b =
      Visit.run (fun j => j + 1 == slotCount p clusters) (slotVisit visit (chainSlot disk p clusters))
        done (slotCount p clusters) 0 b := by
  have hf := fat16Probe_fields hp
  have hg := fat16Probe_geometry hp
  have hs : p.header.sectorsPerCluster ≠ 0 := by
    intro hs
    rw [hg.bytesPerCluster, hs] at hbpc
    omega
  have hbefore : ∀ {j k}, j ≤ k → NeededSlot stop disk p clusters k →
      NeededSlot stop disk p clusters j := by
    intro j k hjk hk
    exact ⟨Nat.lt_of_le_of_lt hjk hk.1, fun i hi => hk.2 i (Nat.lt_of_lt_of_le hi hjk)⟩
  have hposition : ∀ {k}, NeededSlot stop disk p clusters k → FAT_ENTRY_SIZE * k < 2 ^ 32 := by
    intro k hk
    have := h.position_lt hg hbpc hwhole hk.1 fun j hj => hneeded j (hbefore hj hk)
    omega
  have hslot : ∀ {k}, NeededSlot stop disk p clusters k →
      dirSlot disk p item k = chainSlot disk p clusters k :=
    fun hk => h.dirSlot_eq hf hs hbpc hwhole hk.1 (hposition hk) (hneeded _ hk)
  -- behind a slot that does not decide, the next one has to be examined
  have hnext : ∀ k b b', NeededSlot stop disk p clusters k →
      slotVisit visit (dirSlot disk p item) k b = .inr b' → k + 1 < slotCount p clusters →
      NeededSlot stop disk p clusters (k + 1) := by
    intro k b b' hk hv hlt
    refine ⟨hlt, fun j hj => ?_⟩
    rcases Nat.lt_or_eq_of_le (Nat.lt_succ_iff.mp hj) with hj | rfl
    · exact hk.2 j hj
    · rw [← hslot hk]
      exact hvisit _ _ _ _ hv
  have hlast : ∀ k b b', NeededSlot stop disk p clusters k →
      slotVisit visit (dirSlot disk p item) k b = .inr b' →
      lastSlot disk p item k = (k + 1 == slotCount p clusters) := by
    intro k b b' hk hv
    rcases Nat.lt_or_eq_of_le (Nat.succ_le_of_lt hk.1) with hlt | heq
    · rw [h.lastSlot_eq_false hf hs hbpc hwhole hlt (hposition (hnext k b b' hk hv hlt))]
      simp only [Bool.false_eq, beq_eq_false_iff_ne]
      omega
    · have hbytes := h.bytes_lt hbpc hwhole hp fun j hj =>
        hneeded j (hbefore (show j ≤ k by omega) hk)
      rw [h.lastSlot_eq_true hf hs hbpc hwhole heq hbytes]
      exact (beq_iff_eq.mpr heq).symm
  refine Visit.run_congr (I := NeededSlot stop disk p clusters) (fun k hk => ?_) hlast ?_
    ⟨slotCount_pos hbpc hwhole h, fun j hj => absurd hj (Nat.not_lt_zero j)⟩
  · funext b
    rw [slotVisit, slotVisit, hslot hk]
  · intro k b b' hk hv hl
    refine hnext k b b' hk hv (Nat.lt_of_le_of_ne (Nat.succ_le_of_lt hk.1) fun heq => ?_)
    rw [hlast k b b' hk hv, beq_iff_eq.mpr heq] at hl
    cases hl

section Same

variable {stop : FatEntry → Bool} (hg : p.Geometry)
  (hwhole : p.bytesPerCluster % FAT_ENTRY_SIZE = 0) (hsame : SameBelow p clusters disk disk')
  (hneeded : ∀ k, NeededSlot stop disk p clusters k → slotAddr p clusters k < 2 ^ 32)

include hg hwhole hsame hneeded

/-- If the slots to examine lie below 4 GiB, they are the same on `disk'`. -/
theorem neededSlot_of_sameBelow (k : Nat) :
    NeededSlot stop disk' p clusters k → NeededSlot stop disk p clusters k := by
  induction k using Nat.strongRecOn with
  | ind k ih =>
    rintro ⟨hlt, hbefore⟩
    refine ⟨hlt, fun j hj => ?_⟩
    have hjn := ih j hj ⟨Nat.lt_trans hj hlt, fun i hi => hbefore i (Nat.lt_trans hi hj)⟩
    rw [← hsame.chainSlot_eq hg hwhole (hneeded j hjn)]
    exact hbefore j hj

theorem run_sameBelow {β γ : Type} {visit : FatEntry → Nat → β → γ ⊕ β}
    (hvisit : ∀ e k b b', visit e k b = .inr b' → stop e = false) {done : β → γ} {b : β} {n : Nat}
    (hn : 0 < slotCount p clusters) :
    Visit.run (fun j => j + 1 == slotCount p clusters) (slotVisit visit (chainSlot disk p clusters))
        done n 0 b =
      Visit.run (fun j => j + 1 == slotCount p clusters)
        (slotVisit visit (chainSlot disk' p clusters)) done n 0 b := by
  refine Visit.run_congr (I := NeededSlot stop disk p clusters) (fun k hk => ?_)
    (fun _ _ _ _ _ => rfl) ?_ ⟨hn, fun j hj => absurd hj (Nat.not_lt_zero j)⟩
  · funext b
    rw [slotVisit, slotVisit, hsame.chainSlot_eq hg hwhole (hneeded k hk)]
  · intro k b b' hk hv hl
    refine ⟨Nat.lt_of_le_of_ne (Nat.succ_le_of_lt hk.1) (beq_eq_false_iff_ne.mp hl), fun j hj => ?_⟩
    rcases Nat.lt_or_eq_of_le (Nat.lt_succ_iff.mp hj) with hj | rfl
    · exact hk.2 j hj
    · exact hvisit _ _ _ _ hv

end Same

/-- The slots to examine lie below 4 GiB, and the item of a match can be allocated. -/
structure SubdirFits (kzallocOk : Bool) (disk : Disk) (p : FatPrivate) (clusters : List Nat)
    (filename extension : List Byte) : Prop where
  address : ∀ k, NeededSlot (findStops filename extension) disk p clusters k →
    slotAddr p clusters k < 2 ^ 32
  memory : chainLookup disk p clusters filename extension ≠ none → kzallocOk = true

/-- An entry with the padded name. -/
def entryNamed (filename extension : List Byte) (lastByte : Byte) : FatEntry where
  byte i :=
    if i.val < 8 then charAt (padded filename 8) i
    else if i.val < 11 then charAt (padded extension 3) (i - 8)
    else if i.val = 31 then lastByte
    else 0

theorem isMatch_entryNamed (filename extension : List Byte) (lastByte : Byte) :
    isMatch filename extension (entryNamed filename extension lastByte) = true := by
  have hname : (entryNamed filename extension lastByte).filename = padded filename 8 := by
    refine List.ext_getElem (by simp [FatEntry.filename, FatEntry.raw, padded_length]) ?_
    intro i h₁ h₂
    have hi : i < 8 := (padded_length filename 8) ▸ h₂
    simp only [FatEntry.filename, FatEntry.raw, List.getElem_take, List.getElem_ofFn, entryNamed]
    rw [if_pos hi, charAt, List.getD_eq_getElem _ _ h₂]
  have hext : (entryNamed filename extension lastByte).extension = padded extension 3 := by
    refine List.ext_getElem (by simp [FatEntry.extension, FatEntry.raw, padded_length]) ?_
    intro i h₁ h₂
    have hi : i < 3 := (padded_length extension 3) ▸ h₂
    simp only [FatEntry.extension, FatEntry.raw, List.getElem_take, List.getElem_drop,
      List.getElem_ofFn, entryNamed]
    rw [if_neg (by omega), if_pos (by omega), Nat.add_sub_cancel_left, charAt,
      List.getD_eq_getElem _ _ h₂]
  have hattr : (entryNamed filename extension lastByte).attributes = 0 := by
    simp [FatEntry.attributes, entryNamed]
  have hlfn : (entryNamed filename extension lastByte).isLfnOrLabel = false := by
    rw [FatEntry.isLfnOrLabel, hattr]
    decide
  simp [isMatch, hname, hext, hlfn]

/-- A match does not end the directory: the padded name has no zero byte. -/
theorem countStops_of_isMatch {e : FatEntry} (h : isMatch filename extension e = true) :
    countStops e = false := by
  simp only [isMatch, Bool.and_eq_true, Bool.not_eq_true', beq_iff_eq] at h
  obtain ⟨⟨hlfn, hname⟩, -⟩ := h
  rw [countStops_eq hlfn, hname, decide_eq_false_iff_not]
  refine @padded_ne_zero filename 8 _ ?_
  rw [charAt, List.getD_eq_getElem _ _ (by rw [padded_length]; decide)]
  exact List.getElem_mem _

theorem findVisit_inr {b b' : Unit} {e : FatEntry}
    (h : findVisit (isMatch filename extension) e k b = .inr b') :
    findStops filename extension e = false := by
  rw [findVisit] at h
  split at h
  · cases h
  split at h
  · cases h
  · rename_i hstop hhit
    simp [findStops, hstop, hhit]

theorem resetCursors_dirAt {d : FatDescriptor} : DirAt disk p d.item (__fat16ResetCursors d) 0 :=
  ⟨rfl, rfl, rfl, (Nat.zero_mod _).symm, rfl⟩

theorem FatPrivate.Geometry.sectorsPerCluster_ne_zero (hg : p.Geometry)
    (hbpc : 0 < p.bytesPerCluster) : p.header.sectorsPerCluster ≠ 0 := by
  intro hs
  rw [hg.bytesPerCluster, hs] at hbpc
  omega

/-- A lookup that returned the item of a slot: the driver's scan has found that slot. -/
theorem driverFind_of_looksUpChain (hf : p.Fields) (hg : p.Geometry) (hbpc : 0 < p.bytesPerCluster)
    (hwhole : p.bytesPerCluster % FAT_ENTRY_SIZE = 0) {d : FatDescriptor}
    (h : DirChain disk p d.item clusters)
    (hlook : LooksUpChain kzallocOk disk p clusters d filename extension)
    (hk : chainLookup disk p clusters filename extension = some k) :
    kzallocOk = true ∧ ∃ fuel, driverFind disk p d.item filename extension fuel 0 () =
      some (some (chainSlot disk p clusters k, k + 1)) := by
  have hs := hg.sectorsPerCluster_ne_zero hbpc
  obtain ⟨fuel, d₁, t, hrun, -⟩ := hlook ⟨disk, 0, []⟩ rfl
  obtain ⟨d₂, found, hloop⟩ := loop_of_findEntryInDir (.inl h.type) hrun
  obtain ⟨d₃, hrun', -⟩ := @findEntryInDir_of_loop p filename extension d d₂ _ t _ kzallocOk
    (.inl h.type) _ hloop
  cases hscan : driverFind disk p d.item filename extension fuel 0 () with
  | none =>
    have hhang := findEntryLoop_hang hf hs hbpc hwhole hg.bytesPerCluster_lt h hscan
      resetCursors_dirAt .zero (s := ⟨disk, 0, []⟩) rfl
    rw [hloop] at hhang
    cases hhang
  | some r =>
    obtain ⟨x, u, hloop', -, -, hx⟩ := findEntryLoop_run hf hs hbpc hwhole hg.bytesPerCluster_lt h
      hscan resetCursors_dirAt .zero ⟨disk, 0, []⟩ rfl
    -- with more fuel the outcome is the same
    rw [(below_findEntryLoop fuel _ _ 0).ok hloop] at hloop'
    cases hloop'
    simp only at hx
    subst hx
    rw [hrun, hk] at hrun'
    simp only [Option.map_some, Except.ok.injEq, Prod.mk.injEq] at hrun'
    obtain ⟨⟨-, hresult⟩, -⟩ := hrun'
    cases hok : kzallocOk with
    | false => simp [hok] at hresult
    | true =>
      cases found with
      | none => simp [hok] at hresult
      | some x =>
        simp only [hok, if_true, Option.map_some, Option.some.injEq, FatItem.ofEntry,
          FatItem.mk.injEq] at hresult
        obtain ⟨-, hentry, -, -, hpos⟩ := hresult
        exact ⟨rfl, fuel, by rw [hscan, hentry, hpos]⟩

section

variable {ok : Nat → Bool} (hp : fat16Probe ok disk = .ok (.ok p)) (hbpc : 0 < p.bytesPerCluster)
  (hwhole : p.bytesPerCluster % FAT_ENTRY_SIZE = 0) {d : FatDescriptor}

include hp hbpc hwhole

theorem looksUpChain_of_fits (h : DirChain disk p d.item clusters)
    (hfits : SubdirFits kzallocOk disk p clusters filename extension) :
    LooksUpChain kzallocOk disk p clusters d filename extension := by
  have hg := fat16Probe_geometry hp
  have hvisit : ∀ e k b b', findVisit (isMatch filename extension) e k b = .inr b' →
      findStops filename extension e = false := fun _ _ _ _ => findVisit_inr
  have hscan : driverFind disk p d.item filename extension (slotCount p clusters) 0 () =
      some ((chainLookup disk p clusters filename extension).map fun j =>
        (chainSlot disk p clusters j, j + 1)) := by
    rw [driverFind, run_chain_eq hvisit hp hbpc hwhole h hfits.address]
    exact chainLookup_run (slotCount_pos hbpc hwhole h)
  intro s hsd
  obtain ⟨⟨d', found⟩, t, hloop, -, hitem, rfl⟩ := findEntryLoop_run (fat16Probe_fields hp)
    (hg.sectorsPerCluster_ne_zero hbpc) hbpc hwhole hg.bytesPerCluster_lt h hscan
    resetCursors_dirAt .zero s hsd
  simp only at hloop hitem
  obtain ⟨d'', hrun, hreset⟩ := @findEntryInDir_of_loop p filename extension d d' s t _ kzallocOk
    (.inl h.type) _ hloop
  have hmem : (chainLookup disk p clusters filename extension).map
      (fun j => (chainSlot disk p clusters j, j + 1)) = none ∨ kzallocOk = true := by
    rw [Option.map_eq_none_iff]
    exact or_iff_not_imp_left.mpr hfits.memory
  refine ⟨_, d'', t, hrun.trans ?_, ?_, ?_⟩
  · rcases hmem with hnone | hok
    · rw [hnone, Option.map_eq_none_iff.mp hnone]
      simp
    · rw [if_pos hok, Option.map_map, hitem]
      rfl
  · rw [hreset hmem]
    exact hitem
  · rw [hreset hmem]
    rfl

theorem fits_of_looksUpChain (h : DirChain disk p d.item clusters)
    (hlook : ∀ disk', SameBelow p clusters disk disk' →
      LooksUpChain kzallocOk disk' p clusters d filename extension) :
    SubdirFits kzallocOk disk p clusters filename extension := by
  have hg := fat16Probe_geometry hp
  have hf := fat16Probe_fields hp
  have hs := hg.sectorsPerCluster_ne_zero hbpc
  refine ⟨fun k hk => ?_, fun hne => ?_⟩
  · by_contra hfar
    -- the driver would have to find any match in the slot
    have hany : ∀ v, ∃ fuel, driverFind disk p d.item filename extension fuel 0 () =
        some (some (entryNamed filename extension v, k + 1)) := by
      intro v
      have hsame := @DirChain.sameBelow_withSlot disk p clusters (entryNamed filename extension v) k
        hk.1 (Nat.le_of_not_lt hfar)
      have hmatch := isMatch_entryNamed filename extension v
      have hself := @DirChain.chainSlot_withSlot disk p clusters (entryNamed filename extension v) k
      generalize hdisk : disk.withSlot (slotAddr p clusters k) (entryNamed filename extension v) =
        disk' at hsame hself
      have hfound : chainLookup disk' p clusters filename extension = some k := by
        refine chainLookup_eq_some ⟨hk.1, fun j hj => ?_⟩ (by rw [hself]; exact hmatch)
          (by rw [hself]; exact countStops_of_isMatch hmatch)
        rw [← hdisk, h.chainSlot_withSlot_ne hg hbpc hwhole (Nat.lt_trans hj hk.1) hk.1
          (Nat.ne_of_lt hj)]
        exact hk.2 j hj
      obtain ⟨-, fuel, hfuel⟩ := driverFind_of_looksUpChain hf hg hbpc hwhole (hsame.dirChain hf h)
        (hlook disk' hsame) hfound
      rw [hself, driverFind, hsame.lastSlot_eq hf, hsame.dirSlot_eq hg hwhole hf hs hbpc h] at hfuel
      exact ⟨fuel, hfuel⟩
    obtain ⟨fuel₁, h₁⟩ := hany 0
    obtain ⟨fuel₂, h₂⟩ := hany 1
    have heq := (Visit.run_le h₁ (Nat.le_max_left fuel₁ fuel₂)).symm.trans
      (Visit.run_le h₂ (Nat.le_max_right fuel₁ fuel₂))
    simp only [Option.some.injEq, Prod.mk.injEq, and_true] at heq
    have hbyte := congrFun (congrArg FatEntry.byte heq) 31
    simp [entryNamed] at hbyte
  · obtain ⟨k, hk⟩ := Option.ne_none_iff_exists'.mp hne
    exact (driverFind_of_looksUpChain hf hg hbpc hwhole h (hlook disk (.refl disk)) hk).1

theorem SubdirFits.of_sameBelow (h : DirChain disk p d.item clusters)
    (hsame : SameBelow p clusters disk disk')
    (hfits : SubdirFits kzallocOk disk p clusters filename extension) :
    SubdirFits kzallocOk disk' p clusters filename extension := by
  have hg := fat16Probe_geometry hp
  have hn := slotCount_pos hbpc hwhole h
  have hvisit : ∀ e k b b', findVisit (isMatch filename extension) e k b = .inr b' →
      findStops filename extension e = false := fun _ _ _ _ => findVisit_inr
  have hruns := (chainLookup_run hn).symm.trans
    ((run_sameBelow hg hwhole hsame hfits.address hvisit hn).trans (chainLookup_run hn))
  refine ⟨fun k hk => ?_, fun hne => hfits.memory fun hnone => hne ?_⟩
  · exact hfits.address k (neededSlot_of_sameBelow hg hwhole hsame hfits.address k hk)
  · rw [hnone] at hruns
    simpa using hruns.symm

/-- On an accepted volume of whole slots, a lookup in a directory with clusters does what it is
for, exactly if the directory fits: whatever its slots beyond 4 GiB hold, which the driver looks
for elsewhere. -/
theorem subdir_lookup_iff (h : DirChain disk p d.item clusters) (filename extension : List Byte)
    (kzallocOk : Bool) :
    (∀ disk', SameBelow p clusters disk disk' →
      LooksUpChain kzallocOk disk' p clusters d filename extension) ↔
    SubdirFits kzallocOk disk p clusters filename extension := by
  refine ⟨fits_of_looksUpChain hp hbpc hwhole h, fun hfits disk' hsame => ?_⟩
  have hp' : fat16Probe ok disk' = .ok (.ok p) := (hsame.probe_eq ok).trans hp
  exact looksUpChain_of_fits hp' hbpc hwhole (hsame.dirChain (fat16Probe_fields hp) h)
    (hfits.of_sameBelow hp hbpc hwhole h hsame)

end

/-! A volume with a directory of one cluster, whose first slot is the file `A`. -/

def dirDisk (sectorsPerCluster : Byte) (cluster : Nat) : Disk where
  bytes a :=
    let slot := (4640 + (cluster - 2) * sectorsPerCluster.toNat) * 512
    if a = 4096 * 512 + 2 * cluster ∨ a = 4096 * 512 + 2 * cluster + 1 then 0xFF   -- an end mark
    else if slot ≤ a ∧ a < slot + 11 then charAt (ascii "A          ") (a - slot)
    else (bigDisk sectorsPerCluster).bytes a

def dirVolume (sectorsPerCluster : Byte) (cluster : Nat) : FatPrivate :=
  .ofHeader (.ofBytes ((dirDisk sectorsPerCluster cluster).slice 0 FAT_HEADER_SIZE))

/-- The directory, opened. -/
def dirOpened (sectorsPerCluster : Byte) (cluster : Nat) : FatDescriptor :=
  let p := dirVolume sectorsPerCluster cluster
  __fat16Open p (.ofEntry p p.rootDirectory
    ⟨fun i => if i.val = 11 then 0x10 else if i.val = 26 then .ofNat 8 (cluster % 256)
      else if i.val = 27 then .ofNat 8 (cluster / 256) else 0x41⟩ 1)

theorem DirChain.single {c : Nat} (htype : item.type = .directory)
    (hfirst : item.entry.low16BitsFirstCluster = c)
    (hsec : item.firstSector = fat16ClusterNumberToDataSector p c)
    (hdata : 2 ≤ c ∧ c < FAT16_CLUSTER_RESERVED)
    (hend : FAT16_CLUSTER_CHAIN_END_BEGIN ≤ fatNext disk p c) : DirChain disk p item [c] := by
  refine ⟨htype, by rw [hfirst]; rfl, by rw [hfirst]; exact hsec, ?_, ?_, ?_⟩
  · simpa using hdata
  · intro i c' c'' hc hc'
    simp at hc'
  · intro i c' hc hnone
    obtain ⟨hi, rfl⟩ := List.getElem?_eq_some_iff.mp hc
    simpa using hend

/-- A directory at the beginning of the data region. -/
theorem subdir_lookup_iff_first_cluster :
    chainLookup (dirDisk 1 2) (dirVolume 1 2) [2] (ascii "A") [] = some 0 ∧
      LooksUpChain true (dirDisk 1 2) (dirVolume 1 2) [2] (dirOpened 1 2) (ascii "A") [] := by
  have hp : fat16Probe (fun _ => true) (dirDisk 1 2) = .ok (.ok (dirVolume 1 2)) :=
    fat16Probe_accepts (by decide) (by decide) (by decide)
  have hchain : DirChain (dirDisk 1 2) (dirVolume 1 2) (dirOpened 1 2).item [2] :=
    .single (by decide) (by decide) (by decide) (by decide) (by decide)
  refine ⟨by decide +kernel, (subdir_lookup_iff hp (by decide) (by decide) hchain (ascii "A") []
    true).mpr ⟨fun k hk => ?_, fun _ => rfl⟩ _ (.refl _)⟩
  have hbelow : ∀ k < 16, slotAddr (dirVolume 1 2) [2] k < 2 ^ 32 := by decide +kernel
  exact hbelow k hk.1

/-- The directory at cluster 0xFFEF, beyond 4 GiB: the driver looks for its first slot in a sector
of zeros, and finds nothing. -/
theorem subdir_lookup_wraps :
    ¬ ∀ (disk : Disk) (p : FatPrivate), fat16Probe (fun _ => true) disk = .ok (.ok p) →
      0 < p.bytesPerCluster → p.bytesPerCluster % FAT_ENTRY_SIZE = 0 →
      ∀ (d : FatDescriptor) (clusters : List Nat), DirChain disk p d.item clusters →
      ∀ filename extension : List Byte,
        LooksUpChain true disk p clusters d filename extension := by
  intro h
  have hp : fat16Probe (fun _ => true) (dirDisk 128 0xFFEF) = .ok (.ok (dirVolume 128 0xFFEF)) :=
    fat16Probe_accepts (by decide) (by decide) (by decide)
  have hchain : DirChain (dirDisk 128 0xFFEF) (dirVolume 128 0xFFEF) (dirOpened 128 0xFFEF).item
      [0xFFEF] := .single (by decide) (by decide) (by decide) (by decide) (by decide)
  have hlook := h _ _ hp (by decide) (by decide) _ _ hchain (ascii "A") []
  have hfound : chainLookup (dirDisk 128 0xFFEF) (dirVolume 128 0xFFEF) [0xFFEF] (ascii "A") [] =
      some 0 := chainLookup_eq_some ⟨by decide, fun j hj => absurd hj (Nat.not_lt_zero j)⟩
    (by decide +kernel) (by decide +kernel)
  obtain ⟨-, fuel, hfuel⟩ := driverFind_of_looksUpChain (fat16Probe_fields hp)
    (fat16Probe_geometry hp) (by decide) (by decide) hchain hlook hfound
  have hstop : countStops (dirSlot (dirDisk 128 0xFFEF) (dirVolume 128 0xFFEF)
      (dirOpened 128 0xFFEF).item 0) = true := by decide +kernel
  cases fuel with
  | zero => cases hfuel
  | succ fuel =>
    have hvisit : slotVisit (findVisit (isMatch (ascii "A") [])) (dirSlot (dirDisk 128 0xFFEF)
        (dirVolume 128 0xFFEF) (dirOpened 128 0xFFEF).item) 0 () = .inl none := by
      rw [slotVisit, findVisit, if_pos hstop]
    rw [driverFind, Visit.run_inl hvisit] at hfuel
    cases hfuel

end Lookup

end AvocadOS
