import AvocadOS.Fat16.Chain

/-!
# Reading files

Descriptors of regular files share one stream. `readAll` runs any interleaving of `fat16_read`
calls on them; `Spec.readAll` is what it is for: each descriptor has its file and a position, and a
call returns the bytes that follow.

* `read_loop`: `__fat16_read` from a ready descriptor delivers the bytes at its position;
* `fat16_read`: one call, from any position of the shared stream;
* `readAll_iff`: every interleaving delivers what the specification says, exactly if the volume has
  clusters of at least one sector or no call reaches the division by `sectors_per_cluster`.
-/

namespace AvocadOS

set_option linter.style.nameCheck false

namespace RegularFile

variable {disk : Disk} {p : FatPrivate} {f : RegularFile disk p}

/-- A descriptor of the file at a position inside it or at its end, where `eof` may be set. -/
structure OpenAt (f : RegularFile disk p) (d : FatDescriptor) (pos : Nat) : Prop where
  item : d.item = f.item
  posEq : d.pos = pos
  inside : pos ≤ f.entry.sizeBytes
  eof : d.eof = true → pos = f.entry.sizeBytes

theorem asInt_of_lt {n : Nat} (h : n < 2 ^ 31) : asInt n = n := by
  unfold asInt u32
  rw [Nat.mod_eq_of_lt (by omega), if_pos h]

theorem asSizeT_natCast {n : Nat} (h : n < 2 ^ 32) : asSizeT n = n := by
  unfold asSizeT
  omega

/-- The address that the driver computes from ready cursors. -/
theorem Ready.address {d : FatDescriptor} (hg : p.Geometry) (hr : f.Ready d) {c : Nat}
    (hs : p.header.sectorsPerCluster ≠ 0)
    (hc : f.clusters[d.pos / p.bytesPerCluster]? = some c) :
    __fat16DescriptorToAbsoluteAddress p d = clusterAddr p c + d.pos % p.bytesPerCluster := by
  obtain ⟨hrel, hsec⟩ := hr.cursors c hc
  have hfits := f.data_fits c (mem_of_get hc)
  have hmod := Nat.mod_lt d.pos (hg.bytesPerCluster_pos hs)
  have haddr : (p.dataSector + (c - 2) * p.header.sectorsPerCluster) * p.header.bytesPerSector =
      clusterAddr p c := rfl
  simp only [__fat16DescriptorToAbsoluteAddress, hrel, hsec, haddr, u32]
  omega

/-- The loop of `__fat16_read`, with `out` delivered: it delivers the rest. -/
theorem read_loop {pos len : Nat} (hg : p.Geometry) (hs : p.header.sectorsPerCluster ≠ 0)
    (hend : pos + len ≤ f.entry.sizeBytes) : ∀ {fuel : Nat} {d : FatDescriptor} {out : List Byte},
    out.length ≤ len → len ≤ fuel + out.length → f.Ready d → d.pos = pos + out.length →
    (d.eof = true → d.pos = f.entry.sizeBytes) → out = (f.chainBytes.drop pos).take out.length →
    Gives disk (__fat16ReadLoop p len fuel d out) fun (d', res, out') =>
      f.OpenAt d' (pos + len) ∧ res = len ∧ out' = (f.chainBytes.drop pos).take len := by
  have hsize := f.size_lt
  have hbpc := hg.bytesPerCluster_pos hs
  -- the loop is left with all bytes delivered
  have hdone : ∀ {d : FatDescriptor} {out : List Byte}, out.length = len → f.Ready d →
      d.pos = pos + out.length → (d.eof = true → d.pos = f.entry.sizeBytes) →
      out = (f.chainBytes.drop pos).take out.length →
      Gives disk (pure (d, asInt out.length, out)) fun (d', res, out') =>
        f.OpenAt d' (pos + len) ∧ res = len ∧ out' = (f.chainBytes.drop pos).take len := by
    rintro d out rfl hr hpos heof hout
    exact .pure ⟨⟨hr.item, hpos, hend, fun h => hpos ▸ heof h⟩, asInt_of_lt (by omega), hout⟩
  intro fuel
  induction fuel with
  | zero =>
    intro d out hle hfuel hr hpos heof hout
    exact hdone (by omega) hr hpos heof hout
  | succ fuel ih =>
    intro d out hle hfuel hr hpos heof hout
    by_cases hlt : out.length < len
    · have hfalse : d.eof = false := by
        cases hd : d.eof with
        | false => rfl
        | true => have := heof hd; omega
      -- the cluster of the position
      have hidx : d.pos / p.bytesPerCluster < f.clusters.length := by
        rw [Nat.div_lt_iff_lt_mul hbpc]
        have := f.covers
        omega
      have hc := List.getElem?_eq_getElem hidx
      generalize f.clusters[d.pos / p.bytesPerCluster] = c at hc
      have hrel := (hr.cursors c hc).1
      have hmod := Nat.mod_lt d.pos hbpc
      have hfits := f.data_fits c (mem_of_get hc)
      have hsub : sub32 p.bytesPerCluster d.relativePos =
          p.bytesPerCluster - d.pos % p.bytesPerCluster := by
        have := hg.bytesPerCluster_lt
        rw [hrel]; unfold sub32 u32; omega
      rw [__fat16ReadLoop, if_pos ⟨hlt, hfalse⟩, hsub, hr.address hg hs hc]
      obtain ⟨m, hm⟩ : ∃ m, m = min (len - out.length)
        (p.bytesPerCluster - d.pos % p.bytesPerCluster) := ⟨_, rfl⟩
      rw [← hm]
      simp only [asInt_of_lt (show m < 2 ^ 31 by omega)]
      refine .read _ m ?_
      simp only
      rw [if_neg (by omega)]
      have hchunk : out ++ disk.slice (clusterAddr p c + d.pos % p.bytesPerCluster) m =
          (f.chainBytes.drop pos).take (out.length + m) := by
        have htake := @chainBytes_take disk p f _ c (d.pos % p.bytesPerCluster) m hc (by omega)
        rw [Nat.mul_comm, Nat.div_add_mod, hpos, ← List.drop_drop] at htake
        rw [hpos, ← htake, List.take_add, ← hout]
      refine (adjust_cursors hg hs hr.item (by
        rintro h; rw [h] at hc; simp at hc)).bind ?_
      rintro ⟨d', res⟩ ⟨rfl, hpos', hr', heof'⟩
      simp only [ne_eq, not_true_eq_false, if_false]
      rw [← Int.natCast_add, asSizeT_natCast (by omega)] at hpos'
      have hlen : (out ++ disk.slice (clusterAddr p c + d.pos % p.bytesPerCluster) m).length =
          out.length + m := by simp
      refine ih (by omega) (by omega) hr' (by omega) ?_ (by rw [hlen]; exact hchunk)
      intro h
      -- the chain ends only behind the last byte
      rcases heof'.mp h with h | h
      · rw [hfalse] at h; cases h
      · rw [List.getElem?_eq_none_iff, Nat.le_div_iff_mul_le hbpc] at h
        have := f.covers
        omega
    · rw [__fat16ReadLoop, if_neg (fun h => hlt h.1)]
      exact hdone (by omega) hr hpos heof hout

/-- A file without clusters is empty. -/
theorem clusters_ne_nil_or (f : RegularFile disk p) :
    (f.clusters = [] ∧ f.entry.low16BitsFirstCluster = 0 ∧ f.entry.sizeBytes = 0) ∨
      (f.clusters ≠ [] ∧ f.entry.low16BitsFirstCluster ≠ 0) := by
  have hfirst := f.first
  have hcovers := f.covers
  cases hcs : f.clusters with
  | nil =>
    rw [hcs] at hfirst hcovers
    exact .inl ⟨rfl, hfirst, by simpa using hcovers⟩
  | cons c cs =>
    have := (f.data c (by rw [hcs]; exact List.mem_cons_self)).1
    rw [hcs, List.headD_cons] at hfirst
    exact .inr ⟨by simp, by omega⟩

/-- `fat16_read` of a file without clusters. -/
theorem fat16_read_nil {d : FatDescriptor} (hitem : d.item = f.item)
    (hlow : f.entry.low16BitsFirstCluster = 0) (size nmemb : Nat) :
    fat16Read p d size nmemb =
      pure ({ d with pos := asSizeT (d.pos + 0), eof := true }, 0, []) := by
  simp only [fat16Read, __fat16AdjustCursors, hitem, not_root, __fat16AdjustCursorsNonRoot,
    item_entry, hlow, Bool.false_eq_true, if_false, if_true, pure_bind, ne_eq, not_true_eq_false]

/-- One call of `fat16_read`: it delivers the bytes at the position, and moves it. -/
theorem fat16_read {d : FatDescriptor} {pos size nmemb : Nat} (hg : p.Geometry)
    (hs : p.header.sectorsPerCluster ≠ 0 ∨ f.entry.low16BitsFirstCluster = 0)
    (hd : f.OpenAt d pos) (hlen : size * nmemb < 2 ^ 32) :
    Gives disk (fat16Read p d size nmemb) fun (d', n, out) =>
      n = min (size * nmemb) (f.entry.sizeBytes - pos) ∧ out = (f.content.drop pos).take n ∧
        f.OpenAt d' (pos + n) := by
  have hsize := f.size_lt
  have hinside := hd.inside
  have hpos₀ : asSizeT (d.pos + 0) = pos := by
    rw [Int.add_zero, hd.posEq, asSizeT_natCast (by omega)]
  rcases clusters_ne_nil_or f with ⟨hnil, hlow, hzero⟩ | ⟨hne, hlow⟩
  · rw [fat16_read_nil hd.item hlow]
    refine .pure ⟨by omega, by simp, hd.item, ?_, by omega, fun _ => by omega⟩
    rw [hpos₀, Nat.add_zero]
  · have hs := hs.resolve_right hlow
    unfold fat16Read
    refine (adjust_cursors hg hs hd.item hne).bind ?_
    rintro ⟨d₁, res⟩ ⟨rfl, hpos, hr, heof⟩
    rw [hpos₀] at hpos
    simp only [ne_eq, not_true_eq_false, if_false, hr.item, item_entry, hpos]
    -- `eof` is set only where the file ends
    have hend : d₁.eof = true → pos = f.entry.sizeBytes := by
      intro h
      rcases heof.mp h with h | h
      · exact hd.eof h
      · rw [List.getElem?_eq_none_iff, Nat.le_div_iff_mul_le (hg.bytesPerCluster_pos hs)] at h
        have := f.covers
        omega
    cases he : d₁.eof with
    | true =>
      have hmin : min (size * nmemb) (f.entry.sizeBytes - pos) = 0 := by
        have := hend he
        omega
      simp only [if_true]
      exact .pure ⟨hmin.symm, by simp, hr.item, hpos, hinside, fun _ => hend he⟩
    | false =>
      simp only [Bool.false_eq_true, if_false]
      by_cases hle : f.entry.sizeBytes ≤ pos
      · have hmin : min (size * nmemb) (f.entry.sizeBytes - pos) = 0 := by omega
        rw [if_pos hle]
        exact .pure ⟨hmin.symm, by simp, rfl, rfl, hinside, fun _ => Nat.le_antisymm hinside hle⟩
      · rw [if_neg hle, u32, Nat.mod_eq_of_lt hlen]
        generalize hn : min (size * nmemb) (f.entry.sizeBytes - pos) = n
        have hloop := @read_loop disk p f pos n hg hs (by omega) n d₁ [] (Nat.zero_le _)
          (Nat.le_refl _) hr hpos (by rw [he]; simp) (by simp)
        refine hloop.bind ?_
        rintro ⟨d₂, res, out⟩ ⟨hd₂, rfl, rfl⟩
        have hcut : (f.content.drop pos).take n = (f.chainBytes.drop pos).take n := by
          rw [content, List.drop_take, List.take_take, Nat.min_eq_left (by omega)]
        refine .pure ⟨asSizeT_natCast (by omega), ?_, ?_⟩
        · rw [asSizeT_natCast (by omega), hcut]
        · rw [asSizeT_natCast (by omega)]
          split
          · rename_i h
            rw [hd₂.item, item_entry, hd₂.posEq] at h
            exact ⟨hd₂.item, hd₂.posEq, hd₂.inside, fun _ => by have := hd₂.inside; omega⟩
          · exact hd₂

end RegularFile

/-! ## Interleavings -/

section Interleaving

variable {ι : Type} [DecidableEq ι] {disk : Disk} {p : FatPrivate}

/-- `fat16_read(priv, size, nmemb, out)` on the descriptor `handle`. -/
structure ReadCall (ι : Type) where
  handle : ι
  size : Nat
  nmemb : Nat

/-- The calls one after the other: what each returned, and what it wrote to its buffer. -/
def readAll (p : FatPrivate) : List (ReadCall ι) → (ι → FatDescriptor) → DevM (List (Nat × List Byte))
  | [], _ => pure []
  | call :: calls, ds => do
    let (d, n, out) ← fat16Read p (ds call.handle) call.size call.nmemb
    let results ← readAll p calls (Function.update ds call.handle d)
    pure ((n, out) :: results)

/-- The bytes that a call has to deliver, and the positions after it. -/
def ReadCall.count (files : ι → List Byte) (pos : ι → Nat) (call : ReadCall ι) : Nat :=
  min (call.size * call.nmemb) ((files call.handle).length - pos call.handle)

def ReadCall.advance (files : ι → List Byte) (pos : ι → Nat) (call : ReadCall ι) : ι → Nat :=
  Function.update pos call.handle (pos call.handle + call.count files pos)

/-- What the calls are for: every handle has its file and a position in it. -/
def readSpec (files : ι → List Byte) : List (ReadCall ι) → (ι → Nat) → List (Nat × List Byte)
  | [], _ => []
  | call :: calls, pos =>
    (call.count files pos,
      ((files call.handle).drop (pos call.handle)).take (call.count files pos)) ::
      readSpec files calls (call.advance files pos)

/-- The results of the calls on one handle. -/
def ofHandle (i : ι) (calls : List (ReadCall ι)) (results : List (Nat × List Byte)) :
    List (Nat × List Byte) :=
  ((calls.zip results).filter fun r => r.1.handle = i).map (·.2)

variable {files : ι → List Byte} {i : ι}

/-- The calls on other handles do not matter. -/
theorem ofHandle_readSpec (calls : List (ReadCall ι)) {pos pos' : ι → Nat} (h : pos i = pos' i) :
    ofHandle i calls (readSpec files calls pos) =
      readSpec files (calls.filter fun call => call.handle = i) pos' := by
  induction calls generalizing pos pos' with
  | nil => rfl
  | cons call calls ih =>
    by_cases hi : call.handle = i
    · subst hi
      have hcount : call.count files pos = call.count files pos' := by simp [ReadCall.count, h]
      have hnext : call.advance files pos call.handle = call.advance files pos' call.handle := by
        simp [ReadCall.advance, hcount, h]
      have := ih hnext
      simp only [ofHandle] at this
      simp [ofHandle, readSpec, this, hcount, h]
    · have hnext : call.advance files pos i = pos' i := by
        rw [ReadCall.advance, Function.update_of_ne (Ne.symm hi), h]
      have := ih hnext
      simp only [ofHandle] at this
      simp [ofHandle, readSpec, this, hi]

/-- On one handle, the reads concatenate to a part of the file. -/
theorem readSpec_prefix {calls : List (ReadCall ι)} {pos : ι → Nat}
    (h : ∀ call ∈ calls, call.handle = i) :
    (readSpec files calls pos).flatMap (·.2) <+: (files i).drop (pos i) := by
  induction calls generalizing pos with
  | nil => exact List.nil_prefix
  | cons call calls ih =>
    obtain rfl := h call List.mem_cons_self
    obtain ⟨rest, hrest⟩ := @ih (call.advance files pos) fun c hc => h c (List.mem_cons_of_mem _ hc)
    rw [ReadCall.advance, Function.update_self, ← List.drop_drop] at hrest
    refine ⟨rest, ?_⟩
    rw [readSpec, List.flatMap_cons, List.append_assoc, ReadCall.advance, hrest,
      List.take_append_drop]

open RegularFile

/-- Every interleaving refines the specification. -/
theorem readAll_spec (hg : p.Geometry) (files : ι → RegularFile disk p) {calls : List (ReadCall ι)}
    {ds : ι → FatDescriptor} {pos : ι → Nat}
    (hlen : ∀ call ∈ calls, call.size * call.nmemb < 2 ^ 32)
    (hs : ∀ call ∈ calls, p.header.sectorsPerCluster ≠ 0 ∨
      (files call.handle).entry.low16BitsFirstCluster = 0)
    (hds : ∀ i, (files i).OpenAt (ds i) (pos i)) :
    Gives disk (readAll p calls ds) (· = readSpec (fun i => (files i).content) calls pos) := by
  induction calls generalizing ds pos with
  | nil => exact .pure rfl
  | cons call calls ih =>
    refine (fat16_read hg (hs call List.mem_cons_self) (hds call.handle)
      (hlen call List.mem_cons_self)).bind ?_
    rintro ⟨d, n, out⟩ ⟨hn, rfl, hd⟩
    have hcount : n = call.count (fun i => (files i).content) pos := by
      rw [hn, ReadCall.count, content_length]
    have hnext : ∀ i, (files i).OpenAt (Function.update ds call.handle d i)
        (call.advance (fun i => (files i).content) pos i) := by
      intro i
      by_cases hi : i = call.handle
      · subst hi
        simpa [ReadCall.advance, ← hcount] using hd
      · simpa [ReadCall.advance, Function.update_of_ne hi] using hds i
    refine (ih (fun c hc => hlen c (List.mem_cons_of_mem _ hc))
      (fun c hc => hs c (List.mem_cons_of_mem _ hc)) hnext).bind ?_
    rintro results rfl
    exact .pure (by rw [readSpec, hcount])

/-- A call that reaches the division by `sectors_per_cluster = 0` faults. -/
theorem readAll_fault (hg : p.Geometry) (hs : p.header.sectorsPerCluster = 0)
    (files : ι → RegularFile disk p) {calls : List (ReadCall ι)} {ds : ι → FatDescriptor}
    (hex : ∃ call ∈ calls, (files call.handle).entry.low16BitsFirstCluster ≠ 0)
    (hds : ∀ i, (ds i).item = (files i).item) (s : DiskStream) :
    readAll p calls ds s = .error .divideByZero := by
  have hbpc : p.bytesPerCluster = 0 := by rw [hg.bytesPerCluster, hs, Nat.mul_zero]
  induction calls generalizing ds with
  | nil => simp at hex
  | cons call calls ih =>
    have hitem := hds call.handle
    by_cases hlow : (files call.handle).entry.low16BitsFirstCluster = 0
    · have hrest : ∃ c ∈ calls, (files c.handle).entry.low16BitsFirstCluster ≠ 0 := by
        obtain ⟨c, hc, hne⟩ := hex
        rcases List.mem_cons.mp hc with rfl | hc
        · exact absurd hlow hne
        · exact ⟨c, hc, hne⟩
      have hnext : ∀ i, (Function.update ds call.handle { ds call.handle with
          pos := asSizeT ((ds call.handle).pos + 0), eof := true } i).item = (files i).item := by
        intro i
        by_cases hi : i = call.handle
        · subst hi; simp [hitem]
        · simp [Function.update_of_ne hi, hds i]
      rw [readAll, fat16_read_nil hitem hlow, pure_bind]
      simp only [Bind.bind, StateT.bind, Except.bind, ih hrest hnext]
    · simp only [readAll, fat16Read, __fat16AdjustCursors, hitem, not_root,
        __fat16AdjustCursorsNonRoot, item_entry, hlow, hbpc, Bool.false_eq_true, if_false, if_true]
      rfl

/-- The results of the calls on fresh descriptors: each is the next part of its file, those of a
handle do not depend on the calls on the others, and concatenate to a prefix of its file. -/
def Delivers (files : ι → List Byte) (calls : List (ReadCall ι)) (results : List (Nat × List Byte)) :
    Prop :=
  results = readSpec files calls (fun _ => 0) ∧
    ∀ i, ofHandle i calls results =
        readSpec files (calls.filter fun call => call.handle = i) (fun _ => 0) ∧
      (ofHandle i calls results).flatMap (·.2) <+: files i

theorem readSpec_delivers (calls : List (ReadCall ι)) :
    Delivers files calls (readSpec files calls fun _ => 0) := by
  refine ⟨rfl, fun i => ?_⟩
  have h : ofHandle i calls (readSpec files calls fun _ => 0) =
      readSpec files (calls.filter fun call => call.handle = i) fun _ => 0 :=
    ofHandle_readSpec calls rfl
  refine ⟨h, ?_⟩
  rw [h]
  exact readSpec_prefix (by simp)

/-- On a volume that `fat16_probe` accepts, every interleaving of reads on freshly opened files
delivers the files, from any position of the shared stream, exactly if clusters have at least one
sector or every file that is read has no cluster. -/
theorem readAll_iff {kzallocOk : Nat → Bool} (hp : fat16Probe kzallocOk disk = .ok (.ok p))
    (files : ι → RegularFile disk p) (calls : List (ReadCall ι))
    (hlen : ∀ call ∈ calls, call.size * call.nmemb < 2 ^ 32) :
    Gives disk (readAll p calls fun i => __fat16Open p (files i).item)
        (Delivers (fun i => (files i).content) calls) ↔
      p.header.sectorsPerCluster ≠ 0 ∨
        ∀ call ∈ calls, (files call.handle).entry.low16BitsFirstCluster = 0 := by
  have hg := fat16Probe_geometry hp
  constructor
  · intro h
    by_contra hno
    obtain ⟨hs, hex⟩ := not_or.mp hno
    have hfault := readAll_fault hg (not_not.mp hs) files (by simpa using hex)
      (fun i => open_item) ⟨disk, 0, []⟩
    obtain ⟨_, _, hrun, -⟩ := h ⟨disk, 0, []⟩ rfl
    rw [hfault] at hrun
    cases hrun
  · intro hs
    have hopen : ∀ i, (files i).OpenAt (__fat16Open p (files i).item) 0 := fun i =>
      ⟨open_item, rfl, Nat.zero_le _, fun h => by cases h⟩
    refine (readAll_spec hg files hlen (fun call hcall => ?_) hopen).mono ?_
    · exact hs.imp id fun h => h call hcall
    · rintro results rfl
      exact readSpec_delivers calls

/-- A file of one cluster. -/
def RegularFile.ofCluster (dir : FatItem) (entry : FatEntry) (dirPos c : Nat)
    (regular : FAT16_FILE_SUBDIRECTORY &&& entry.attributes = 0)
    (first : entry.low16BitsFirstCluster = c) (data : 2 ≤ c ∧ c < FAT16_CLUSTER_RESERVED)
    (last : FAT16_CLUSTER_CHAIN_END_BEGIN ≤ fatNext disk p c)
    (covers : entry.sizeBytes ≤ p.bytesPerCluster) (size_lt : entry.sizeBytes < 2 ^ 31)
    (fat_fits : p.header.reservedSectors * p.header.bytesPerSector + c * 2 + 2 ≤ 2 ^ 32)
    (data_fits : clusterAddr p c + p.bytesPerCluster ≤ 2 ^ 32) : RegularFile disk p where
  dir := dir
  entry := entry
  dirPos := dirPos
  clusters := [c]
  regular := regular
  first := first
  data := by simpa using data
  link i c₁ c₂ h₁ h₂ := by simp at h₂
  last i c₁ h₁ _ := by
    obtain rfl : c₁ = c := by simpa using List.mem_of_getElem? h₁
    exact last
  covers := by simpa using covers
  size_lt := size_lt
  fat_fits := by simpa using fat_fits
  data_fits := by simpa using data_fits

/-! A volume of one-sector FAT and root directory areas, with the cluster size left open: its
cluster 2 starts at byte 1024 and ends a chain. -/

def tinyDisk (sectorsPerCluster : Byte) : Disk where
  bytes a :=
    if 54 ≤ a ∧ a < 62 then charAt FAT16_SYSTEM_ID (a - 54)
    else if a = 12 then 2                  -- 512 bytes per sector
    else if a = 13 then sectorsPerCluster
    else if a = 14 ∨ a = 16 ∨ a = 22 then 1 -- one reserved sector, one FAT of one sector
    else if a = 38 then 0x29
    else if a = 516 ∨ a = 517 then 0xFF    -- the FAT entry of cluster 2
    else if 1024 ≤ a then BitVec.ofNat 8 a
    else 0

def tinyVolume (sectorsPerCluster : Byte) : FatPrivate :=
  .ofHeader (.ofBytes ((tinyDisk sectorsPerCluster).slice 0 FAT_HEADER_SIZE))

/-- An entry of `size` bytes with first cluster 2. -/
def tinyEntry (size : Byte) : FatEntry := ⟨fun i => if i.val = 26 then 2 else if i.val = 28 then size else 0⟩

/-- Three bytes in a cluster of one sector, read in two calls. -/
theorem readAll_iff_three_bytes :
    ∃ file : RegularFile (tinyDisk 1) (tinyVolume 1),
      file.content = [0, 1, 2] ∧
      Gives (tinyDisk 1) (readAll (tinyVolume 1) [⟨(), 1, 2⟩, ⟨(), 2, 1⟩]
        fun _ => __fat16Open (tinyVolume 1) file.item) (Delivers (fun _ => file.content)
          [⟨(), 1, 2⟩, ⟨(), 2, 1⟩]) := by
  let file : RegularFile (tinyDisk 1) (tinyVolume 1) :=
    .ofCluster (tinyVolume 1).rootDirectory (tinyEntry 3) 1 2 (by decide) (by decide)
      (by decide) (by decide) (by decide) (by decide) (by decide) (by decide)
  refine ⟨file, ?_, (readAll_iff (fat16Probe_accepts (by decide) (by decide) (by decide))
    (fun _ => file) _ (by decide)).mpr (.inl (by decide))⟩
  have htake := chainBytes_take (f := file) (i := 0) (c := 2) (r := 0) (m := 3) rfl (by decide)
  rw [Nat.zero_mul, Nat.add_zero, List.drop_zero] at htake
  exact htake

/-- With `sectors_per_cluster = 0`, a read of an empty file that has a cluster divides by zero. -/
theorem readAll_divides_by_zero :
    ¬ ∀ (disk : Disk) (p : FatPrivate), fat16Probe (fun _ => true) disk = .ok (.ok p) →
      ∀ (files : Unit → RegularFile disk p) (calls : List (ReadCall Unit)),
        (∀ call ∈ calls, call.size * call.nmemb < 2 ^ 32) →
        Gives disk (readAll p calls fun i => __fat16Open p (files i).item)
          (Delivers (fun i => (files i).content) calls) := by
  intro h
  have hp : fat16Probe (fun _ => true) (tinyDisk 0) = .ok (.ok (tinyVolume 0)) :=
    fat16Probe_accepts (by decide) (by decide) (by decide)
  let file : RegularFile (tinyDisk 0) (tinyVolume 0) :=
    .ofCluster (tinyVolume 0).rootDirectory (tinyEntry 0) 1 2 (by decide) (by decide)
      (by decide) (by decide) (by decide) (by decide) (by decide) (by decide)
  have hfault := @readAll_fault Unit _ _ _ (fat16Probe_geometry hp) (by decide) (fun _ => file)
    [⟨(), 1, 1⟩] (fun _ => __fat16Open (tinyVolume 0) file.item)
    ⟨_, List.mem_cons_self, show (tinyEntry 0).low16BitsFirstCluster ≠ 0 by decide⟩
    (fun _ => open_item) ⟨tinyDisk 0, 0, []⟩
  obtain ⟨_, _, hrun, -⟩ := h _ _ hp (fun _ => file) [⟨(), 1, 1⟩] (by decide) ⟨tinyDisk 0, 0, []⟩ rfl
  rw [hfault] at hrun
  cases hrun

end Interleaving

end AvocadOS
