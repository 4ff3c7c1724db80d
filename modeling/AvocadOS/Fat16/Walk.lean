import AvocadOS.Fat16.Chain

/-!
# Reading along any chain

What the driver makes of a FAT that need not be well formed: chains may be cyclic, or run into 0, 1
or one of the reserved values. `sources` is `__fat16_read` with the addresses in place of the bytes,
so that one can say where the bytes in a caller's buffer come from.

* `followClusterChain_eq`: `fat16_follow_cluster_chain` returns `walk`;
* `adjustCursors_eq`: `__fat16_adjust_cursors` of a descriptor that is not the root directory;
* `read_of_sources`: `__fat16_read` copies the bytes at `sources`;
* `sources_upTo`: the addresses, up to the first value that ends the chain.
-/

namespace AvocadOS

set_option linter.style.nameCheck false

/-- The bounds that the widths of the header's fields give. -/
structure FatPrivate.Fields (p : FatPrivate) : Prop where
  reservedSectors : p.header.reservedSectors < 2 ^ 16
  bytesPerSector : p.header.bytesPerSector < 2 ^ 16
  sectorsPerCluster : p.header.sectorsPerCluster < 2 ^ 8
  dataSector : p.dataSector < 2 ^ 25

theorem fat16Probe_fields {ok : Nat → Bool} {disk : Disk} {p : FatPrivate}
    (h : fat16Probe ok disk = .ok (.ok p)) : p.Fields := by
  obtain ⟨rfl, hpos⟩ := fat16Probe_eq h
  have hbps := le16_lt (disk.slice 0 FAT_HEADER_SIZE) 11
  have hspc := (charAt (disk.slice 0 FAT_HEADER_SIZE) 13).isLt
  have hres := le16_lt (disk.slice 0 FAT_HEADER_SIZE) 14
  have hcopies := (charAt (disk.slice 0 FAT_HEADER_SIZE) 16).isLt
  have hentries := le16_lt (disk.slice 0 FAT_HEADER_SIZE) 17
  have hspf := le16_lt (disk.slice 0 FAT_HEADER_SIZE) 22
  refine ⟨hres, hbps, hspc, ?_⟩
  simp only [FatPrivate.ofHeader, FatHeader.ofBytes, FAT_ENTRY_SIZE] at hpos ⊢
  have hfats := Nat.mul_lt_mul'' hcopies hspf
  have hroot : u32 (le16 (disk.slice 0 FAT_HEADER_SIZE) 17 * 32 +
      le16 (disk.slice 0 FAT_HEADER_SIZE) 11 - 1) / le16 (disk.slice 0 FAT_HEADER_SIZE) 11 <
        2 ^ 23 := by
    refine Nat.lt_of_le_of_lt (Nat.div_le_self _ _) ?_
    unfold u32
    omega
  omega

theorem FatEntry.sizeBytes_lt (e : FatEntry) : e.sizeBytes < 2 ^ 32 := by
  have h₁ := le16_lt e.raw 28
  have h₂ := le16_lt e.raw (28 + 2)
  unfold sizeBytes le32
  omega

section Walk

variable {disk : Disk} {p : FatPrivate} {c n : Nat}

/-- The value `n` links behind `cluster`, as the driver follows them. -/
def walk (disk : Disk) (p : FatPrivate) : Nat → Nat → Nat
  | 0, cluster => cluster
  | n + 1, cluster =>
    if cluster < FAT16_CLUSTER_CHAIN_END_BEGIN then
      let next := fatNext disk p cluster
      if next = 0 ∨ next = FAT16_CLUSTER_RESERVED ∨ next = FAT16_CLUSTER_BAD_OR_RESERVED then next
      else walk disk p n next
    else cluster

/-- `fat16_read_fat` of any value but an end mark. -/
theorem readFat_eq (hf : p.Fields) (hc : c < FAT16_CLUSTER_CHAIN_END_BEGIN) :
    Gives disk (fat16ReadFat p c) (· = fatNext disk p c) := by
  have hprod := Nat.mul_le_mul (Nat.le_of_lt_succ hf.reservedSectors)
    (Nat.le_of_lt_succ hf.bytesPerSector)
  unfold fat16ReadFat
  rw [if_neg (by omega)]
  refine .read _ 2 (.pure ?_)
  unfold FAT16_CLUSTER_CHAIN_END_BEGIN at hc
  rw [u32, Nat.mod_eq_of_lt (by omega)]
  rfl

theorem followClusterChain_eq (hf : p.Fields) (n : Nat) : ∀ c : Nat,
    Gives disk (fat16FollowClusterChain p c n) (· = walk disk p n c) := by
  induction n with
  | zero => exact fun c => .pure rfl
  | succ n ih =>
    intro c
    unfold fat16FollowClusterChain walk
    by_cases hc : c < FAT16_CLUSTER_CHAIN_END_BEGIN
    · rw [if_pos hc, if_pos hc]
      refine (readFat_eq hf hc).bind ?_
      rintro _ rfl
      dsimp only
      split
      · exact .pure rfl
      · exact ih _
    · rw [if_neg hc, if_neg hc]
      exact .pure rfl

/-! ## Cursors -/

/-- The first cluster, as the driver recovers it from the first sector. -/
def firstCluster (p : FatPrivate) (item : FatItem) : Nat :=
  (2 + sub32 item.firstSector p.dataSector / p.header.sectorsPerCluster) % 2 ^ 16

/-- The value of the chain for a position. -/
def clusterAt (disk : Disk) (p : FatPrivate) (item : FatItem) (pos : Nat) : Nat :=
  walk disk p (pos / p.bytesPerCluster) (firstCluster p item)

/-- The sector number of a cluster does not wrap. -/
theorem clusterNumberToDataSector_eq (hf : p.Fields) (h2 : 2 ≤ c) (hlt : c < 2 ^ 16) :
    fat16ClusterNumberToDataSector p c = p.dataSector + (c - 2) * p.header.sectorsPerCluster := by
  have hmul := Nat.mul_lt_mul'' (show c - 2 < 2 ^ 16 by omega) hf.sectorsPerCluster
  have hdata := hf.dataSector
  rw [fat16ClusterNumberToDataSector, if_neg (by omega), u32, Nat.mod_eq_of_lt (by omega)]

/-- The driver recovers a cluster from any of its sectors. -/
theorem cluster_of_sector (hf : p.Fields) (h2 : 2 ≤ c) (hlt : c < 2 ^ 16) {j : Nat}
    (hj : j < p.header.sectorsPerCluster) :
    (2 + sub32 (fat16ClusterNumberToDataSector p c + j) p.dataSector / p.header.sectorsPerCluster) %
      2 ^ 16 = c := by
  have hmul := Nat.mul_lt_mul'' (show c - 2 < 2 ^ 16 by omega) hf.sectorsPerCluster
  have hdata := hf.dataSector
  have hspc := hf.sectorsPerCluster
  have hsub : sub32 (fat16ClusterNumberToDataSector p c + j) p.dataSector =
      j + (c - 2) * p.header.sectorsPerCluster := by
    rw [clusterNumberToDataSector_eq hf h2 hlt]
    unfold sub32 u32
    omega
  rw [hsub, Nat.add_mul_div_right _ _ (by omega), Nat.div_eq_of_lt hj]
  omega

theorem firstCluster_eq (hf : p.Fields) (hs : p.header.sectorsPerCluster ≠ 0) {item : FatItem}
    (hsec : item.firstSector = fat16ClusterNumberToDataSector p c) (h2 : 2 ≤ c) (hlt : c < 2 ^ 16) :
    firstCluster p item = c := by
  have hcluster := cluster_of_sector hf h2 hlt (Nat.pos_of_ne_zero hs)
  rw [Nat.add_zero] at hcluster
  rw [firstCluster, hsec]
  exact hcluster

theorem firstCluster_ofEntry (hf : p.Fields) (hs : p.header.sectorsPerCluster ≠ 0) {dir : FatItem}
    {entry : FatEntry} {dirPos : Nat} (h2 : 2 ≤ entry.low16BitsFirstCluster) :
    firstCluster p (.ofEntry p dir entry dirPos) = entry.low16BitsFirstCluster :=
  firstCluster_eq hf hs rfl h2 (le16_lt _ _)

/-- What `__fat16_adjust_cursors` makes of a descriptor that is moved to `pos`. -/
def cursorsAt (disk : Disk) (p : FatPrivate) (d : FatDescriptor) (pos : Nat) :
    FatDescriptor × Int :=
  let currentCluster := clusterAt disk p d.item pos
  let d := { d with pos := pos, relativePos := pos % p.bytesPerCluster }
  if currentCluster = FAT16_CLUSTER_RESERVED ∨ currentCluster = FAT16_CLUSTER_BAD_OR_RESERVED then
    ({ d with error := - EIO }, - EIO)
  else if currentCluster < FAT16_CLUSTER_CHAIN_END_BEGIN then
    ({ d with
      currentClusterFirstSector := fat16ClusterNumberToDataSector p currentCluster }, 0)
  else ({ d with eof := true }, 0)

variable {d : FatDescriptor}

theorem adjustCursors_eq (hf : p.Fields) (hbpc : 0 < p.bytesPerCluster)
    (hs : p.header.sectorsPerCluster ≠ 0) (hroot : fat16ItemIsRootDir p d.item = false)
    (hlow : d.item.entry.low16BitsFirstCluster ≠ 0) (offset : Int) :
    Gives disk (__fat16AdjustCursors p d offset)
      (· = cursorsAt disk p d (asSizeT (d.pos + offset))) := by
  simp only [__fat16AdjustCursors, hroot, Bool.false_eq_true, if_false,
    __fat16AdjustCursorsNonRoot, hlow, Nat.pos_iff_ne_zero.mp hbpc, fat16SectorToClusterNumber, hs,
    pure_bind]
  refine (followClusterChain_eq hf _ _).bind ?_
  rintro _ rfl
  unfold cursorsAt clusterAt firstCluster
  dsimp only
  split
  · exact .pure rfl
  split
  · exact .pure rfl
  · exact .pure rfl

/-- A value that ends a chain: an error or an end mark. -/
def EndsChain (v : Nat) : Prop := FAT16_CLUSTER_RESERVED ≤ v

instance (v : Nat) : Decidable (EndsChain v) := Nat.decLe _ _

@[simp] theorem cursorsAt_item (pos : Nat) : (cursorsAt disk p d pos).1.item = d.item := by
  unfold cursorsAt
  dsimp only
  split
  · rfl
  split <;> rfl

@[simp] theorem cursorsAt_pos (pos : Nat) : (cursorsAt disk p d pos).1.pos = pos := by
  unfold cursorsAt
  dsimp only
  split
  · rfl
  split <;> rfl

/-- A value that goes on leaves the descriptor at its sector. -/
theorem cursorsAt_on {pos : Nat} (h : ¬ EndsChain (clusterAt disk p d.item pos)) :
    cursorsAt disk p d pos = ({ d with
      pos := pos
      relativePos := pos % p.bytesPerCluster
      currentClusterFirstSector :=
        fat16ClusterNumberToDataSector p (clusterAt disk p d.item pos) }, 0) := by
  unfold EndsChain FAT16_CLUSTER_RESERVED at h
  unfold cursorsAt FAT16_CLUSTER_RESERVED FAT16_CLUSTER_BAD_OR_RESERVED
    FAT16_CLUSTER_CHAIN_END_BEGIN
  dsimp only
  rw [if_neg (by omega), if_pos (by omega)]

/-- A reserved value is an error. -/
theorem cursorsAt_reserved {pos : Nat}
    (h : clusterAt disk p d.item pos = FAT16_CLUSTER_RESERVED ∨
      clusterAt disk p d.item pos = FAT16_CLUSTER_BAD_OR_RESERVED) :
    cursorsAt disk p d pos = ({ d with
      pos := pos
      relativePos := pos % p.bytesPerCluster
      error := - EIO }, - EIO) := by
  unfold cursorsAt
  dsimp only
  rw [if_pos h]

theorem cursorsAt_end {pos : Nat} (h : EndsChain (clusterAt disk p d.item pos)) :
    (cursorsAt disk p d pos).2 = - EIO ∨
      (cursorsAt disk p d pos).2 = 0 ∧ (cursorsAt disk p d pos).1.eof = true := by
  unfold EndsChain FAT16_CLUSTER_RESERVED at h
  unfold cursorsAt
  dsimp only
  split
  · exact .inl rfl
  · rw [if_neg (by
      unfold FAT16_CLUSTER_RESERVED FAT16_CLUSTER_BAD_OR_RESERVED FAT16_CLUSTER_CHAIN_END_BEGIN at *
      omega)]
    exact .inr ⟨rfl, rfl⟩

/-! ## Where the bytes come from -/

/-- The loop of `__fat16_read` with the addresses of the bytes in place of the bytes. -/
def sourcesLoop (p : FatPrivate) (len : Nat) :
    Nat → FatDescriptor → List Nat → DevM (FatDescriptor × Int × List Nat)
  | 0, d, out => pure (d, asInt out.length, out)
  | fuel + 1, d, out =>
    if out.length < len ∧ d.eof = false then do
      let address := __fat16DescriptorToAbsoluteAddress p d
      let _ ← diskstreamSeek address
      let toReadSequentially := min (len - out.length) (sub32 p.bytesPerCluster d.relativePos)
      let (chunkRead, chunk) ← diskstreamRead (asInt toReadSequentially)
      let copied := out ++ (List.range chunk.length).map (address + ·)
      if chunkRead ≤ 0 then pure ({ d with error := chunkRead }, chunkRead, copied)
      else do
        let (d, res) ← __fat16AdjustCursors p d chunkRead
        if res ≠ 0 then pure (d, res, copied)
        else sourcesLoop p len fuel d copied
    else pure (d, asInt out.length, out)

/-! What the code returns depends on the disk only. -/

theorem blind_followClusterChain (n : Nat) : ∀ c : Nat, Blind (fat16FollowClusterChain p c n) := by
  induction n with
  | zero => exact fun c => .pure _
  | succ n ih =>
    intro c
    unfold fat16FollowClusterChain fat16ReadFat
    refine .ite (.bind (.ite (.pure _) ?_) fun v => .ite (.pure _) (ih v)) (.pure _)
    exact .read _ _ fun _ => .pure _

theorem blind_adjustCursors (d : FatDescriptor) (offset : Int) :
    Blind (__fat16AdjustCursors p d offset) := by
  unfold __fat16AdjustCursors __fat16AdjustCursorsNonRoot fat16SectorToClusterNumber
  refine .ite (.pure _) (.ite (.pure _) (.ite (.throw _) ?_))
  refine .bind (.ite (.throw _) (.pure _)) fun _ => ?_
  exact .bind (blind_followClusterChain _ _) fun _ => .ite (.pure _) (.ite (.pure _) (.pure _))

theorem blind_readLoop (len : Nat) : ∀ (fuel : Nat) (d : FatDescriptor) (out : List Byte),
    Blind (__fat16ReadLoop p len fuel d out) := by
  intro fuel
  induction fuel with
  | zero => exact fun _ _ => .pure _
  | succ fuel ih =>
    intro d out
    rw [__fat16ReadLoop]
    refine .ite (.read _ _ fun r => .ite (.pure _) ?_) (.pure _)
    exact .bind (blind_adjustCursors _ _) fun _ => .ite (.pure _) (ih _ _)

/-- A read of any `int`. -/
theorem diskstreamRead_int (s : DiskStream) (len : Int) :
    ∃ t, diskstreamRead len s = .ok ((len.toNat, s.disk.slice s.ppos len.toNat), t) ∧
      t.disk = s.disk := by
  rcases Int.le_total 0 len with h | h
  · obtain ⟨n, rfl⟩ := Int.eq_ofNat_of_zero_le h
    exact ⟨_, diskstreamRead_eq s n, rfl⟩
  · rw [diskstreamRead_nonpos s h, Int.toNat_of_nonpos h]
    exact ⟨_, rfl, rfl⟩

theorem map_bytes_range (disk : Disk) (a n : Nat) :
    ((List.range n).map (a + ·)).map disk.bytes = disk.slice a n := by
  rw [List.map_map]
  rfl

/-- The bytes behind the addresses. -/
def copyFrom (disk : Disk) (r : (FatDescriptor × Int × List Nat) × DiskStream) :
    (FatDescriptor × Int × List Byte) × DiskStream :=
  ((r.1.1, r.1.2.1, r.1.2.2.map disk.bytes), r.2)

/-- `__fat16_read` copies the bytes at the addresses. -/
theorem readLoop_of_sources {len : Nat} : ∀ {fuel : Nat} {d : FatDescriptor} {out : List Nat}
    {s : DiskStream}, s.disk = disk →
    __fat16ReadLoop p len fuel d (out.map disk.bytes) s =
      (sourcesLoop p len fuel d out s).map (copyFrom disk) := by
  intro fuel
  induction fuel with
  | zero =>
    intro d out s _
    rw [__fat16ReadLoop, sourcesLoop, List.length_map]
    rfl
  | succ fuel ih =>
    intro d out s hs
    rw [__fat16ReadLoop, sourcesLoop, List.length_map]
    by_cases hgo : out.length < len ∧ d.eof = false
    · rw [if_pos hgo, if_pos hgo]
      simp only [Bind.bind, StateT.bind, Except.bind, diskstreamSeek]
      generalize __fat16DescriptorToAbsoluteAddress p d = a
      obtain ⟨t, hread, ht⟩ := diskstreamRead_int { s with ppos := a }
        (asInt (min (len - out.length) (sub32 p.bytesPerCluster d.relativePos)))
      rw [hread]
      simp only [hs, Disk.slice_length] at ht ⊢
      rw [← map_bytes_range, ← List.map_append]
      split
      · rfl
      simp only [Bind.bind, StateT.bind, Except.bind]
      cases hadj : __fat16AdjustCursors p d _ t with
      | error e => rfl
      | ok r =>
        simp only
        split
        · rfl
        · exact ih (((blind_adjustCursors _ _).disk_eq hadj).trans ht)
    · rw [if_neg hgo, if_neg hgo]
      rfl

theorem Gives.of_sources {fuel : Nat} {Q : FatDescriptor × Int × List Nat → Prop}
    (h : Gives disk (sourcesLoop p n fuel d []) Q) :
    Gives disk (__fat16ReadLoop p n fuel d []) fun r =>
      ∃ addrs, Q (r.1, r.2.1, addrs) ∧ r.2.2 = addrs.map disk.bytes := by
  intro s hs
  obtain ⟨r, t, hrun, ht, hr⟩ := h s hs
  have hread := @readLoop_of_sources disk p n fuel d [] s hs
  rw [hrun] at hread
  exact ⟨_, t, hread, ht, r.2.2, hr, rfl⟩

/-- The source of byte `i` of a read that starts at `pos`, where the descriptor's address is `a`:
the first chunk is contiguous, and the others start at their clusters. -/
def sourceAt (disk : Disk) (p : FatPrivate) (item : FatItem) (a pos i : Nat) : Nat :=
  if pos % p.bytesPerCluster + i < p.bytesPerCluster then a + i
  else u32 (fat16ClusterNumberToDataSector p (clusterAt disk p item (pos + i)) *
    p.header.bytesPerSector) + (pos + i) % p.bytesPerCluster

/-- The first multiple of `m` behind `a`. -/
theorem add_sub_mod_le {a b m : Nat} (hm : 0 < m) (hlt : a < b) (hb : b % m = 0) :
    a + (m - a % m) ≤ b := by
  obtain ⟨k, rfl⟩ := Nat.dvd_of_mod_eq_zero hb
  have hdiv : a / m < k := Nat.div_lt_of_lt_mul hlt
  have hmul := Nat.mul_le_mul_left m (Nat.succ_le_of_lt hdiv)
  have hsplit := Nat.div_add_mod a m
  have hmod := Nat.mod_lt a hm
  rw [Nat.mul_add_one] at hmul
  omega

theorem add_sub_mod_mod {a m : Nat} (hm : 0 < m) : (a + (m - a % m)) % m = 0 := by
  have hsplit := Nat.div_add_mod a m
  have hmod := Nat.mod_lt a hm
  rw [show a + (m - a % m) = m * (a / m + 1) by rw [Nat.mul_add_one]; omega]
  exact Nat.mul_mod_right _ _

variable {item : FatItem} {a pos len stop : Nat}

/-- A descriptor `k` bytes into a read from `pos`: in front of its first chunk, or at the beginning
of a cluster. -/
structure Between (disk : Disk) (p : FatPrivate) (item : FatItem) (a pos : Nat) (d : FatDescriptor)
    (k : Nat) : Prop where
  item_eq : d.item = item
  eof : d.eof = false
  pos_eq : d.pos = pos + k
  relativePos : d.relativePos = d.pos % p.bytesPerCluster
  address : (k = 0 ∧ __fat16DescriptorToAbsoluteAddress p d = a) ∨
    (d.pos % p.bytesPerCluster = 0 ∧ p.bytesPerCluster ≤ pos % p.bytesPerCluster + k ∧
      d.currentClusterFirstSector =
        fat16ClusterNumberToDataSector p (clusterAt disk p item d.pos))

/-- The chunk in front of the descriptor. -/
theorem Between.sources {k : Nat} (hbpc : 0 < p.bytesPerCluster)
    (h : Between disk p item a pos d k) {i : Nat}
    (hi : i < p.bytesPerCluster - d.pos % p.bytesPerCluster) :
    sourceAt disk p item a pos (k + i) = __fat16DescriptorToAbsoluteAddress p d + i := by
  have hpos := h.pos_eq
  rcases h.address with ⟨rfl, rfl⟩ | ⟨hmod, hk, hsec⟩
  · rw [Nat.add_zero] at hpos
    rw [hpos] at hi
    rw [sourceAt, if_pos (by omega), Nat.zero_add]
  · rw [hmod, Nat.sub_zero] at hi
    have hdiv : (pos + (k + i)) / p.bytesPerCluster = d.pos / p.bytesPerCluster := by
      obtain ⟨q, hq⟩ := Nat.dvd_of_mod_eq_zero hmod
      rw [← Nat.add_assoc, ← hpos, hq, Nat.mul_add_div hbpc, Nat.div_eq_of_lt hi, Nat.add_zero,
        Nat.mul_div_cancel_left _ hbpc]
    have hrel : (pos + (k + i)) % p.bytesPerCluster = i := by
      rw [← Nat.add_assoc, ← hpos, Nat.add_mod, hmod, Nat.zero_add, Nat.mod_mod,
        Nat.mod_eq_of_lt hi]
    have hcluster : clusterAt disk p item (pos + (k + i)) = clusterAt disk p item d.pos := by
      rw [clusterAt, clusterAt, hdiv]
    rw [sourceAt, if_neg (by omega), hrel, hcluster, ← hsec, __fat16DescriptorToAbsoluteAddress,
      h.relativePos, hmod, Nat.add_zero, u32, u32, Nat.mod_mod]

/-- `__fat16_read` of `len` bytes from `pos` on delivers the first `stop` of them, if they are all
or if the chain ends there, and it does not end before. -/
theorem sources_upTo (hf : p.Fields) (hbpc : 0 < p.bytesPerCluster)
    (hlt : p.bytesPerCluster < 2 ^ 24) (hs : p.header.sectorsPerCluster ≠ 0)
    (hroot : fat16ItemIsRootDir p item = false) (hlow : item.entry.low16BitsFirstCluster ≠ 0)
    (hle : stop ≤ len) (hmax : pos + stop ≤ 2 ^ 32)
    (hstop : stop = len ∨ (pos + stop) % p.bytesPerCluster = 0 ∧
      EndsChain (clusterAt disk p item (u32 (pos + stop))))
    (hgood : ∀ q, pos < q → q < pos + stop → q % p.bytesPerCluster = 0 →
      ¬ EndsChain (clusterAt disk p item q)) :
    ∀ {fuel : Nat} {d : FatDescriptor} {out : List Nat}, out.length < stop →
      len ≤ fuel + out.length → Between disk p item a pos d out.length →
      out = (List.range out.length).map (sourceAt disk p item a pos) →
      Gives disk (sourcesLoop p len fuel d out) fun r => ∃ d₀ : FatDescriptor,
        d₀.item = item ∧ d₀.eof = false ∧
        r = ((cursorsAt disk p d₀ (u32 (pos + stop))).1,
          if (cursorsAt disk p d₀ (u32 (pos + stop))).2 ≠ 0 then
            (cursorsAt disk p d₀ (u32 (pos + stop))).2 else asInt stop,
          (List.range stop).map (sourceAt disk p item a pos)) := by
  intro fuel
  induction fuel with
  | zero => intro d out hk hfuel _ _; omega
  | succ fuel ih =>
    intro d out hk hfuel h hout
    have hmod := Nat.mod_lt d.pos hbpc
    have hpos := h.pos_eq
    have hsub : sub32 p.bytesPerCluster d.relativePos =
        p.bytesPerCluster - d.pos % p.bytesPerCluster := by
      rw [h.relativePos]; unfold sub32 u32; omega
    rw [sourcesLoop, if_pos ⟨by omega, h.eof⟩, hsub]
    obtain ⟨m, hm⟩ : ∃ m, m = min (len - out.length)
      (p.bytesPerCluster - d.pos % p.bytesPerCluster) := ⟨_, rfl⟩
    rw [← hm]
    have hint : asInt m = m := by
      unfold asInt u32
      rw [Nat.mod_eq_of_lt (by omega), if_pos (by omega)]
    simp only [hint]
    refine .read _ m ?_
    simp only [Disk.slice_length]
    rw [if_neg (by omega)]
    -- the addresses of this chunk
    have hcopied : out ++ (List.range m).map (__fat16DescriptorToAbsoluteAddress p d + ·) =
        (List.range (out.length + m)).map (sourceAt disk p item a pos) := by
      rw [List.range_add, List.map_append, ← hout, List.map_map]
      congr 1
      refine List.map_congr_left fun i hi => ?_
      exact (h.sources hbpc (by have := List.mem_range.mp hi; omega)).symm
    rw [hcopied]
    -- it does not reach over the point where the read stops
    have hstep : out.length + m ≤ stop := by
      rcases hstop with rfl | ⟨hb, -⟩
      · omega
      · have := add_sub_mod_le hbpc (show d.pos < pos + stop by omega) hb
        omega
    refine (adjustCursors_eq hf hbpc hs (by rw [h.item_eq]; exact hroot)
      (by rw [h.item_eq]; exact hlow) _).bind ?_
    rintro _ rfl
    have hnext : asSizeT (d.pos + m) = u32 (pos + (out.length + m)) := by
      unfold asSizeT u32; omega
    rw [hnext]
    have hlen : ((List.range (out.length + m)).map (sourceAt disk p item a pos)).length =
        out.length + m := by simp
    rcases Nat.lt_or_ge (out.length + m) stop with hlt' | hge
    · -- at the end of a cluster
      have hu : u32 (pos + (out.length + m)) = pos + (out.length + m) :=
        Nat.mod_eq_of_lt (by omega)
      have hbound : (pos + (out.length + m)) % p.bytesPerCluster = 0 := by
        rw [show pos + (out.length + m) = d.pos + (p.bytesPerCluster - d.pos % p.bytesPerCluster) by
          omega]
        exact add_sub_mod_mod hbpc
      have hon := hgood _ (by omega) (by omega) hbound
      rw [hu, cursorsAt_on (by rw [h.item_eq]; exact hon)]
      simp only [ne_eq, not_true_eq_false, if_false]
      refine ih (by omega) (by omega) ?_ (by rw [hlen])
      rw [hlen]
      refine ⟨h.item_eq, h.eof, rfl, rfl, .inr ⟨hbound, ?_, by rw [h.item_eq]⟩⟩
      have := add_sub_mod_le hbpc (show pos < pos + (out.length + m) by omega) hbound
      omega
    · obtain rfl : stop = out.length + m := by omega
      have hlast : ∀ c : FatDescriptor × Int, out.length + m = len ∨ c.1.eof = true →
          sourcesLoop p len fuel c.1 ((List.range (out.length + m)).map
            (sourceAt disk p item a pos)) =
          pure (c.1, asInt (out.length + m : Nat), (List.range (out.length + m)).map
            (sourceAt disk p item a pos)) := by
        intro c hc
        cases fuel with
        | zero => rw [sourcesLoop, hlen]
        | succ fuel =>
          rw [sourcesLoop, if_neg, hlen]
          rintro ⟨hl, he⟩
          rw [hlen] at hl
          rcases hc with hc | hc
          · omega
          · rw [hc] at he; cases he
      by_cases hres : (cursorsAt disk p d (u32 (pos + (out.length + m)))).2 = 0
      · rw [if_neg (fun h => h hres), hlast _ ?_]
        · exact .pure ⟨d, h.item_eq, h.eof, by rw [if_neg (fun h => h hres)]⟩
        · rcases hstop with hl | ⟨-, hend⟩
          · exact .inl hl
          · rcases cursorsAt_end (d := d) (by rw [h.item_eq]; exact hend) with hbad | ⟨-, heof⟩
            · rw [hbad] at hres; cases hres
            · exact .inr heof
      · rw [if_pos hres]
        exact .pure ⟨d, h.item_eq, h.eof, by rw [if_pos hres]⟩

end Walk

end AvocadOS
