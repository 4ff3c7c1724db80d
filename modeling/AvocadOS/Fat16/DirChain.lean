import AvocadOS.Fat16.Ends
import Mathlib.Data.List.Nodup
import Mathlib.Data.Finset.Card
import Mathlib.Order.Interval.Finset.Nat
import Mathlib.Tactic.Ring

/-!
# Directories with a chain of clusters

A directory other than the root directory is a chain of clusters, each of whole slots. Slot `k` lies
at `slotAddr`, an exact address that need not fit in 32 bits; `dirSlot` is what the driver reads in
its place.

* `DirChain.clusterAt_get`: the driver follows the chain to its end mark;
* `DirChain.read`: one read of the driver, also of the last slot, behind which `eof` is set;
* `DirChain.dirSlot_eq`: what it reads is the slot, if that is below 4 GiB;
* `DirChain.bytes_lt`: then the positions do not wrap either.
-/

namespace AvocadOS

set_option linter.style.nameCheck false

/-- A directory other than the root directory, with its chain. -/
structure DirChain (disk : Disk) (p : FatPrivate) (item : FatItem) (clusters : List Nat) : Prop where
  type : item.type = .directory
  first : clusters[0]? = some item.entry.low16BitsFirstCluster
  sector : item.firstSector = fat16ClusterNumberToDataSector p item.entry.low16BitsFirstCluster
  data : ∀ c ∈ clusters, 2 ≤ c ∧ c < FAT16_CLUSTER_RESERVED
  link : ∀ i c c', clusters[i]? = some c → clusters[i + 1]? = some c' → fatNext disk p c = c'
  last : ∀ i c, clusters[i]? = some c → clusters[i + 1]? = none →
    FAT16_CLUSTER_CHAIN_END_BEGIN ≤ fatNext disk p c

/-- The address of slot `k`. -/
def slotAddr (p : FatPrivate) (clusters : List Nat) (k : Nat) : Nat :=
  clusterAddr p (clusters.getD (FAT_ENTRY_SIZE * k / p.bytesPerCluster) 0) +
    FAT_ENTRY_SIZE * k % p.bytesPerCluster

/-- The number of slots. -/
def slotCount (p : FatPrivate) (clusters : List Nat) : Nat :=
  clusters.length * p.bytesPerCluster / FAT_ENTRY_SIZE

/-- Slot `k`. -/
def chainSlot (disk : Disk) (p : FatPrivate) (clusters : List Nat) (k : Nat) : FatEntry :=
  slotAt disk (slotAddr p clusters k)

/-- The driver sets `eof` behind slot `k`. -/
def lastSlot (disk : Disk) (p : FatPrivate) (item : FatItem) (k : Nat) : Bool :=
  decide (EndsChain (clusterAt disk p item (slotPos (k + 1))))

namespace DirChain

variable {disk : Disk} {p : FatPrivate} {item : FatItem} {clusters : List Nat} {i c k : Nat}

theorem walk_end {v : Nat} (h : FAT16_CLUSTER_CHAIN_END_BEGIN ≤ v) (n : Nat) :
    walk disk p n v = v := by
  cases n with
  | zero => rfl
  | succ n => rw [walk, if_neg (by omega)]

/-- The value `n` links behind the `i`-th cluster is the cluster there, or an end mark. -/
theorem walk_get (h : DirChain disk p item clusters) (n : Nat) : ∀ {i c : Nat},
    clusters[i]? = some c →
    (∀ c', clusters[i + n]? = some c' → walk disk p n c = c') ∧
      (clusters[i + n]? = none → FAT16_CLUSTER_CHAIN_END_BEGIN ≤ walk disk p n c) := by
  induction n with
  | zero =>
    intro i c hc
    exact ⟨fun c' hc' => Option.some.inj (hc.symm.trans hc'), fun h => by simp_all⟩
  | succ n ih =>
    intro i c hc
    obtain ⟨-, hlt⟩ := h.data c (List.mem_of_getElem? hc)
    rw [walk]
    unfold FAT16_CLUSTER_CHAIN_END_BEGIN FAT16_CLUSTER_RESERVED FAT16_CLUSTER_BAD_OR_RESERVED at *
    dsimp only
    rw [if_pos (by omega)]
    cases hnext : clusters[i + 1]? with
    | some c' =>
      obtain ⟨h₂, hlt'⟩ := h.data c' (List.mem_of_getElem? hnext)
      unfold FAT16_CLUSTER_RESERVED at hlt'
      rw [h.link i c c' hc hnext, if_neg (by omega), show i + (n + 1) = i + 1 + n by omega]
      exact ih hnext
    | none =>
      have hend := h.last i c hc hnext
      unfold FAT16_CLUSTER_CHAIN_END_BEGIN at hend
      have hnone : clusters[i + (n + 1)]? = none := by
        rw [List.getElem?_eq_none_iff] at hnext ⊢
        omega
      rw [if_neg (by omega), walk_end hend]
      exact ⟨fun c' hc' => by simp_all, fun _ => hend⟩

/-- No cluster occurs twice: from its second place on, the chain would have to end earlier than from
its first. -/
theorem nodup (h : DirChain disk p item clusters) : clusters.Nodup := by
  rw [List.nodup_iff_injective_get]
  have hne : ∀ i j : Fin clusters.length, i < j → clusters.get i ≠ clusters.get j := by
    intro i j hij heq
    have hi : clusters[(i : Nat)]? = some (clusters.get i) := List.getElem?_eq_getElem i.isLt
    have hj : clusters[(j : Nat)]? = some (clusters.get i) := by
      rw [heq]
      exact List.getElem?_eq_getElem j.isLt
    have hlt : (i : Nat) + (clusters.length - j) < clusters.length := by omega
    have hdata := (h.walk_get (clusters.length - j) hi).1 _ (List.getElem?_eq_getElem hlt)
    have hend := (h.walk_get (clusters.length - j) hj).2
      (List.getElem?_eq_none_iff.mpr (by omega))
    have hmax := (h.data _ (List.getElem_mem hlt)).2
    unfold FAT16_CLUSTER_CHAIN_END_BEGIN FAT16_CLUSTER_RESERVED at *
    omega
  intro i j heq
  rcases Nat.lt_trichotomy i j with hij | hij | hij
  · exact absurd heq (hne i j hij)
  · exact Fin.ext hij
  · exact absurd heq.symm (hne j i hij)

/-! ## What the driver reads -/

section Read

variable (hf : p.Fields) (hs : p.header.sectorsPerCluster ≠ 0) (hbpc : 0 < p.bytesPerCluster)
  (hwhole : p.bytesPerCluster % FAT_ENTRY_SIZE = 0)

theorem not_root (h : DirChain disk p item clusters) : fat16ItemIsRootDir p item = false := by
  simp [fat16ItemIsRootDir, h.type]

theorem first_data (h : DirChain disk p item clusters) :
    2 ≤ item.entry.low16BitsFirstCluster ∧ item.entry.low16BitsFirstCluster < 2 ^ 16 :=
  ⟨(h.data _ (List.mem_of_getElem? h.first)).1, le16_lt _ _⟩

include hf hs in
/-- The driver follows the chain to the cluster of a position, or to the end mark. -/
theorem clusterAt_get (h : DirChain disk p item clusters) (pos : Nat) :
    (∀ c, clusters[pos / p.bytesPerCluster]? = some c → clusterAt disk p item pos = c) ∧
      (clusters[pos / p.bytesPerCluster]? = none →
        FAT16_CLUSTER_CHAIN_END_BEGIN ≤ clusterAt disk p item pos) := by
  obtain ⟨h2, hlt⟩ := h.first_data
  have hwalk := h.walk_get (pos / p.bytesPerCluster) h.first
  rw [Nat.zero_add] at hwalk
  rwa [clusterAt, firstCluster_eq hf hs h.sector h2 hlt]

include hf hs in
/-- No value on the way is one of the reserved ones. -/
theorem clusterAt_not_reserved (h : DirChain disk p item clusters) (pos : Nat) :
    clusterAt disk p item pos ≠ FAT16_CLUSTER_RESERVED ∧
      clusterAt disk p item pos ≠ FAT16_CLUSTER_BAD_OR_RESERVED := by
  obtain ⟨hget, hnone⟩ := h.clusterAt_get hf hs pos
  cases hc : clusters[pos / p.bytesPerCluster]? with
  | some c =>
    have hmax := (h.data c (List.mem_of_getElem? hc)).2
    rw [hget c hc]
    unfold FAT16_CLUSTER_RESERVED FAT16_CLUSTER_BAD_OR_RESERVED at *
    omega
  | none =>
    have hend := hnone hc
    unfold FAT16_CLUSTER_RESERVED FAT16_CLUSTER_BAD_OR_RESERVED FAT16_CLUSTER_CHAIN_END_BEGIN at *
    omega

include hwhole in
/-- A slot does not reach over a cluster. -/
theorem slot_inside (k : Nat) (hbpc : 0 < p.bytesPerCluster) :
    slotPos k % p.bytesPerCluster + FAT_ENTRY_SIZE ≤ p.bytesPerCluster := by
  obtain ⟨n, hn⟩ := Nat.dvd_of_mod_eq_zero hwhole
  have hdvd : FAT_ENTRY_SIZE ∣ slotPos k % p.bytesPerCluster := by
    rw [Nat.dvd_mod_iff (Nat.dvd_of_mod_eq_zero hwhole)]
    exact Nat.dvd_of_mod_eq_zero (by unfold slotPos u32 FAT_ENTRY_SIZE; omega)
  have hlt := Nat.mod_lt (slotPos k) hbpc
  obtain ⟨m, hm⟩ := hdvd
  unfold FAT_ENTRY_SIZE at *
  omega

variable {d : FatDescriptor}

include hf hs hbpc hwhole in
/-- One read: all the bytes of the slot, `eof` behind the last one. -/
theorem read (h : DirChain disk p item clusters) (hlt : p.bytesPerCluster < 2 ^ 24)
    (hd : DirAt disk p item d k) (e : FatEntry) :
    Gives disk (__fat16Read p d FAT_ENTRY_SIZE) fun r =>
      r.2.1 = FAT_ENTRY_SIZE ∧ e.overlay r.2.2 = dirSlot disk p item k ∧ r.1.item = item ∧
        (lastSlot disk p item k = false → DirAt disk p item r.1 (k + 1)) ∧
        (lastSlot disk p item k = true → r.1.eof = true) := by
  have hlow : item.entry.low16BitsFirstCluster ≠ 0 := by
    have := h.first_data.1
    omega
  -- the only boundary is at the end of the slot
  have honly : ∀ q, slotPos k < q → q ≤ slotPos k + FAT_ENTRY_SIZE → q % p.bytesPerCluster = 0 →
      q = slotPos k + FAT_ENTRY_SIZE := by
    intro q h₁ h₂ h₃
    have hdvd : FAT_ENTRY_SIZE ∣ q :=
      (Nat.dvd_of_mod_eq_zero hwhole).trans (Nat.dvd_of_mod_eq_zero h₃)
    unfold slotPos u32 FAT_ENTRY_SIZE at *
    omega
  cases hlast : lastSlot disk p item k with
  | false =>
    have hnot : ¬ EndsChain (clusterAt disk p item (slotPos (k + 1))) := of_decide_eq_false hlast
    have hlinked : SlotLinked disk p item k := by
      intro q h₁ h₂ h₃
      obtain rfl : q = slotPos k + FAT_ENTRY_SIZE := h₃.elim (honly q h₁ h₂) id
      rw [slotPos_succ]
      exact hnot
    refine (read_linked hf hbpc hlt hs h.not_root hlow hd hlinked e).mono ?_
    rintro r ⟨hat, hres, hslot⟩
    exact ⟨hres, hslot, hat.item_eq, fun _ => hat, fun h => by cases h⟩
  | true =>
    have hends : EndsChain (clusterAt disk p item (slotPos (k + 1))) := of_decide_eq_true hlast
    have hsources := @sources_upTo disk p item _ (slotPos k) FAT_ENTRY_SIZE FAT_ENTRY_SIZE hf hbpc
      hlt hs h.not_root hlow (Nat.le_refl _) (slotPos_le k) (.inl rfl)
      (fun q h₁ h₂ h₃ => absurd (honly q h₁ (Nat.le_of_lt h₂) h₃) (Nat.ne_of_lt h₂))
      FAT_ENTRY_SIZE d [] (by decide) (by simp) hd.between rfl
    refine hsources.of_sources.mono ?_
    rintro ⟨d', res, bytes⟩ ⟨addrs, ⟨d₀, hitem, heof, hr⟩, rfl⟩
    rw [slotPos_succ] at hr
    have hcursors : cursorsAt disk p d₀ (slotPos (k + 1)) = ({ d₀ with
        pos := slotPos (k + 1)
        relativePos := slotPos (k + 1) % p.bytesPerCluster
        eof := true }, 0) := by
      obtain ⟨hr₁, hr₂⟩ := h.clusterAt_not_reserved hf hs (slotPos (k + 1))
      unfold cursorsAt
      dsimp only
      rw [hitem, if_neg (not_or.mpr ⟨hr₁, hr₂⟩), if_neg]
      unfold EndsChain at hends
      unfold FAT16_CLUSTER_RESERVED FAT16_CLUSTER_BAD_OR_RESERVED FAT16_CLUSTER_CHAIN_END_BEGIN at *
      omega
    rw [hcursors] at hr
    simp only [ne_eq, not_true_eq_false, if_false, Prod.mk.injEq] at hr
    obtain ⟨rfl, rfl, rfl⟩ := hr
    have hint : asInt FAT_ENTRY_SIZE = FAT_ENTRY_SIZE := by decide
    exact ⟨hint, overlay_dirSlot e, hitem, fun h => (by cases h), fun _ => rfl⟩

end Read

/-! ## Where the slots lie -/

section Slots

variable (hg : p.Geometry) (hbpc : 0 < p.bytesPerCluster)
  (hwhole : p.bytesPerCluster % FAT_ENTRY_SIZE = 0)

/-- The number of slot `k` among all slots of the data region. -/
def slotIndex (p : FatPrivate) (clusters : List Nat) (k : Nat) : Nat :=
  (clusters.getD (k / (p.bytesPerCluster / FAT_ENTRY_SIZE)) 0 - 2) *
    (p.bytesPerCluster / FAT_ENTRY_SIZE) + k % (p.bytesPerCluster / FAT_ENTRY_SIZE)

include hg in
theorem clusterAddr_eq (c : Nat) :
    clusterAddr p c = p.dataSector * p.header.bytesPerSector + (c - 2) * p.bytesPerCluster := by
  rw [clusterAddr, hg.bytesPerCluster]
  ring

include hg hwhole in
theorem slotAddr_eq (k : Nat) : slotAddr p clusters k =
    p.dataSector * p.header.bytesPerSector + FAT_ENTRY_SIZE * slotIndex p clusters k := by
  rw [slotAddr, clusterAddr_eq hg, slotIndex]
  obtain ⟨q, hq⟩ := Nat.dvd_of_mod_eq_zero hwhole
  rw [hq, Nat.mul_div_cancel_left q (by decide), Nat.mul_div_mul_left _ _ (by decide),
    Nat.mul_mod_mul_left]
  ring

include hwhole in
theorem slotCount_eq :
    slotCount p clusters = clusters.length * (p.bytesPerCluster / FAT_ENTRY_SIZE) := by
  rw [slotCount, Nat.mul_div_assoc _ (Nat.dvd_of_mod_eq_zero hwhole)]

include hbpc hwhole in
theorem slots_pos : 0 < p.bytesPerCluster / FAT_ENTRY_SIZE :=
  Nat.div_pos (Nat.le_of_dvd hbpc (Nat.dvd_of_mod_eq_zero hwhole)) (by decide)

include hbpc hwhole in
/-- The cluster of a slot. -/
theorem getElem?_of_lt (hk : k < slotCount p clusters) :
    clusters[k / (p.bytesPerCluster / FAT_ENTRY_SIZE)]? =
      some (clusters.getD (k / (p.bytesPerCluster / FAT_ENTRY_SIZE)) 0) := by
  rw [slotCount_eq hwhole] at hk
  have hlt := (Nat.div_lt_iff_lt_mul (slots_pos hbpc hwhole)).mpr hk
  rw [List.getD_eq_getElem?_getD, List.getElem?_eq_getElem hlt]
  rfl

include hbpc hwhole in
/-- No two slots of the directory are the same. -/
theorem slotIndex_injective (h : DirChain disk p item clusters) {j : Nat}
    (hj : j < slotCount p clusters) (hk : k < slotCount p clusters)
    (heq : slotIndex p clusters j = slotIndex p clusters k) : j = k := by
  have hq := slots_pos hbpc hwhole
  have hcj := getElem?_of_lt hbpc hwhole hj
  have hck := getElem?_of_lt hbpc hwhole hk
  unfold slotIndex at heq
  generalize p.bytesPerCluster / FAT_ENTRY_SIZE = q at *
  have h2j := (h.data _ (List.mem_of_getElem? hcj)).1
  have h2k := (h.data _ (List.mem_of_getElem? hck)).1
  generalize clusters.getD (j / q) 0 = a at *
  generalize clusters.getD (k / q) 0 = b at *
  have hmod : j % q = k % q := by
    have := congrArg (· % q) heq
    simpa [Nat.mul_add_mod_self_right] using this
  have hab : a = b := by
    have := Nat.eq_of_mul_eq_mul_right hq (show (a - 2) * q = (b - 2) * q by omega)
    omega
  subst hab
  have hdiv : j / q = k / q := by
    obtain ⟨hlt, -⟩ := List.getElem?_eq_some_iff.mp hcj
    exact (List.getElem?_inj hlt h.nodup).mp (hcj.trans hck.symm)
  rw [← Nat.div_add_mod j q, ← Nat.div_add_mod k q, hdiv, hmod]

include hg hbpc hwhole in
/-- As many slots as start below 4 GiB. -/
theorem position_lt (h : DirChain disk p item clusters) (hk : k < slotCount p clusters)
    (hbelow : ∀ j ≤ k, slotAddr p clusters j < 2 ^ 32) :
    p.dataSector * p.header.bytesPerSector + FAT_ENTRY_SIZE * k < 2 ^ 32 := by
  simp only [slotAddr_eq hg hwhole] at hbelow
  have h0 := hbelow 0 (Nat.zero_le k)
  generalize p.dataSector * p.header.bytesPerSector = base at *
  have hmaps : ∀ j ∈ Finset.range (k + 1),
      slotIndex p clusters j ∈ Finset.range ((2 ^ 32 - base + 31) / FAT_ENTRY_SIZE) := by
    intro j hj
    have := hbelow j (Nat.lt_succ_iff.mp (Finset.mem_range.mp hj))
    rw [Finset.mem_range]
    unfold FAT_ENTRY_SIZE at *
    omega
  have hcard := Finset.card_le_card_of_injOn (slotIndex p clusters) hmaps
    (by
      intro i hi j hj heq
      simp only [Finset.coe_range, Set.mem_Iio] at hi hj
      exact h.slotIndex_injective hbpc hwhole (by omega) (by omega) heq)
  rw [Finset.card_range, Finset.card_range] at hcard
  unfold FAT_ENTRY_SIZE at *
  omega

theorem length_lt (h : DirChain disk p item clusters) : clusters.length < 2 ^ 16 := by
  have hsub : clusters.toFinset ⊆ Finset.range FAT16_CLUSTER_RESERVED := by
    intro c hc
    exact Finset.mem_range.mpr (h.data c (List.mem_toFinset.mp hc)).2
  have hcard := Finset.card_le_card hsub
  rw [List.toFinset_card_of_nodup h.nodup, Finset.card_range] at hcard
  exact Nat.lt_of_le_of_lt hcard (by decide)

/-- The chain of a volume without reserved sectors leaves out cluster 7, whose entry in the FAT is
that number of sectors. -/
theorem seven_not_mem {ok : Nat → Bool} (hp : fat16Probe ok disk = .ok (.ok p))
    (hres : p.header.reservedSectors = 0) (h : DirChain disk p item clusters) : 7 ∉ clusters := by
  intro hmem
  have hzero : fatNext disk p 7 = 0 := by
    obtain ⟨rfl, -⟩ := fat16Probe_eq hp
    rw [fatNext, hres, Nat.zero_mul]
    exact hres
  obtain ⟨i, hi, hc⟩ := List.getElem_of_mem hmem
  have hc : clusters[i]? = some 7 := by rw [List.getElem?_eq_getElem hi, hc]
  cases hnext : clusters[i + 1]? with
  | some c' =>
    have h2 := (h.data c' (List.mem_of_getElem? hnext)).1
    have hlink := h.link i 7 c' hc hnext
    omega
  | none =>
    have hlast := h.last i 7 hc hnext
    rw [hzero] at hlast
    exact absurd hlast (by decide)

/-- Then some cluster is further behind. -/
theorem exists_far_cluster (h : DirChain disk p item clusters) (h7 : 7 ∉ clusters)
    (hlen : 6 ≤ clusters.length) : ∃ c ∈ clusters, clusters.length + 2 ≤ c := by
  by_contra hall
  have hsub : clusters.toFinset ⊆ (Finset.range (clusters.length + 2)).erase 7 \ {0, 1} := by
    intro c hc
    have hc := List.mem_toFinset.mp hc
    have h2 := (h.data c hc).1
    have hne : c ≠ 7 := fun heq => h7 (heq ▸ hc)
    have hlt : c < clusters.length + 2 := Nat.lt_of_not_le fun hle => hall ⟨c, hc, hle⟩
    simp only [Finset.mem_sdiff, Finset.mem_erase, Finset.mem_range, Finset.mem_insert,
      Finset.mem_singleton]
    omega
  have hcard := Finset.card_le_card hsub
  rw [List.toFinset_card_of_nodup h.nodup, Finset.card_sdiff_of_subset (by
      intro c hc
      simp only [Finset.mem_insert, Finset.mem_singleton] at hc
      simp only [Finset.mem_erase, Finset.mem_range]
      omega),
    Finset.card_erase_of_mem (Finset.mem_range.mpr (by omega)), Finset.card_range,
    Finset.card_pair (by decide)] at hcard
  omega

include hbpc hwhole in
/-- A directory whose slots start below 4 GiB is shorter than that. -/
theorem bytes_lt {ok : Nat → Bool} (hp : fat16Probe ok disk = .ok (.ok p))
    (h : DirChain disk p item clusters)
    (hbelow : ∀ j < slotCount p clusters, slotAddr p clusters j < 2 ^ 32) :
    clusters.length * p.bytesPerCluster < 2 ^ 32 := by
  have hg := fat16Probe_geometry hp
  have hf := fat16Probe_fields hp
  have hlt := hg.bytesPerCluster_lt
  have hcount : slotCount p clusters = clusters.length * (p.bytesPerCluster / FAT_ENTRY_SIZE) :=
    slotCount_eq hwhole
  have hq := slots_pos hbpc hwhole
  obtain ⟨q, hqeq⟩ := Nat.dvd_of_mod_eq_zero hwhole
  have hqdiv : p.bytesPerCluster / FAT_ENTRY_SIZE = q := by
    rw [hqeq, Nat.mul_div_cancel_left q (by decide)]
  rw [hqdiv] at hcount hq
  by_cases hres : p.header.reservedSectors = 0
  · rcases Nat.lt_or_ge clusters.length 6 with hshort | hlong
    · have := Nat.mul_lt_mul'' hshort hlt
      omega
    -- the last slot of a far cluster
    obtain ⟨c, hc, hfar⟩ := h.exists_far_cluster (h.seven_not_mem hp hres) hlong
    obtain ⟨i, hi, hget⟩ := List.getElem_of_mem hc
    have hmul := Nat.mul_le_mul_right q (Nat.succ_le_of_lt hi)
    rw [Nat.succ_mul] at hmul
    have hslot := hbelow (q * i + (q - 1)) (by rw [hcount, Nat.mul_comm q]; omega)
    rw [slotAddr_eq hg hwhole, slotIndex, hqdiv, Nat.mul_add_div hq, Nat.mul_add_mod,
      Nat.div_eq_of_lt (by omega), Nat.mod_eq_of_lt (by omega), Nat.add_zero,
      List.getD_eq_getElem _ _ hi, hget] at hslot
    have hmul := Nat.mul_le_mul_right q (show clusters.length ≤ c - 2 by omega)
    rw [hqeq, show clusters.length * (FAT_ENTRY_SIZE * q) = FAT_ENTRY_SIZE * (clusters.length * q) by
      ring]
    unfold FAT_ENTRY_SIZE at *
    omega
  · have hds : 1 ≤ p.dataSector := by
      obtain ⟨rfl, -⟩ := fat16Probe_eq hp
      exact Nat.le_trans (Nat.one_le_iff_ne_zero.mpr hres)
        (Nat.le_trans (Nat.le_add_right _ _) (Nat.le_add_right _ _))
    have hbase := Nat.le_mul_of_pos_left p.header.bytesPerSector hds
    rcases Nat.lt_or_ge (p.dataSector * p.header.bytesPerSector) FAT_ENTRY_SIZE with hsmall | hbig
    · -- small sectors
      have hbpcle := Nat.mul_lt_mul'' (Nat.lt_of_le_of_lt hbase hsmall) hf.sectorsPerCluster
      rw [← hg.bytesPerCluster] at hbpcle
      have := Nat.mul_lt_mul'' h.length_lt hbpcle
      unfold FAT_ENTRY_SIZE at this
      omega
    · obtain ⟨hpos, -⟩ := List.getElem?_eq_some_iff.mp h.first
      have hn : 0 < slotCount p clusters := hcount ▸ Nat.mul_pos hpos hq
      have hlast := h.position_lt hg hbpc hwhole (Nat.sub_lt hn Nat.one_pos)
        fun j hj => hbelow j (by omega)
      rw [hqeq, show clusters.length * (FAT_ENTRY_SIZE * q) =
        FAT_ENTRY_SIZE * (clusters.length * q) by ring, ← hcount]
      unfold FAT_ENTRY_SIZE at *
      omega

end Slots

/-! ## What the driver reads of the slots -/

section Near

variable (hf : p.Fields) (hg : p.Geometry) (hs : p.header.sectorsPerCluster ≠ 0)
  (hbpc : 0 < p.bytesPerCluster) (hwhole : p.bytesPerCluster % FAT_ENTRY_SIZE = 0)

theorem slotAt_byte (disk : Disk) (a : Nat) : slotAt disk a = ⟨fun i => disk.bytes (a + i)⟩ := by
  unfold slotAt FatEntry.overlay
  congr 1
  funext i
  rw [List.getD_eq_getElem _ _ (by simp [FAT_ENTRY_SIZE])]
  simp [Disk.slice]

theorem walk_lt (hc : c < 2 ^ 16) (n : Nat) : walk disk p n c < 2 ^ 16 := by
  induction n generalizing c with
  | zero => exact hc
  | succ n ih =>
    have hnext : fatNext disk p c < 2 ^ 16 := le16_lt _ _
    rw [walk]
    dsimp only
    split
    · split
      · exact hnext
      · exact ih hnext
    · exact hc

include hf hs in
/-- The driver never takes a value below 2 for a cluster. -/
theorem clusterAt_bounds (h : DirChain disk p item clusters) (pos : Nat) :
    2 ≤ clusterAt disk p item pos ∧ clusterAt disk p item pos < 2 ^ 16 := by
  obtain ⟨h2, hlt⟩ := h.first_data
  refine ⟨?_, ?_⟩
  · obtain ⟨hget, hnone⟩ := h.clusterAt_get hf hs pos
    cases hc : clusters[pos / p.bytesPerCluster]? with
    | some c =>
      rw [hget c hc]
      exact (h.data c (List.mem_of_getElem? hc)).1
    | none => exact Nat.le_trans (by decide) (hnone hc)
  · rw [clusterAt, firstCluster_eq hf hs h.sector h2 hlt]
    exact walk_lt hlt _

include hf hs hbpc hwhole in
/-- The driver reads a slot at its address modulo 4 GiB. -/
theorem dirSlot_eq_slotAt (h : DirChain disk p item clusters) (k : Nat) :
    dirSlot disk p item k = slotAt disk
      (u32 (clusterAddr p (clusterAt disk p item (slotPos k)) + slotPos k % p.bytesPerCluster)) := by
  obtain ⟨h2, hlt⟩ := h.clusterAt_bounds hf hs (slotPos k)
  have hsector : slotSector disk p item k =
      fat16ClusterNumberToDataSector p (clusterAt disk p item (slotPos k)) := by
    by_cases hk : k = 0
    · have hfirst := (h.clusterAt_get hf hs (slotPos 0)).1 item.entry.low16BitsFirstCluster (by
        rw [show slotPos 0 = 0 from rfl, Nat.zero_div, h.first])
      rw [slotSector, if_pos hk, hk, hfirst, h.sector]
    · rw [slotSector, if_neg hk]
  have haddr : u32 (u32 (slotSector disk p item k * p.header.bytesPerSector) +
      slotPos k % p.bytesPerCluster) =
      u32 (clusterAddr p (clusterAt disk p item (slotPos k)) + slotPos k % p.bytesPerCluster) := by
    rw [hsector, clusterNumberToDataSector_eq hf h2 hlt, ← clusterAddr]
    exact Nat.mod_add_mod _ _ _
  rw [slotAt_byte, dirSlot, haddr]
  congr 1
  funext i
  have hinside := slot_inside hwhole k hbpc
  rw [sourceAt, if_pos (by have := i.isLt; unfold FAT_ENTRY_SIZE at hinside; omega)]

theorem slotPos_eq (hk : FAT_ENTRY_SIZE * k < 2 ^ 32) : slotPos k = FAT_ENTRY_SIZE * k :=
  Nat.mod_eq_of_lt hk

include hbpc hwhole in
/-- The cluster of a slot, by its position. -/
theorem getElem?_slotPos (hn : k < slotCount p clusters) (hk : FAT_ENTRY_SIZE * k < 2 ^ 32) :
    clusters[slotPos k / p.bytesPerCluster]? =
      some (clusters.getD (FAT_ENTRY_SIZE * k / p.bytesPerCluster) 0) := by
  have hget := getElem?_of_lt hbpc hwhole hn
  obtain ⟨q, hq⟩ := Nat.dvd_of_mod_eq_zero hwhole
  rw [hq, Nat.mul_div_cancel_left q (by decide)] at hget
  rw [slotPos_eq hk, hq, Nat.mul_div_mul_left _ _ (by decide)]
  exact hget

include hf hs hbpc hwhole in
/-- Below 4 GiB, that is the slot. -/
theorem dirSlot_eq (h : DirChain disk p item clusters) (hn : k < slotCount p clusters)
    (hk : FAT_ENTRY_SIZE * k < 2 ^ 32) (haddr : slotAddr p clusters k < 2 ^ 32) :
    dirSlot disk p item k = chainSlot disk p clusters k := by
  have hc := (h.clusterAt_get hf hs _).1 _ (getElem?_slotPos hbpc hwhole hn hk)
  rw [h.dirSlot_eq_slotAt hf hs hbpc hwhole, hc, slotPos_eq hk, ← slotAddr, u32,
    Nat.mod_eq_of_lt haddr, chainSlot]

include hf hs hbpc hwhole in
theorem lastSlot_eq_false (h : DirChain disk p item clusters) (hn : k + 1 < slotCount p clusters)
    (hk : FAT_ENTRY_SIZE * (k + 1) < 2 ^ 32) : lastSlot disk p item k = false := by
  have hget := getElem?_slotPos hbpc hwhole hn hk
  have hdata := (h.data _ (List.mem_of_getElem? hget)).2
  rw [lastSlot, (h.clusterAt_get hf hs _).1 _ hget, decide_eq_false_iff_not, EndsChain]
  omega

include hf hs hbpc hwhole in
theorem lastSlot_eq_true (h : DirChain disk p item clusters) (hn : k + 1 = slotCount p clusters)
    (hk : clusters.length * p.bytesPerCluster < 2 ^ 32) : lastSlot disk p item k = true := by
  have hbytes : FAT_ENTRY_SIZE * (k + 1) = clusters.length * p.bytesPerCluster := by
    rw [hn, slotCount, Nat.mul_div_cancel']
    exact (Nat.dvd_of_mod_eq_zero hwhole).mul_left _
  have hend := (h.clusterAt_get hf hs (slotPos (k + 1))).2 (by
    rw [slotPos_eq (hbytes ▸ hk), hbytes, Nat.mul_div_cancel _ hbpc]
    exact List.getElem?_eq_none_iff.mpr (Nat.le_refl _))
  rw [lastSlot, decide_eq_true_iff, EndsChain]
  unfold FAT16_CLUSTER_CHAIN_END_BEGIN FAT16_CLUSTER_RESERVED at *
  omega

end Near

end DirChain

/-! ## Slots beyond 4 GiB -/

/-- `disk'` has other bytes than `disk` at most in those slots of the directory that start beyond
4 GiB. -/
def SameBelow (p : FatPrivate) (clusters : List Nat) (disk disk' : Disk) : Prop :=
  ∀ a, disk'.bytes a ≠ disk.bytes a → ∃ k < slotCount p clusters,
    2 ^ 32 ≤ slotAddr p clusters k ∧ slotAddr p clusters k ≤ a ∧
      a < slotAddr p clusters k + FAT_ENTRY_SIZE

namespace SameBelow

variable {disk disk' : Disk} {p : FatPrivate} {item : FatItem} {clusters : List Nat} {c k : Nat}

theorem refl (disk : Disk) : SameBelow p clusters disk disk := fun _ h => absurd rfl h

theorem bytes_eq (h : SameBelow p clusters disk disk') {a : Nat} (ha : a < 2 ^ 32) :
    disk'.bytes a = disk.bytes a := by
  by_contra hne
  obtain ⟨k, -, hfar, hle, -⟩ := h a hne
  omega

/-- The header lies below. -/
theorem probe_eq (h : SameBelow p clusters disk disk') (ok : Nat → Bool) :
    fat16Probe ok disk' = fat16Probe ok disk := by
  have hslice : disk'.slice 0 FAT_HEADER_SIZE = disk.slice 0 FAT_HEADER_SIZE := by
    refine List.map_congr_left fun i hi => h.bytes_eq ?_
    have := List.mem_range.mp hi
    unfold FAT_HEADER_SIZE at this
    omega
  have hread := diskstreamRead_eq ⟨disk, 0, []⟩ FAT_HEADER_SIZE
  have hread' := diskstreamRead_eq ⟨disk', 0, []⟩ FAT_HEADER_SIZE
  simp only [fat16Probe, hread, hread', hslice, Bind.bind, Except.bind]

/-- And so does the FAT. -/
theorem fatNext_eq (hf : p.Fields) (h : SameBelow p clusters disk disk')
    (hc : c < FAT16_CLUSTER_CHAIN_END_BEGIN) : fatNext disk' p c = fatNext disk p c := by
  have hfat := Nat.mul_le_mul (Nat.le_sub_one_of_lt hf.reservedSectors)
    (Nat.le_sub_one_of_lt hf.bytesPerSector)
  have hslice : ∀ a, a + 2 ≤ 2 ^ 32 → disk'.slice a 2 = disk.slice a 2 := by
    intro a ha
    refine List.map_congr_left fun i hi => h.bytes_eq ?_
    have := List.mem_range.mp hi
    omega
  rw [fatNext, fatNext, hslice _ (by unfold FAT16_CLUSTER_CHAIN_END_BEGIN at hc; omega)]

theorem walk_eq (hf : p.Fields) (h : SameBelow p clusters disk disk') (n : Nat) : ∀ {c : Nat},
    walk disk' p n c = walk disk p n c := by
  induction n with
  | zero => exact rfl
  | succ n ih =>
    intro c
    rw [walk, walk]
    by_cases hc : c < FAT16_CLUSTER_CHAIN_END_BEGIN
    · rw [if_pos hc, if_pos hc, h.fatNext_eq hf hc]
      dsimp only
      rw [ih]
    · rw [if_neg hc, if_neg hc]

theorem lastSlot_eq (hf : p.Fields) (h : SameBelow p clusters disk disk') :
    lastSlot disk' p item = lastSlot disk p item := by
  funext k
  unfold lastSlot clusterAt
  rw [h.walk_eq hf]

theorem dirChain (hf : p.Fields) (h : SameBelow p clusters disk disk')
    (hd : DirChain disk p item clusters) : DirChain disk' p item clusters := by
  have hnext : ∀ {i c : Nat}, clusters[i]? = some c → fatNext disk' p c = fatNext disk p c := by
    intro i c hc
    exact h.fatNext_eq hf (Nat.lt_trans (hd.data c (List.mem_of_getElem? hc)).2 (by decide))
  refine ⟨hd.type, hd.first, hd.sector, hd.data, fun i c c' hc hc' => ?_, fun i c hc hend => ?_⟩
  · rw [hnext hc]
    exact hd.link i c c' hc hc'
  · rw [hnext hc]
    exact hd.last i c hc hend

variable (hg : p.Geometry) (hwhole : p.bytesPerCluster % FAT_ENTRY_SIZE = 0)

include hg hwhole in
/-- Slots lie on a grid, so a slot that starts below 4 GiB is the same. -/
theorem slotAt_eq (h : SameBelow p clusters disk disk') {a : Nat} (ha : a < 2 ^ 32)
    (hgrid : a % FAT_ENTRY_SIZE = p.dataSector * p.header.bytesPerSector % FAT_ENTRY_SIZE) :
    slotAt disk' a = slotAt disk a := by
  rw [DirChain.slotAt_byte, DirChain.slotAt_byte]
  congr 1
  funext i
  by_contra hne
  obtain ⟨k, -, hfar, hle, hlt⟩ := h _ hne
  have hi := i.isLt
  rw [DirChain.slotAddr_eq hg hwhole] at *
  unfold FAT_ENTRY_SIZE at *
  omega

include hg hwhole in
theorem chainSlot_eq (h : SameBelow p clusters disk disk') (hk : slotAddr p clusters k < 2 ^ 32) :
    chainSlot disk' p clusters k = chainSlot disk p clusters k := by
  refine h.slotAt_eq hg hwhole hk ?_
  rw [DirChain.slotAddr_eq hg hwhole, Nat.add_mul_mod_self_left]

include hg hwhole in
/-- The driver does not see the difference. -/
theorem dirSlot_eq (hf : p.Fields) (hs : p.header.sectorsPerCluster ≠ 0)
    (hbpc : 0 < p.bytesPerCluster) (h : SameBelow p clusters disk disk')
    (hd : DirChain disk p item clusters) : dirSlot disk' p item = dirSlot disk p item := by
  funext k
  rw [(h.dirChain hf hd).dirSlot_eq_slotAt hf hs hbpc hwhole,
    hd.dirSlot_eq_slotAt hf hs hbpc hwhole, clusterAt, h.walk_eq hf, ← clusterAt]
  refine h.slotAt_eq hg hwhole (Nat.mod_lt _ (by decide)) ?_
  obtain ⟨q, hq⟩ := Nat.dvd_of_mod_eq_zero hwhole
  have hpos : slotPos k % p.bytesPerCluster % FAT_ENTRY_SIZE = 0 := by
    rw [Nat.mod_mod_of_dvd _ (Nat.dvd_of_mod_eq_zero hwhole)]
    unfold slotPos u32 FAT_ENTRY_SIZE
    omega
  have hmul : (clusterAt disk p item (slotPos k) - 2) * p.bytesPerCluster =
      FAT_ENTRY_SIZE * ((clusterAt disk p item (slotPos k) - 2) * q) := by
    rw [hq]
    ring
  rw [DirChain.clusterAddr_eq hg, hmul]
  unfold u32 FAT_ENTRY_SIZE at *
  omega

end SameBelow

/-! A disk with another entry in one slot. -/

def Disk.withSlot (disk : Disk) (a : Nat) (e : FatEntry) : Disk where
  bytes x := if h : a ≤ x ∧ x < a + 32 then e.byte ⟨x - a, by omega⟩ else disk.bytes x

namespace DirChain

variable {disk : Disk} {p : FatPrivate} {item : FatItem} {clusters : List Nat} {e : FatEntry}
  {j k : Nat}

theorem slotAt_withSlot (disk : Disk) (a : Nat) (e : FatEntry) : slotAt (disk.withSlot a e) a = e := by
  rw [slotAt_byte]
  congr 1
  funext i
  have hi := i.isLt
  rw [Disk.withSlot]
  dsimp only
  rw [dif_pos (by omega)]
  simp

theorem slotAt_withSlot_of_disjoint {a b : Nat} (h : b + FAT_ENTRY_SIZE ≤ a ∨ a + FAT_ENTRY_SIZE ≤ b) :
    slotAt (disk.withSlot a e) b = slotAt disk b := by
  rw [slotAt_byte, slotAt_byte]
  congr 1
  funext i
  have hi := i.isLt
  rw [Disk.withSlot]
  dsimp only
  rw [dif_neg (by unfold FAT_ENTRY_SIZE at h; omega)]

theorem sameBelow_withSlot (hk : k < slotCount p clusters) (hfar : 2 ^ 32 ≤ slotAddr p clusters k) :
    SameBelow p clusters disk (disk.withSlot (slotAddr p clusters k) e) := by
  intro a hne
  refine ⟨k, hk, hfar, ?_⟩
  by_contra hout
  refine hne ?_
  rw [Disk.withSlot]
  exact dif_neg hout

theorem chainSlot_withSlot :
    chainSlot (disk.withSlot (slotAddr p clusters k) e) p clusters k = e := slotAt_withSlot _ _ _

/-- The other slots stay as they are. -/
theorem chainSlot_withSlot_ne (hg : p.Geometry) (hbpc : 0 < p.bytesPerCluster)
    (hwhole : p.bytesPerCluster % FAT_ENTRY_SIZE = 0) (h : DirChain disk p item clusters)
    (hj : j < slotCount p clusters) (hk : k < slotCount p clusters) (hne : j ≠ k) :
    chainSlot (disk.withSlot (slotAddr p clusters k) e) p clusters j =
      chainSlot disk p clusters j := by
  have hindex := mt (h.slotIndex_injective hbpc hwhole hj hk) hne
  refine slotAt_withSlot_of_disjoint ?_
  rw [slotAddr_eq hg hwhole, slotAddr_eq hg hwhole]
  unfold FAT_ENTRY_SIZE
  omega

end DirChain

end AvocadOS
