import AvocadOS.Fat16.Corrupt

/-!
# Cluster addresses and the two chain walkers

The driver computes byte addresses in 32 bits, and it has two ways to walk a chain:
`fat16_follow_cluster_chain`, which the cursors use, and `struct fat_cluster_chain`.

* `cluster_numbering`: a cluster has sectors of its own, and each of them gives back the cluster;
* `cluster_address_iff`: the address of a byte of a cluster is right exactly below 4 GiB;
* `chainNexts_eq`: what the second walker has after `k` steps;
* `walkers_agree_iff`: the walkers agree at every depth exactly if the chain does not run on
  through entry 0 and its end mark is 0xFFF8.
-/

namespace AvocadOS

set_option linter.style.nameCheck false

section Address

variable {disk : Disk} {p : FatPrivate} {c offset : Nat}

/-- The sectors of a cluster. -/
def clusterSectors (p : FatPrivate) (c : Nat) : List Nat :=
  List.range' (fat16ClusterNumberToDataSector p c) p.header.sectorsPerCluster

/-- The numbers of clusters and those of sectors. -/
structure Numbering (p : FatPrivate) : Prop where
  /-- Every sector of a cluster, the first one included, is that cluster's, for the driver. -/
  inverse : ∀ c, 2 ≤ c → c < 2 ^ 16 → fat16ClusterNumberToDataSector p c ∈ clusterSectors p c ∧
    ∀ sector ∈ clusterSectors p c, sector < 2 ^ 32 ∧
      ∀ s, fat16SectorToClusterNumber p sector s = .ok (c, s)
  disjoint : ∀ c c', 2 ≤ c → c < 2 ^ 16 → 2 ≤ c' → c' < 2 ^ 16 → c ≠ c' →
    (clusterSectors p c).Disjoint (clusterSectors p c')
  adjacent : ∀ c, 2 ≤ c → c + 1 < 2 ^ 16 → fat16ClusterNumberToDataSector p (c + 1) =
    fat16ClusterNumberToDataSector p c + p.header.sectorsPerCluster

theorem sectorToClusterNumber_eq (hf : p.Fields) (h2 : 2 ≤ c) (hlt : c < 2 ^ 16) {sector : Nat}
    (hsector : sector ∈ clusterSectors p c) (s : DiskStream) :
    fat16SectorToClusterNumber p sector s = .ok (c, s) := by
  rw [clusterSectors, List.mem_range'_1] at hsector
  obtain ⟨j, rfl⟩ := Nat.exists_eq_add_of_le hsector.1
  have hj : j < p.header.sectorsPerCluster := by omega
  rw [fat16SectorToClusterNumber, if_neg (by omega), cluster_of_sector hf h2 hlt hj]
  rfl

/-- On an accepted volume, with at least one sector in a cluster. -/
theorem cluster_numbering {kzallocOk : Nat → Bool} (hp : fat16Probe kzallocOk disk = .ok (.ok p))
    (hspc : 1 ≤ p.header.sectorsPerCluster) : Numbering p := by
  have hf := fat16Probe_fields hp
  refine ⟨fun c h2 hlt => ⟨?_, fun sector hsector => ⟨?_, sectorToClusterNumber_eq hf h2 hlt hsector⟩⟩,
    fun c c' h2 hlt h2' hlt' hne sector hsector hsector' => ?_, fun c h2 hlt => ?_⟩
  · rw [clusterSectors, List.mem_range'_1]
    omega
  · have hmul := Nat.mul_lt_mul'' (show c - 2 < 2 ^ 16 by omega) hf.sectorsPerCluster
    have hdata := hf.dataSector
    have hwidth := hf.sectorsPerCluster
    rw [clusterSectors, List.mem_range'_1, clusterNumberToDataSector_eq hf h2 hlt] at hsector
    omega
  · -- a sector in both would be of two clusters
    have h₁ := sectorToClusterNumber_eq hf h2 hlt hsector ⟨disk, 0, []⟩
    have h₂ := sectorToClusterNumber_eq hf h2' hlt' hsector' ⟨disk, 0, []⟩
    exact hne (congrArg Prod.fst (Except.ok.inj (h₁.symm.trans h₂)))
  · rw [clusterNumberToDataSector_eq hf h2 (by omega), clusterNumberToDataSector_eq hf (by omega) hlt,
      show c + 1 - 2 = c - 2 + 1 by omega, Nat.add_mul, Nat.one_mul, Nat.add_assoc]

/-- The driver's addresses for byte `offset` of a cluster: that of the cluster, and that of any
descriptor there. -/
structure AddressExact (p : FatPrivate) (c offset : Nat) : Prop where
  cluster : fat16ClusterNumberToDataAddress p c + offset = clusterAddr p c + offset
  descriptor : ∀ d : FatDescriptor,
    d.currentClusterFirstSector = fat16ClusterNumberToDataSector p c → d.relativePos = offset →
    __fat16DescriptorToAbsoluteAddress p d = clusterAddr p c + offset

/-- The byte address of a cluster, with its wrap. -/
theorem clusterNumberToDataAddress_eq (hf : p.Fields) (h2 : 2 ≤ c) (hlt : c < 2 ^ 16) :
    fat16ClusterNumberToDataAddress p c = u32 (clusterAddr p c) := by
  rw [fat16ClusterNumberToDataAddress, clusterNumberToDataSector_eq hf h2 hlt, clusterAddr]

theorem descriptorToAbsoluteAddress_eq (hf : p.Fields) (h2 : 2 ≤ c) (hlt : c < 2 ^ 16)
    {d : FatDescriptor} (hsec : d.currentClusterFirstSector = fat16ClusterNumberToDataSector p c) :
    __fat16DescriptorToAbsoluteAddress p d = u32 (clusterAddr p c + d.relativePos) := by
  rw [__fat16DescriptorToAbsoluteAddress, hsec, clusterNumberToDataSector_eq hf h2 hlt, ← clusterAddr]
  unfold u32
  omega

/-- On an accepted volume with sectors of 512 bytes, the address of a byte of a data cluster is
exact, if and only if it is below 4 GiB. -/
theorem cluster_address_iff {kzallocOk : Nat → Bool} (hp : fat16Probe kzallocOk disk = .ok (.ok p))
    (hbps : p.header.bytesPerSector = 512) (h2 : 2 ≤ c) (hc : c ≤ 0xFFEF) :
    AddressExact p c offset ↔
      (p.dataSector + (c - 2) * p.header.sectorsPerCluster) * 512 + offset < 2 ^ 32 := by
  have hf := fat16Probe_fields hp
  have hlt : c < 2 ^ 16 := by omega
  have hbase : clusterAddr p c = (p.dataSector + (c - 2) * p.header.sectorsPerCluster) * 512 := by
    rw [clusterAddr, hbps]
  rw [← hbase]
  constructor
  · intro h
    -- a descriptor at that byte
    let d : FatDescriptor :=
      { __fat16Open p p.rootDirectory with
        relativePos := offset
        currentClusterFirstSector := fat16ClusterNumberToDataSector p c }
    have hexact := h.descriptor d rfl rfl
    rw [← hexact]
    exact Nat.mod_lt _ (by decide)
  · intro hfits
    refine ⟨?_, fun d hsec hrel => ?_⟩
    · rw [clusterNumberToDataAddress_eq hf h2 hlt, u32, Nat.mod_eq_of_lt (by omega)]
    · rw [descriptorToAbsoluteAddress_eq hf h2 hlt hsec, hrel]
      exact Nat.mod_eq_of_lt hfits

/-! A volume with 4096 reserved sectors. -/

def bigDisk (sectorsPerCluster : Byte) : Disk where
  bytes a :=
    if 54 ≤ a ∧ a < 62 then charAt FAT16_SYSTEM_ID (a - 54)
    else if a = 12 then 2                  -- 512 bytes per sector
    else if a = 13 then sectorsPerCluster
    else if a = 15 then 16                 -- times 256 reserved sectors
    else if a = 16 then 2                  -- two FATs of 256 sectors
    else if a = 23 then 1
    else if a = 18 then 2                  -- 512 root directory entries
    else if a = 38 then 0x29
    else 0

def bigVolume (sectorsPerCluster : Byte) : FatPrivate :=
  .ofHeader (.ofBytes ((bigDisk sectorsPerCluster).slice 0 FAT_HEADER_SIZE))

/-- With one sector per cluster, the last data cluster is below 4 GiB. -/
theorem cluster_address_iff_small :
    (bigVolume 1).dataSector = 4640 ∧ AddressExact (bigVolume 1) 0xFFEF 511 :=
  ⟨by decide, (@cluster_address_iff (bigDisk 1) _ _ _ (fun _ => true)
    (fat16Probe_accepts (by decide) (by decide) (by decide)) (by decide) (by decide)
    (by decide)).mpr (by decide)⟩

/-- With clusters of four sectors. -/
theorem cluster_numbering_four_sectors : (bigVolume 4).header.sectorsPerCluster = 4 ∧
    Numbering (bigVolume 4) :=
  ⟨by decide, @cluster_numbering (bigDisk 4) _ (fun _ => true)
    (fat16Probe_accepts (by decide) (by decide) (by decide)) (by decide)⟩

/-- With 128 of them, the address of cluster 0xFFEF wraps. -/
theorem cluster_address_wraps :
    ¬ ∀ (disk : Disk) (p : FatPrivate), fat16Probe (fun _ => true) disk = .ok (.ok p) →
      p.header.bytesPerSector = 512 → 1 ≤ p.header.sectorsPerCluster → ∀ c offset : Nat, 2 ≤ c →
      c ≤ 0xFFEF → offset < p.bytesPerCluster → AddressExact p c offset := by
  intro h
  have hexact := h (bigDisk 128) (bigVolume 128) (fat16Probe_accepts (by decide) (by decide)
    (by decide)) (by decide) (by decide) 0xFFEF 0 (by decide) (by decide) (by decide)
  exact absurd hexact.cluster (by decide)

end Address

/-! ## The two walkers -/

section Walkers

variable {disk : Disk} {p : FatPrivate} {start : Nat}

/-- `k` calls of `fat16_cluster_chain_next`. -/
def chainNexts (p : FatPrivate) (chain : FatClusterChain) : Nat → DevM FatClusterChain
  | 0 => pure chain
  | k + 1 => do
    let chain ← chainNexts p chain k
    fat16ClusterChainNext p chain

/-- After `k` steps the walkers have the same value, `is_over` holds exactly at an end mark, and
`ok` fails exactly at the two reserved values. -/
def WalkersAgree (disk : Disk) (p : FatPrivate) (start k : Nat) : Prop :=
  ∃ chain v, Gives disk (chainNexts p (fat16ClusterChainInit start) k) (· = chain) ∧
    Gives disk (fat16FollowClusterChain p start k) (· = v) ∧ chain.current = v ∧
    (fat16ClusterChainIsOver chain = true ↔ 0xFFF8 ≤ v ∧ v ≤ 0xFFFF) ∧
    (fat16ClusterChainOk chain = false ↔ v = 0xFFF6 ∨ v = 0xFFF7)

/-- The FAT entries on the way from `start`: 0 and the values from 0xFFF6 on have no successor. -/
inductive OnChain (disk : Disk) (p : FatPrivate) (start : Nat) : Nat → Prop
  | start : OnChain disk p start start
  | next {c : Nat} : OnChain disk p start c → c ≠ 0 → c < FAT16_CLUSTER_RESERVED →
      OnChain disk p start (fatNext disk p c)

/-- The value of the second walker after `k` steps. -/
def chainAt (disk : Disk) (p : FatPrivate) (start : Nat) : Nat → Nat
  | 0 => start
  | k + 1 =>
    if chainAt disk p start k < FAT16_CLUSTER_RESERVED then fatNext disk p (chainAt disk p start k)
    else chainAt disk p start k

theorem chainNexts_eq (hf : p.Fields) (k : Nat) : ∃ chain : FatClusterChain,
    Gives disk (chainNexts p (fat16ClusterChainInit start) k) (· = chain) ∧
      chain.current = chainAt disk p start k := by
  induction k with
  | zero => exact ⟨_, .pure rfl, rfl⟩
  | succ k ih =>
    obtain ⟨chain, hrun, hcur⟩ := ih
    rw [chainAt, ← hcur]
    by_cases hlt : chain.current < FAT16_CLUSTER_RESERVED
    · rw [if_pos hlt]
      refine ⟨{ chain with previous := chain.current, current := fatNext disk p chain.current },
        hrun.bind ?_, rfl⟩
      rintro _ rfl
      unfold FAT16_CLUSTER_RESERVED at hlt
      unfold fat16ClusterChainNext FAT16_CLUSTER_RESERVED FAT16_CLUSTER_BAD_OR_RESERVED
        FAT16_CLUSTER_CHAIN_END_BEGIN
      rw [if_neg (by omega)]
      refine (readFat_eq hf (by unfold FAT16_CLUSTER_CHAIN_END_BEGIN; omega)).bind ?_
      rintro _ rfl
      exact .pure rfl
    · rw [if_neg hlt]
      refine ⟨chain, hrun.bind ?_, rfl⟩
      rintro _ rfl
      unfold FAT16_CLUSTER_RESERVED at hlt
      unfold fat16ClusterChainNext FAT16_CLUSTER_RESERVED FAT16_CLUSTER_BAD_OR_RESERVED
        FAT16_CLUSTER_CHAIN_END_BEGIN
      rw [if_pos (by omega)]
      exact .pure rfl

/-- Values behind which the first walker goes on. -/
def GoesOn (c : Nat) : Prop := c ≠ 0 ∧ c < FAT16_CLUSTER_RESERVED

/-- The first link of the first walker. -/
theorem walk_cons {c : Nat} (hc : GoesOn c) (k : Nat) :
    (GoesOn (fatNext disk p c) → walk disk p (k + 1) c = walk disk p k (fatNext disk p c)) ∧
      (¬ GoesOn (fatNext disk p c) → walk disk p (k + 1) c = fatNext disk p c) := by
  unfold GoesOn FAT16_CLUSTER_RESERVED at *
  rw [walk]
  unfold FAT16_CLUSTER_RESERVED FAT16_CLUSTER_BAD_OR_RESERVED
  dsimp only
  rw [if_pos (by unfold FAT16_CLUSTER_CHAIN_END_BEGIN; omega)]
  constructor
  · intro hnext
    rw [if_neg (by omega)]
  · intro hnext
    split
    · rfl
    · -- an end mark
      cases k with
      | zero => rfl
      | succ k => rw [walk, if_neg (by unfold FAT16_CLUSTER_CHAIN_END_BEGIN; omega)]

/-- One more link at the end. -/
theorem walk_succ (k : Nat) : ∀ {c : Nat}, GoesOn c →
    (GoesOn (walk disk p k c) → walk disk p (k + 1) c = fatNext disk p (walk disk p k c)) ∧
      (¬ GoesOn (walk disk p k c) → walk disk p (k + 1) c = walk disk p k c) := by
  induction k with
  | zero =>
    intro c hc
    obtain ⟨hon, hoff⟩ := @walk_cons disk p c hc 0
    refine ⟨fun _ => ?_, fun h => absurd hc h⟩
    by_cases hnext : GoesOn (fatNext disk p c)
    · exact hon hnext
    · exact hoff hnext
  | succ k ih =>
    intro c hc
    by_cases hnext : GoesOn (fatNext disk p c)
    · rw [(walk_cons hc k).1 hnext, (walk_cons hc (k + 1)).1 hnext]
      exact ih hnext
    · rw [(walk_cons hc k).2 hnext, (walk_cons hc (k + 1)).2 hnext]
      exact ⟨fun h => absurd h hnext, fun _ => rfl⟩

variable (hstart : GoesOn start)

include hstart

theorem onChain_iff_walk {v : Nat} : OnChain disk p start v ↔ ∃ k, walk disk p k start = v := by
  constructor
  · intro h
    induction h with
    | start => exact ⟨0, rfl⟩
    | next _ h₀ hlt ih =>
      obtain ⟨k, rfl⟩ := ih
      exact ⟨k + 1, (walk_succ k hstart).1 ⟨h₀, hlt⟩⟩
  · rintro ⟨k, rfl⟩
    induction k with
    | zero => exact .start
    | succ k ih =>
      by_cases hgo : GoesOn (walk disk p k start)
      · rw [(walk_succ k hstart).1 hgo]
        exact .next ih hgo.1 hgo.2
      · rw [(walk_succ k hstart).2 hgo]
        exact ih

/-- The second walker runs on through 0, so it stays with the first one if entry 0 is 0. -/
theorem chainAt_eq_walk_iff : (∀ k, chainAt disk p start k = walk disk p k start) ↔
    (OnChain disk p start 0 → fatNext disk p 0 = 0) := by
  constructor
  · intro h hzero
    obtain ⟨k, hk⟩ := (onChain_iff_walk hstart).mp hzero
    have hstay := (walk_succ k hstart).2 (by rw [hk]; exact fun h => h.1 rfl)
    have hnext := h (k + 1)
    rw [chainAt, h k, hk, if_pos (by decide), hstay, hk] at hnext
    exact hnext
  · intro hzero k
    induction k with
    | zero => rfl
    | succ k ih =>
      rw [chainAt, ih]
      by_cases hgo : GoesOn (walk disk p k start)
      · rw [(walk_succ k hstart).1 hgo, if_pos hgo.2]
      · rw [(walk_succ k hstart).2 hgo]
        split
        · rename_i hlt
          have h₀ : walk disk p k start = 0 := by_contra fun h₀ => hgo ⟨h₀, hlt⟩
          rw [h₀]
          exact hzero ((onChain_iff_walk hstart).mpr ⟨k, h₀⟩)
        · rfl

omit hstart in
/-- What agreement means for the values. -/
theorem walkersAgree_iff (hf : p.Fields) (k : Nat) : WalkersAgree disk p start k ↔
    chainAt disk p start k = walk disk p k start ∧
      ¬ (0xFFF8 < walk disk p k start ∧ walk disk p k start ≤ 0xFFFF) := by
  obtain ⟨chain, hchain, hcur⟩ := @chainNexts_eq disk p start hf k
  have hwalk := @followClusterChain_eq disk p hf k start
  constructor
  · rintro ⟨chain', v, hchain', hwalk', hsame, hover, -⟩
    obtain rfl := hchain.unique hchain'
    obtain rfl := hwalk.unique hwalk'
    refine ⟨hcur.symm.trans hsame, fun ⟨hlt, hle⟩ => ?_⟩
    have := hover.mpr ⟨Nat.le_of_lt hlt, hle⟩
    rw [fat16ClusterChainIsOver, hsame, beq_iff_eq, FAT16_CLUSTER_CHAIN_END_BEGIN] at this
    omega
  · rintro ⟨hsame, hmark⟩
    refine ⟨chain, _, hchain, hwalk, hcur.trans hsame, ?_, ?_⟩
    · rw [fat16ClusterChainIsOver, hcur, hsame, beq_iff_eq, FAT16_CLUSTER_CHAIN_END_BEGIN]
      omega
    · rw [fat16ClusterChainOk, hcur, hsame, FAT16_CLUSTER_BAD_OR_RESERVED, FAT16_CLUSTER_RESERVED]
      simp only [bne, Bool.and_eq_false_iff, Bool.not_eq_false', beq_iff_eq]
      exact or_comm

omit hstart in
/-- On an accepted volume, the two walkers agree at every depth of the chain from `start`, if and
only if no link on the way is 0xFFF9 or above, and the entry of 0 is 0 if 0 is one of them. -/
theorem walkers_agree_iff {kzallocOk : Nat → Bool}
    (hp : fat16Probe kzallocOk disk = .ok (.ok p)) (h2 : 2 ≤ start) (hle : start ≤ 0xFFEF) :
    (∀ k, WalkersAgree disk p start k) ↔
      (∀ v, OnChain disk p start v → ¬ (0xFFF9 ≤ v ∧ v ≤ 0xFFFF)) ∧
        (OnChain disk p start 0 → fatNext disk p 0 = 0) := by
  have hf := fat16Probe_fields hp
  have hstart : GoesOn start := ⟨by omega, by unfold FAT16_CLUSTER_RESERVED; omega⟩
  simp only [walkersAgree_iff hf, forall_and, chainAt_eq_walk_iff hstart, onChain_iff_walk hstart]
  rw [and_comm]
  refine and_congr ⟨?_, ?_⟩ Iff.rfl
  · rintro h v ⟨k, rfl⟩
    exact h k
  · exact fun h k => h _ ⟨k, rfl⟩

end Walkers

open CorruptFile (linkDisk linkVolume)

/-- A chain of one cluster with the end mark 0xFFF8. -/
theorem walkers_agree_iff_one_cluster :
    fatNext (linkDisk 0xF8 0xFF) (linkVolume 0xF8 0xFF) 2 = 0xFFF8 ∧
      ∀ k, WalkersAgree (linkDisk 0xF8 0xFF) (linkVolume 0xF8 0xFF) 2 k := by
  have hnext : fatNext (linkDisk 0xF8 0xFF) (linkVolume 0xF8 0xFF) 2 = 0xFFF8 := by decide
  have hchain : ∀ v, OnChain (linkDisk 0xF8 0xFF) (linkVolume 0xF8 0xFF) 2 v →
      v = 2 ∨ v = 0xFFF8 := by
    intro v h
    induction h with
    | start => exact .inl rfl
    | next _ _ hlt ih =>
      rcases ih with rfl | rfl
      · exact .inr hnext
      · exact absurd hlt (by decide)
  have hp : fat16Probe (fun _ => true) (linkDisk 0xF8 0xFF) = .ok (.ok (linkVolume 0xF8 0xFF)) :=
    fat16Probe_accepts (by decide) (by decide) (by decide)
  refine ⟨hnext, (walkers_agree_iff hp (by decide) (by decide)).mpr ⟨fun v hv => ?_, fun h => ?_⟩⟩
  · have := hchain v hv
    omega
  · have := hchain 0 h
    omega

/-- The end mark 0xFFFF ends both walks, and `fat16_cluster_chain_is_over` misses it. -/
theorem end_mark_not_over :
    ¬ ∀ (disk : Disk) (p : FatPrivate), fat16Probe (fun _ => true) disk = .ok (.ok p) →
      ∀ start k : Nat, 2 ≤ start → start ≤ 0xFFEF → WalkersAgree disk p start k := by
  intro h
  have hp : fat16Probe (fun _ => true) (linkDisk 0xFF 0xFF) = .ok (.ok (linkVolume 0xFF 0xFF)) :=
    fat16Probe_accepts (by decide) (by decide) (by decide)
  have hagree := h _ _ hp 2 1 (by decide) (by decide)
  exact absurd ((walkersAgree_iff (fat16Probe_fields hp) 1).mp hagree).2 (by decide)

end AvocadOS
