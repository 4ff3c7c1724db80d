import AvocadOS.Fat16.Model
import Mathlib.Data.List.GetD
import Mathlib.Tactic.SplitIfs

/-!
# Cluster chains

A `RegularFile` is a directory entry with the chain of its clusters in the FAT. Its content is the
concatenation of the clusters, cut at `size_bytes`. The addresses of its clusters and of their FAT
entries fit in 32 bits, so the driver's arithmetic does not wrap on them.

* `follow_chain`: `fat16_follow_cluster_chain` walks along the chain and stops at its end mark;
* `adjust_cursors`: `__fat16_adjust_cursors` moves a descriptor to the cluster of its position;
* `data_take`: bytes of the file that lie in one cluster.
-/

namespace AvocadOS

/-- The FAT entry of a cluster. -/
def fatNext (disk : Disk) (p : FatPrivate) (cluster : Nat) : Nat :=
  le16 (disk.slice (p.header.reservedSectors * p.header.bytesPerSector + cluster * 2) 2) 0

/-- The first byte of a cluster. -/
def clusterAddr (p : FatPrivate) (cluster : Nat) : Nat :=
  (p.dataSector + (cluster - 2) * p.header.sectorsPerCluster) * p.header.bytesPerSector

/-- A regular file in the directory `dir`, with its chain. -/
structure RegularFile (disk : Disk) (p : FatPrivate) where
  dir : FatItem
  entry : FatEntry
  dirPos : Nat
  clusters : List Nat
  regular : FAT16_FILE_SUBDIRECTORY &&& entry.attributes = 0
  /-- The entry names the first cluster, or 0 if there is none. -/
  first : entry.low16BitsFirstCluster = clusters.headD 0
  data : ∀ c ∈ clusters, 2 ≤ c ∧ c < FAT16_CLUSTER_RESERVED
  link : ∀ i c c', clusters[i]? = some c → clusters[i + 1]? = some c' → fatNext disk p c = c'
  last : ∀ i c, clusters[i]? = some c → clusters[i + 1]? = none →
    FAT16_CLUSTER_CHAIN_END_BEGIN ≤ fatNext disk p c
  covers : entry.sizeBytes ≤ clusters.length * p.bytesPerCluster
  size_lt : entry.sizeBytes < 2 ^ 31
  fat_fits : ∀ c ∈ clusters,
    p.header.reservedSectors * p.header.bytesPerSector + c * 2 + 2 ≤ 2 ^ 32
  data_fits : ∀ c ∈ clusters, clusterAddr p c + p.bytesPerCluster ≤ 2 ^ 32

theorem le16_lt (bs : List Byte) (i : Nat) : le16 bs i < 2 ^ 16 := by
  have h₁ := (charAt bs i).isLt
  have h₂ := (charAt bs (i + 1)).isLt
  unfold le16
  omega

/-- What `fat16_probe` establishes about the volume. -/
structure FatPrivate.Geometry (p : FatPrivate) : Prop where
  bytesPerSector_pos : 0 < p.header.bytesPerSector
  bytesPerCluster : p.bytesPerCluster = p.header.bytesPerSector * p.header.sectorsPerCluster
  bytesPerCluster_lt : p.bytesPerCluster < 2 ^ 24

theorem FatPrivate.Geometry.bytesPerCluster_pos {p : FatPrivate} (hg : p.Geometry)
    (hs : p.header.sectorsPerCluster ≠ 0) : 0 < p.bytesPerCluster := by
  rw [hg.bytesPerCluster]
  exact Nat.mul_pos hg.bytesPerSector_pos (Nat.pos_of_ne_zero hs)

/-- The header of an accepted volume is the first bytes of its disk. -/
theorem fat16Probe_eq {ok : Nat → Bool} {disk : Disk} {p : FatPrivate}
    (h : fat16Probe ok disk = .ok (.ok p)) :
    p = .ofHeader (.ofBytes (disk.slice 0 FAT_HEADER_SIZE)) ∧ 0 < p.header.bytesPerSector := by
  have hread := diskstreamRead_eq ⟨disk, 0, []⟩ FAT_HEADER_SIZE
  simp only [fat16Probe, hread, Bind.bind, Except.bind, Pure.pure, Except.pure, throw, throwThe,
    MonadExceptOf.throw] at h
  split_ifs at h with h₀ h₁ h₂ h₃ h₄ hbps h₆
  all_goals cases h
  exact ⟨rfl, Nat.pos_of_ne_zero hbps⟩

/-- A volume with the signature, the system id and sectors of at least one byte is accepted. -/
theorem fat16Probe_accepts {disk : Disk}
    (hsig : (FatHeader.ofBytes (disk.slice 0 FAT_HEADER_SIZE)).signature = FAT16_SIGNATURE)
    (hid : strncmp (FatHeader.ofBytes (disk.slice 0 FAT_HEADER_SIZE)).systemIdString
      FAT16_SYSTEM_ID FAT16_SYSTEM_ID_LEN = 0)
    (hbps : (FatHeader.ofBytes (disk.slice 0 FAT_HEADER_SIZE)).bytesPerSector ≠ 0) :
    fat16Probe (fun _ => true) disk =
      .ok (.ok (.ofHeader (.ofBytes (disk.slice 0 FAT_HEADER_SIZE)))) := by
  have hread := diskstreamRead_eq ⟨disk, 0, []⟩ FAT_HEADER_SIZE
  simp only [fat16Probe, hread, Bind.bind, Except.bind, Pure.pure, Except.pure, throw, throwThe,
    MonadExceptOf.throw, hsig, hid, hbps, Bool.not_true, Bool.false_eq_true, if_false, ne_eq,
    not_true_eq_false]
  rw [if_neg (by decide)]

theorem fat16Probe_geometry {ok : Nat → Bool} {disk : Disk} {p : FatPrivate}
    (h : fat16Probe ok disk = .ok (.ok p)) : p.Geometry := by
  obtain ⟨rfl, hpos⟩ := fat16Probe_eq h
  refine ⟨hpos, rfl, ?_⟩
  have hbps := le16_lt (disk.slice 0 FAT_HEADER_SIZE) 11
  have hspc := (charAt (disk.slice 0 FAT_HEADER_SIZE) 13).isLt
  have := Nat.mul_lt_mul'' hbps hspc
  simp only [FatPrivate.ofHeader, FatHeader.ofBytes]
  omega

/-! ## Items of regular files -/

section Item

variable {p : FatPrivate} {dir : FatItem} {entry : FatEntry} {dirPos : Nat}
  (h : FAT16_FILE_SUBDIRECTORY &&& entry.attributes = 0)

include h

theorem ofEntry_type : (FatItem.ofEntry p dir entry dirPos).type = .file := by
  simp [FatItem.ofEntry, h]

theorem ofEntry_not_root : fat16ItemIsRootDir p (.ofEntry p dir entry dirPos) = false := by
  simp [fat16ItemIsRootDir, ofEntry_type h]

/-- `__fat16_open` keeps the item. -/
theorem open_ofEntry :
    (__fat16Open p (.ofEntry p dir entry dirPos)).item = .ofEntry p dir entry dirPos := by
  have hattr : (FatItem.ofEntry p dir entry dirPos).entry.attributes &&& FAT16_FILE_SUBDIRECTORY = 0 := by
    rw [BitVec.and_comm]; exact h
  simp only [__fat16Open, ofEntry_not_root h, hattr, __fat16ResetCursors, Bool.false_eq_true,
    if_false, ne_eq, not_true_eq_false]
  rw [← @ofEntry_type p dir entry dirPos h]

end Item

namespace RegularFile

variable {disk : Disk} {p : FatPrivate} (f : RegularFile disk p)

/-- The item that `fat16_find_entry_in_dir` makes of the entry. -/
def item : FatItem := .ofEntry p f.dir f.entry f.dirPos

/-- The bytes of the clusters in chain order. -/
def chainBytes : List Byte := f.clusters.flatMap fun c => disk.slice (clusterAddr p c) p.bytesPerCluster

def content : List Byte := f.chainBytes.take f.entry.sizeBytes

theorem chainBytes_length : f.chainBytes.length = f.clusters.length * p.bytesPerCluster := by
  simp [chainBytes, List.length_flatMap, List.map_const']

theorem content_length : f.content.length = f.entry.sizeBytes := by
  rw [content, List.length_take, chainBytes_length]
  exact Nat.min_eq_left f.covers

variable {f} {i c : Nat}

/-- Bytes of the file that lie in the `i`-th cluster. -/
theorem chainBytes_take {r m : Nat} (hc : f.clusters[i]? = some c)
    (hm : r + m ≤ p.bytesPerCluster) :
    (f.chainBytes.drop (i * p.bytesPerCluster + r)).take m =
      disk.slice (clusterAddr p c + r) m := by
  obtain ⟨hi, hc⟩ := List.getElem?_eq_some_iff.mp hc
  have hsplit : f.clusters = f.clusters.take i ++ c :: f.clusters.drop (i + 1) := by
    rw [← hc, List.getElem_cons_drop, List.take_append_drop]
  have hpre : ((f.clusters.take i).flatMap fun c =>
      disk.slice (clusterAddr p c) p.bytesPerCluster).length = i * p.bytesPerCluster := by
    simp [List.length_flatMap, List.map_const', Nat.min_eq_left (Nat.le_of_lt hi)]
  have hslice : disk.slice (clusterAddr p c) p.bytesPerCluster =
      disk.slice (clusterAddr p c) r ++ (disk.slice (clusterAddr p c + r) m ++
        disk.slice (clusterAddr p c + r + m) (p.bytesPerCluster - (r + m))) := by
    rw [← Disk.slice_add, ← Disk.slice_add]
    congr 1
    omega
  rw [chainBytes, hsplit, List.flatMap_append, List.flatMap_cons, hslice, ← List.drop_drop,
    List.drop_left' hpre]
  simp only [List.append_assoc]
  rw [List.drop_left' (Disk.slice_length _ _), List.take_left' (Disk.slice_length _ _)]

theorem mem_of_get (hc : f.clusters[i]? = some c) : c ∈ f.clusters := List.mem_of_getElem? hc

/-! ## Walking the chain -/

theorem follow_end {v : Nat} (h : FAT16_CLUSTER_CHAIN_END_BEGIN ≤ v) (n : Nat) :
    fat16FollowClusterChain p v n = pure v := by
  cases n with
  | zero => rfl
  | succ n => rw [fat16FollowClusterChain, if_neg (by omega)]

/-- `fat16_read_fat` of a cluster of the file. -/
theorem read_fat (hc : c ∈ f.clusters) : Gives disk (fat16ReadFat p c) (· = fatNext disk p c) := by
  obtain ⟨-, hlt⟩ := f.data c hc
  have hfits := f.fat_fits c hc
  unfold fat16ReadFat
  rw [if_neg (by unfold FAT16_CLUSTER_CHAIN_END_BEGIN; unfold FAT16_CLUSTER_RESERVED at hlt; omega)]
  refine .read _ 2 (.pure ?_)
  rw [u32, Nat.mod_eq_of_lt (by omega)]
  rfl

/-- The value `n` links behind the `i`-th cluster is the cluster there, or an end mark. -/
theorem follow_chain (n : Nat) : ∀ {i c : Nat}, f.clusters[i]? = some c →
    Gives disk (fat16FollowClusterChain p c n) fun v =>
      (∀ c', f.clusters[i + n]? = some c' → v = c') ∧
        (f.clusters[i + n]? = none → FAT16_CLUSTER_CHAIN_END_BEGIN ≤ v) := by
  induction n with
  | zero =>
    intro i c hc
    exact .pure ⟨fun c' hc' => Option.some.inj (hc.symm.trans hc'), fun h => by simp_all⟩
  | succ n ih =>
    intro i c hc
    have hmem := mem_of_get hc
    obtain ⟨-, hlt⟩ := f.data c hmem
    unfold fat16FollowClusterChain
    unfold FAT16_CLUSTER_CHAIN_END_BEGIN FAT16_CLUSTER_RESERVED FAT16_CLUSTER_BAD_OR_RESERVED at *
    rw [if_pos (by omega)]
    refine (read_fat hmem).bind ?_
    rintro v rfl
    cases hnext : f.clusters[i + 1]? with
    | some c' =>
      obtain ⟨h₂, hlt'⟩ := f.data c' (mem_of_get hnext)
      unfold FAT16_CLUSTER_RESERVED at hlt'
      rw [f.link i c c' hc hnext, if_neg (by omega), show i + (n + 1) = i + 1 + n by omega]
      exact ih hnext
    | none =>
      have hend := f.last i c hc hnext
      unfold FAT16_CLUSTER_CHAIN_END_BEGIN at hend
      have hnone : f.clusters[i + (n + 1)]? = none := by
        rw [List.getElem?_eq_none_iff] at hnext ⊢
        omega
      rw [if_neg (by omega), follow_end hend]
      exact .pure ⟨fun c' hc' => by simp_all, fun _ => hend⟩

/-! ## Cursors -/

@[simp] theorem item_entry : f.item.entry = f.entry := rfl

theorem not_root : fat16ItemIsRootDir p f.item = false := ofEntry_not_root f.regular

theorem open_item : (__fat16Open p f.item).item = f.item := open_ofEntry f.regular

/-- The cursors of `d` are those of the cluster of its position. -/
structure Ready (f : RegularFile disk p) (d : FatDescriptor) : Prop where
  item : d.item = f.item
  cursors : ∀ c, f.clusters[d.pos / p.bytesPerCluster]? = some c →
    d.relativePos = d.pos % p.bytesPerCluster ∧
      d.currentClusterFirstSector = p.dataSector + (c - 2) * p.header.sectorsPerCluster

/-- The sector numbers of a file's clusters do not wrap. -/
theorem sector_lt (hg : p.Geometry) (hs : p.header.sectorsPerCluster ≠ 0) (hc : c ∈ f.clusters) :
    p.dataSector + (c - 2) * p.header.sectorsPerCluster < 2 ^ 32 := by
  have hfits := f.data_fits c hc
  have hpos : 0 < p.bytesPerCluster := hg.bytesPerCluster_pos hs
  have hle : p.dataSector + (c - 2) * p.header.sectorsPerCluster ≤ clusterAddr p c :=
    Nat.le_mul_of_pos_right _ hg.bytesPerSector_pos
  omega

theorem data_sector (hg : p.Geometry) (hs : p.header.sectorsPerCluster ≠ 0) (hc : c ∈ f.clusters) :
    fat16ClusterNumberToDataSector p c =
      p.dataSector + (c - 2) * p.header.sectorsPerCluster := by
  have h2 := (f.data c hc).1
  rw [fat16ClusterNumberToDataSector, if_neg (by omega), u32, Nat.mod_eq_of_lt (sector_lt hg hs hc)]

/-- The driver recovers the first cluster from the first sector of the item. -/
theorem first_cluster (hg : p.Geometry) (hs : p.header.sectorsPerCluster ≠ 0)
    (hc : f.clusters[0]? = some c) :
    Gives disk (fat16SectorToClusterNumber p f.item.firstSector) (· = c) := by
  have hmem := mem_of_get hc
  have hfirst : f.entry.low16BitsFirstCluster = c := by
    rw [f.first, List.headD_eq_head?_getD, List.head?_eq_getElem?, hc]; rfl
  have hlt := sector_lt hg hs hmem
  obtain ⟨h2, hmax⟩ := f.data c hmem
  unfold fat16SectorToClusterNumber
  rw [if_neg hs, show f.item.firstSector = fat16ClusterNumberToDataSector p c by
    rw [← hfirst]; rfl, data_sector hg hs hmem]
  refine .pure ?_
  have hsub : sub32 (p.dataSector + (c - 2) * p.header.sectorsPerCluster) p.dataSector =
      (c - 2) * p.header.sectorsPerCluster := by
    unfold sub32 u32
    omega
  rw [hsub, Nat.mul_div_cancel _ (Nat.pos_of_ne_zero hs)]
  unfold FAT16_CLUSTER_RESERVED at hmax
  omega

/-- `__fat16_adjust_cursors` on a file with clusters: the cursors follow the position, and the
end of the chain is the end of the file. -/
theorem adjust_cursors {d : FatDescriptor} {offset : Int} (hg : p.Geometry)
    (hs : p.header.sectorsPerCluster ≠ 0) (hitem : d.item = f.item) (hne : f.clusters ≠ []) :
    Gives disk (__fat16AdjustCursors p d offset) fun (d', res) =>
      res = 0 ∧ d'.pos = asSizeT (d.pos + offset) ∧ f.Ready d' ∧
        (d'.eof = true ↔ d.eof = true ∨ f.clusters[d'.pos / p.bytesPerCluster]? = none) := by
  obtain ⟨c₀, cs, hcs⟩ := List.exists_cons_of_ne_nil hne
  have hc₀ : f.clusters[0]? = some c₀ := by rw [hcs]; rfl
  have hlow : f.entry.low16BitsFirstCluster = c₀ := by rw [f.first, hcs]; rfl
  have hdata₀ := (f.data c₀ (mem_of_get hc₀)).1
  have hbpc := hg.bytesPerCluster_pos hs
  simp only [__fat16AdjustCursors, hitem, not_root, Bool.false_eq_true, if_false,
    __fat16AdjustCursorsNonRoot, item_entry, hlow]
  rw [if_neg (by omega), if_neg (by omega)]
  generalize asSizeT (d.pos + offset) = pos
  refine (first_cluster hg hs hc₀).bind ?_
  rintro _ rfl
  refine (follow_chain _ hc₀).bind fun v hv => ?_
  rw [Nat.zero_add] at hv
  cases hget : f.clusters[pos / p.bytesPerCluster]? with
  | some c =>
    obtain rfl := hv.1 c hget
    have hmem := mem_of_get hget
    have hmax := (f.data v hmem).2
    unfold FAT16_CLUSTER_RESERVED at hmax
    unfold FAT16_CLUSTER_RESERVED FAT16_CLUSTER_BAD_OR_RESERVED FAT16_CLUSTER_CHAIN_END_BEGIN
    rw [if_neg (by omega), if_pos (by omega)]
    refine .pure ⟨rfl, rfl, ⟨rfl, fun c hc => ?_⟩, by simp [hget]⟩
    obtain rfl := Option.some.inj (hget.symm.trans hc)
    exact ⟨rfl, data_sector hg hs hmem⟩
  | none =>
    have hend := hv.2 hget
    unfold FAT16_CLUSTER_CHAIN_END_BEGIN at hend
    unfold FAT16_CLUSTER_RESERVED FAT16_CLUSTER_BAD_OR_RESERVED FAT16_CLUSTER_CHAIN_END_BEGIN
    rw [if_neg (by omega), if_neg (by omega)]
    refine .pure ⟨rfl, rfl, ⟨rfl, fun c hc => ?_⟩, by simp [hget]⟩
    simp only [hget, reduceCtorEq] at hc

end RegularFile

end AvocadOS
