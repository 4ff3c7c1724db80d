import AvocadOS.Fat16.Walk
import AvocadOS.Lib.Run
import Mathlib.Tactic.Ring

/-!
# Files with a corrupt chain

A `CorruptFile` is an entry whose chain runs into 0, 1 or one of the two reserved values before its
size is covered. `fat16ReadSources` is `fat16_read` with the addresses of the copied bytes in place
of the bytes, and a run is any sequence of calls, whatever happens to the shared stream between
them.

* `fat16Read_of_sources`: `fat16_read` copies the bytes at these addresses;
* `CorruptFile.walk_chain`: the driver follows the chain to the value that stops it;
* `CorruptFile.call_reserved`: one call on a chain that ends in a reserved value;
* `CorruptFile.call_byte`: one call for one byte, on any corrupt chain;
* `CorruptFile.reports_iff`: every run reports the corrupt link and copies from the data region
  only, exactly if the value is a reserved one and the clusters lie below 4 GiB.
-/

namespace AvocadOS

set_option linter.style.nameCheck false

section Sources

variable {disk : Disk} {p : FatPrivate}

/-- `fat16_read` with the addresses of the bytes in place of the bytes. -/
def fat16ReadSources (p : FatPrivate) (d : FatDescriptor) (size nmemb : Nat) :
    DevM (FatDescriptor × Nat × List Nat) := do
  let (d, res) ← __fat16AdjustCursors p d 0
  if res ≠ 0 then return (d, asSizeT res, [])
  if d.eof then return (d, 0, [])
  if d.item.entry.sizeBytes ≤ d.pos then return ({ d with eof := true }, 0, [])
  let len := min (u32 (size * nmemb)) (d.item.entry.sizeBytes - d.pos)
  let (d, res, out) ← sourcesLoop p len len d []
  let d := if d.item.entry.sizeBytes ≤ d.pos then { d with eof := true } else d
  return (d, asSizeT res, out)

/-- `fat16_read` copies the bytes at the addresses. -/
theorem fat16Read_of_sources {s : DiskStream} (hs : s.disk = disk) (d : FatDescriptor)
    (size nmemb : Nat) :
    fat16Read p d size nmemb s = (fat16ReadSources p d size nmemb s).map fun r =>
      ((r.1.1, r.1.2.1, r.1.2.2.map disk.bytes), r.2) := by
  simp only [fat16Read, fat16ReadSources, Bind.bind, StateT.bind, Except.bind]
  cases hadj : __fat16AdjustCursors p d 0 s with
  | error e => rfl
  | ok r =>
    obtain ⟨⟨d', res⟩, t⟩ := r
    have ht : t.disk = disk := ((blind_adjustCursors _ _).disk_eq hadj).trans hs
    dsimp only
    split
    · rfl
    split
    · rfl
    split
    · rfl
    simp only [Bind.bind, StateT.bind, Except.bind]
    have hread := @readLoop_of_sources disk p
      (min (u32 (size * nmemb)) (d'.item.entry.sizeBytes - d'.pos))
      (min (u32 (size * nmemb)) (d'.item.entry.sizeBytes - d'.pos)) d' [] t ht
    rw [__fat16Read, show ([] : List Byte) = ([] : List Nat).map disk.bytes from rfl, hread]
    cases sourcesLoop p _ _ d' [] t with
    | error e => rfl
    | ok r => rfl

/-- A call of `fat16_read` that delivers the first `stop` bytes from `pos` on. -/
theorem fat16ReadSources_upTo {item : FatItem} {d : FatDescriptor} {pos stop size nmemb : Nat}
    (hf : p.Fields) (hbpc : 0 < p.bytesPerCluster) (hlt : p.bytesPerCluster < 2 ^ 24)
    (hs : p.header.sectorsPerCluster ≠ 0) (hroot : fat16ItemIsRootDir p item = false)
    (hlow : item.entry.low16BitsFirstCluster ≠ 0) (hitem : d.item = item) (heof : d.eof = false)
    (hpos : d.pos = pos) (hin : pos < item.entry.sizeBytes)
    (hon : ¬ EndsChain (clusterAt disk p item pos)) (hstop₀ : 0 < stop)
    (hle : stop ≤ min (u32 (size * nmemb)) (item.entry.sizeBytes - pos))
    (hstop : stop = min (u32 (size * nmemb)) (item.entry.sizeBytes - pos) ∨
      (pos + stop) % p.bytesPerCluster = 0 ∧ EndsChain (clusterAt disk p item (pos + stop)))
    (hgood : ∀ q, pos < q → q < pos + stop → q % p.bytesPerCluster = 0 →
      ¬ EndsChain (clusterAt disk p item q)) :
    Gives disk (fat16ReadSources p d size nmemb) fun r => ∃ d₀ : FatDescriptor,
      d₀.item = item ∧ d₀.eof = false ∧
      r = (if item.entry.sizeBytes ≤ pos + stop then
          { (cursorsAt disk p d₀ (pos + stop)).1 with eof := true }
        else (cursorsAt disk p d₀ (pos + stop)).1,
        asSizeT (if (cursorsAt disk p d₀ (pos + stop)).2 ≠ 0 then
          (cursorsAt disk p d₀ (pos + stop)).2 else asInt stop),
        (List.range stop).map (sourceAt disk p item
          (u32 (u32 (fat16ClusterNumberToDataSector p (clusterAt disk p item pos) *
            p.header.bytesPerSector) + pos % p.bytesPerCluster)) pos)) := by
  have hsize := item.entry.sizeBytes_lt
  have hu : u32 (pos + stop) = pos + stop := Nat.mod_eq_of_lt (by omega)
  have hmove : asSizeT (d.pos + 0) = pos := by
    rw [hpos]; unfold asSizeT; omega
  subst hitem
  unfold fat16ReadSources
  refine (adjustCursors_eq hf hbpc hs hroot hlow 0).bind ?_
  rintro _ rfl
  rw [hmove, cursorsAt_on hon]
  simp only [ne_eq, not_true_eq_false, if_false, heof, Bool.false_eq_true,
    Nat.not_le_of_lt hin]
  have hloop := @sources_upTo disk p d.item
    (u32 (u32 (fat16ClusterNumberToDataSector p (clusterAt disk p d.item pos) *
      p.header.bytesPerSector) + pos % p.bytesPerCluster)) pos
    (min (u32 (size * nmemb)) (d.item.entry.sizeBytes - pos)) stop hf hbpc hlt hs hroot hlow hle
    (by omega) (by rw [hu]; exact hstop) hgood
    (min (u32 (size * nmemb)) (d.item.entry.sizeBytes - pos))
    { d with
      eof := false
      pos := pos
      relativePos := pos % p.bytesPerCluster
      currentClusterFirstSector :=
        fat16ClusterNumberToDataSector p (clusterAt disk p d.item pos) } [] hstop₀ (by simp)
    ⟨rfl, rfl, rfl, rfl, .inl ⟨rfl, rfl⟩⟩ rfl
  refine hloop.bind ?_
  rintro _ ⟨d₀, hitem₀, heof₀, rfl⟩
  rw [hu]
  refine .pure ⟨d₀, hitem₀, heof₀, ?_⟩
  simp only [cursorsAt_item, cursorsAt_pos, hitem₀]

end Sources

/-! ## Corrupt chains -/

/-- A regular file whose chain of data clusters runs into the value `last`, which is no data cluster
and no end mark, before `size_bytes` bytes are covered. -/
structure CorruptFile (disk : Disk) (p : FatPrivate) where
  dir : FatItem
  entry : FatEntry
  dirPos : Nat
  clusters : List Nat
  last : Nat
  regular : FAT16_FILE_SUBDIRECTORY &&& entry.attributes = 0
  first : (clusters ++ [last])[0]? = some entry.low16BitsFirstCluster
  first_ge : 2 ≤ entry.low16BitsFirstCluster
  data : ∀ c ∈ clusters, 2 ≤ c ∧ c < FAT16_CLUSTER_RESERVED
  link : ∀ i c c', (clusters ++ [last])[i]? = some c → (clusters ++ [last])[i + 1]? = some c' →
    fatNext disk p c = c'
  corrupt : last = 0 ∨ last = 1 ∨ last = FAT16_CLUSTER_RESERVED ∨
    last = FAT16_CLUSTER_BAD_OR_RESERVED
  short : clusters.length * p.bytesPerCluster < entry.sizeBytes

/-- The bytes of the data clusters. -/
def InDataRegion (p : FatPrivate) (a : Nat) : Prop :=
  p.dataSector * p.header.bytesPerSector ≤ a ∧ a < clusterAddr p FAT16_CLUSTER_RESERVED

/-- A call of `fat16_read` on a descriptor: what was asked for, what was returned and where the
copied bytes came from. -/
structure SourcedCall where
  size : Nat
  nmemb : Nat
  result : Nat
  sources : List Nat

/-- One call; the stream may be anywhere on the disk. -/
def ReadStep (disk : Disk) (p : FatPrivate) (d : FatDescriptor) (call : SourcedCall)
    (d' : FatDescriptor) : Prop :=
  ∃ s t : DiskStream, s.disk = disk ∧
    fat16ReadSources p d call.size call.nmemb s = .ok ((d', call.result, call.sources), t)

/-- The bytes that the calls have delivered. -/
def delivered (calls : List SourcedCall) : Nat := (calls.flatMap (·.sources)).length

namespace CorruptFile

variable {disk : Disk} {p : FatPrivate} (f : CorruptFile disk p)

/-- The item that `fat16_find_entry_in_dir` makes of the entry. -/
def item : FatItem := .ofEntry p f.dir f.entry f.dirPos

/-- The position of the corrupt link. -/
def point : Nat := f.clusters.length * p.bytesPerCluster

/-- A call behind `pos` delivered bytes has to go over the corrupt link. -/
def Reaches (pos size nmemb : Nat) : Prop :=
  f.point < pos + min (u32 (size * nmemb)) (f.entry.sizeBytes - pos)

/-- In every run of calls on the opened file, the next call returns, with a negative value if it
reaches the corrupt link, and what it copies comes from the data region. -/
def Reports : Prop :=
  ∀ calls d, Runs (ReadStep disk p) (__fat16Open p f.item) calls d →
    ∀ size nmemb, Gives disk (fat16ReadSources p d size nmemb) fun r =>
      (f.Reaches (delivered calls) size nmemb → asInt r.2.1 < 0) ∧ ∀ a ∈ r.2.2, InDataRegion p a

variable {f} {i c : Nat}

theorem get_data (hi : i < f.clusters.length) : ∃ c, (f.clusters ++ [f.last])[i]? = some c ∧
    c ∈ f.clusters := by
  refine ⟨f.clusters[i], ?_, List.getElem_mem hi⟩
  rw [List.getElem?_append_left hi, List.getElem?_eq_getElem hi]

theorem get_last : (f.clusters ++ [f.last])[f.clusters.length]? = some f.last := by simp

/-- The driver follows the chain to the value that stops it. -/
theorem walk_chain (n : Nat) : ∀ {i c : Nat}, (f.clusters ++ [f.last])[i]? = some c →
    i + n ≤ f.clusters.length →
    (f.clusters ++ [f.last])[i + n]? = some (walk disk p n c) := by
  induction n with
  | zero => intro i c hc _; exact hc
  | succ n ih =>
    intro i c hc hle
    obtain ⟨c₀, hc₀, hmem⟩ := f.get_data (show i < f.clusters.length by omega)
    obtain rfl : c = c₀ := Option.some.inj (hc.symm.trans hc₀)
    have hdata := f.data c hmem
    have hex : i + 1 < (f.clusters ++ [f.last]).length := by simp; omega
    have hnext := List.getElem?_eq_getElem hex
    generalize (f.clusters ++ [f.last])[i + 1] = c' at hnext
    rw [walk, f.link i c c' hc hnext, if_pos (by
      unfold FAT16_CLUSTER_RESERVED FAT16_CLUSTER_CHAIN_END_BEGIN at *; omega)]
    dsimp only
    split
    · -- only the value behind the data clusters breaks the loop
      rename_i hbreak
      have hlast : i + 1 = f.clusters.length := by
        refine Nat.le_antisymm (by omega) (Nat.le_of_not_lt fun hlt => ?_)
        obtain ⟨c₁, hc₁, hmem₁⟩ := f.get_data hlt
        obtain rfl : c' = c₁ := Option.some.inj (hnext.symm.trans hc₁)
        have := f.data c' hmem₁
        unfold FAT16_CLUSTER_RESERVED FAT16_CLUSTER_BAD_OR_RESERVED at *
        omega
      obtain rfl : n = 0 := by omega
      exact hnext
    · rw [show i + (n + 1) = i + 1 + n by omega]
      exact ih hnext (by omega)

section Calls

variable (hf : p.Fields) (hbpc : 0 < p.bytesPerCluster) (hlt : p.bytesPerCluster < 2 ^ 24)
  (hs : p.header.sectorsPerCluster ≠ 0)

include hf hs in
/-- The value of the chain for a position up to the corrupt link. -/
theorem get_clusterAt {pos : Nat} (hle : pos / p.bytesPerCluster ≤ f.clusters.length) :
    (f.clusters ++ [f.last])[pos / p.bytesPerCluster]? = some (clusterAt disk p f.item pos) := by
  have h := walk_chain (pos / p.bytesPerCluster) f.first (by omega)
  rw [Nat.zero_add] at h
  rw [h, clusterAt, item, firstCluster_ofEntry hf hs f.first_ge]

include hf hbpc hs in
/-- Before the corrupt link there are data clusters. -/
theorem clusterAt_mem {pos : Nat} (hpos : pos < f.point) :
    clusterAt disk p f.item pos ∈ f.clusters := by
  have hdiv : pos / p.bytesPerCluster < f.clusters.length :=
    (Nat.div_lt_iff_lt_mul hbpc).mpr hpos
  obtain ⟨c, hc, hmem⟩ := f.get_data hdiv
  have h := f.get_clusterAt hf hs (Nat.le_of_lt hdiv)
  rwa [Option.some.inj (h.symm.trans hc)]

include hf hbpc hs in
theorem clusterAt_point : clusterAt disk p f.item f.point = f.last := by
  have hdiv : f.point / p.bytesPerCluster = f.clusters.length := Nat.mul_div_cancel _ hbpc
  have h := @get_clusterAt disk p f hf hs f.point (Nat.le_of_eq hdiv)
  rw [hdiv, get_last] at h
  exact (Option.some.inj h).symm

theorem not_endsChain (hc : c ∈ f.clusters) : ¬ EndsChain c := by
  have := (f.data c hc).2
  unfold EndsChain
  omega

/-- A descriptor of the file, up to the corrupt link. -/
structure OpenAt (f : CorruptFile disk p) (d : FatDescriptor) (pos : Nat) : Prop where
  item_eq : d.item = f.item
  eof : d.eof = false
  pos_eq : d.pos = pos
  le : pos ≤ f.point

theorem openAt_open (f : CorruptFile disk p) : f.OpenAt (__fat16Open p f.item) 0 :=
  ⟨open_ofEntry f.regular, rfl, rfl, Nat.zero_le _⟩

/-- Where the bytes of a call from `pos` on come from. -/
def source (f : CorruptFile disk p) (pos i : Nat) : Nat :=
  sourceAt disk p f.item (u32 (u32 (fat16ClusterNumberToDataSector p
    (clusterAt disk p f.item pos) * p.header.bytesPerSector) + pos % p.bytesPerCluster)) pos i

theorem asInt_error_neg : asInt (asSizeT (- EIO)) < 0 := by decide

variable {d : FatDescriptor} {pos size nmemb : Nat}

theorem not_root (f : CorruptFile disk p) : fat16ItemIsRootDir p f.item = false :=
  ofEntry_not_root f.regular

theorem low_ne (f : CorruptFile disk p) : f.item.entry.low16BitsFirstCluster ≠ 0 := by
  have : 2 ≤ f.item.entry.low16BitsFirstCluster := f.first_ge
  omega

include hf hbpc hlt hs

/-- A call on a chain that ends in a reserved value. -/
theorem call_reserved (hres : f.last = FAT16_CLUSTER_RESERVED ∨
    f.last = FAT16_CLUSTER_BAD_OR_RESERVED) (h : f.OpenAt d pos) :
    Gives disk (fat16ReadSources p d size nmemb) fun r =>
      f.OpenAt r.1 (pos + r.2.2.length) ∧
      (f.point ≤ pos + min (u32 (size * nmemb)) (f.entry.sizeBytes - pos) → asInt r.2.1 < 0) ∧
      r.2.2 = (List.range r.2.2.length).map (f.source pos) := by
  have hshort : f.point < f.item.entry.sizeBytes := f.short
  have hsize := f.item.entry.sizeBytes_lt
  have hmove : asSizeT (d.pos + 0) = pos := by
    have := h.le
    rw [h.pos_eq]; unfold asSizeT; omega
  have hroot : fat16ItemIsRootDir p d.item = false := by
    rw [h.item_eq]; exact f.not_root
  have hlow : d.item.entry.low16BitsFirstCluster ≠ 0 := by rw [h.item_eq]; exact f.low_ne
  have hpoint := f.clusterAt_point hf hbpc hs
  rcases Nat.lt_or_eq_of_le h.le with hpos | rfl
  · have hon := not_endsChain (f.clusterAt_mem hf hbpc hs hpos)
    rcases Nat.eq_zero_or_pos (min (u32 (size * nmemb)) (f.item.entry.sizeBytes - pos)) with hzero | hlen
    · -- nothing was asked for
      unfold fat16ReadSources
      refine (adjustCursors_eq hf hbpc hs hroot hlow 0).bind ?_
      rintro _ rfl
      rw [hmove, cursorsAt_on (by rw [h.item_eq]; exact hon)]
      simp only [ne_eq, not_true_eq_false, if_false, h.eof, Bool.false_eq_true, h.item_eq,
        Nat.not_le_of_lt (Nat.lt_trans hpos hshort), hzero, sourcesLoop, pure_bind]
      refine .pure ⟨⟨rfl, rfl, rfl, h.le⟩, fun hge => ?_, rfl⟩
      have hzero' : min (u32 (size * nmemb)) (f.entry.sizeBytes - pos) = 0 := hzero
      omega
    · obtain ⟨stop, hstop⟩ : ∃ stop, stop = min (min (u32 (size * nmemb))
        (f.item.entry.sizeBytes - pos)) (f.point - pos) := ⟨_, rfl⟩
      have hend : pos + stop = f.point → EndsChain (clusterAt disk p f.item (pos + stop)) := by
        intro h
        rw [h, hpoint, EndsChain]
        unfold FAT16_CLUSTER_RESERVED FAT16_CLUSTER_BAD_OR_RESERVED at *
        omega
      refine (@fat16ReadSources_upTo disk p f.item d pos stop size nmemb hf hbpc hlt hs f.not_root f.low_ne
        h.item_eq h.eof h.pos_eq (Nat.lt_trans hpos hshort) hon (by omega) (by omega) ?_
        (fun q h₁ h₂ _ => not_endsChain (f.clusterAt_mem hf hbpc hs (by omega)))).mono ?_
      · rcases Nat.lt_or_ge (pos + stop) f.point with hlt' | hge
        · exact .inl (by omega)
        · have heq : pos + stop = f.point := by omega
          exact .inr ⟨by rw [heq]; exact Nat.mul_mod_left _ _, hend heq⟩
      · rintro _ ⟨d₀, hitem₀, heof₀, rfl⟩
        simp only [List.length_map, List.length_range]
        rw [if_neg (by omega)]
        rcases Nat.lt_or_ge (pos + stop) f.point with hlt' | hge
        · rw [cursorsAt_on (by
            rw [hitem₀]; exact not_endsChain (f.clusterAt_mem hf hbpc hs hlt'))]
          refine ⟨⟨hitem₀, heof₀, rfl, Nat.le_of_lt hlt'⟩, fun hge => ?_, rfl⟩
          have : min (u32 (size * nmemb)) (f.entry.sizeBytes - pos) =
            min (u32 (size * nmemb)) (f.item.entry.sizeBytes - pos) := rfl
          omega
        · have heq : pos + stop = f.point := by omega
          rw [heq, cursorsAt_reserved (by rw [hitem₀, hpoint]; exact hres)]
          exact ⟨⟨hitem₀, heof₀, rfl, Nat.le_refl _⟩, fun _ => asInt_error_neg, rfl⟩
  · -- the call starts at the corrupt link
    unfold fat16ReadSources
    refine (adjustCursors_eq hf hbpc hs hroot hlow 0).bind ?_
    rintro _ rfl
    rw [hmove, cursorsAt_reserved (by rw [h.item_eq, hpoint]; exact hres)]
    exact .pure ⟨⟨h.item_eq, h.eof, rfl, Nat.le_refl _⟩, fun _ => asInt_error_neg, rfl⟩

/-- A call for one byte. -/
theorem call_byte (h : f.OpenAt d pos) (hon : ¬ EndsChain (clusterAt disk p f.item pos)) :
    Gives disk (fat16ReadSources p d 1 1) fun r =>
      r.2.2 = [f.source pos 0] ∧
      (pos + 1 ≤ f.point → ¬ EndsChain (clusterAt disk p f.item (pos + 1)) →
        f.OpenAt r.1 (pos + 1)) := by
  have hshort : f.point < f.item.entry.sizeBytes := f.short
  have hle := h.le
  have hone : 1 = min (u32 (1 * 1)) (f.item.entry.sizeBytes - pos) := by
    rw [show u32 (1 * 1) = 1 from rfl]; omega
  refine (@fat16ReadSources_upTo disk p f.item d pos 1 1 1 hf hbpc hlt hs f.not_root f.low_ne
    h.item_eq h.eof h.pos_eq (by omega) hon Nat.one_pos (Nat.le_of_eq hone) (.inl hone)
    (fun q h₁ h₂ _ => by omega)).mono ?_
  rintro _ ⟨d₀, hitem₀, heof₀, rfl⟩
  refine ⟨rfl, fun hle hon' => ?_⟩
  simp only
  rw [if_neg (by omega), cursorsAt_on (by rw [hitem₀]; exact hon')]
  exact ⟨hitem₀, heof₀, rfl, hle⟩

/-- Calls for one byte each reach every position, as long as the chain does not end. -/
theorem run_bytes (n : Nat) (hn : n ≤ f.point)
    (hon : ∀ q ≤ n, ¬ EndsChain (clusterAt disk p f.item q)) :
    ∃ calls d, Runs (ReadStep disk p) (__fat16Open p f.item) calls d ∧ f.OpenAt d n ∧
      delivered calls = n := by
  induction n with
  | zero => exact ⟨[], _, .nil _, f.openAt_open, rfl⟩
  | succ n ih =>
    obtain ⟨calls, d, hrun, hd, hcount⟩ := ih (by omega) fun q hq => hon q (by omega)
    obtain ⟨⟨d', result, sources⟩, t, hcall, -, hsrc, hnext⟩ :=
      call_byte hf hbpc hlt hs hd (hon n (by omega)) ⟨disk, 0, []⟩ rfl
    have hstep : ReadStep disk p d ⟨1, 1, result, sources⟩ d' := ⟨⟨disk, 0, []⟩, t, rfl, hcall⟩
    refine ⟨_, d', hrun.snoc hstep, hnext hn (hon _ (Nat.le_refl _)), ?_⟩
    simp only at hsrc
    unfold delivered at *
    simp [hcount, hsrc]

/-- Along a run on a chain that ends in a reserved value, the position is what was delivered. -/
theorem run_reserved (hres : f.last = FAT16_CLUSTER_RESERVED ∨
    f.last = FAT16_CLUSTER_BAD_OR_RESERVED) {calls : List SourcedCall} {d' : FatDescriptor}
    (hrun : Runs (ReadStep disk p) d calls d') (h : f.OpenAt d pos) :
    f.OpenAt d' (pos + delivered calls) := by
  induction hrun generalizing pos with
  | nil d => exact h
  | cons hstep _ ih =>
    obtain ⟨s, t, hsd, hcall⟩ := hstep
    obtain ⟨r, t', hcall', -, h', -⟩ := call_reserved hf hbpc hlt hs hres h s hsd
    cases hcall.symm.trans hcall'
    have := ih h'
    unfold delivered at *
    rwa [List.flatMap_cons, List.length_append, ← Nat.add_assoc]

end Calls

variable {pos : Nat}

/-- The bytes of the clusters have addresses below 4 GiB, or wrap to others in the data region. -/
def Addressable (f : CorruptFile disk p) : Prop :=
  ∀ c ∈ f.clusters, ∀ r < p.bytesPerCluster,
    p.dataSector * p.header.bytesPerSector ≤ (clusterAddr p c + r) % 2 ^ 32

theorem sector_addr (hf : p.Fields) (hc : c ∈ f.clusters) :
    fat16ClusterNumberToDataSector p c * p.header.bytesPerSector = clusterAddr p c := by
  have hdata := f.data c hc
  unfold FAT16_CLUSTER_RESERVED at hdata
  rw [clusterNumberToDataSector_eq hf hdata.1 (by omega), clusterAddr]

/-- A data cluster ends where the data region does, or before. -/
theorem clusterAddr_le (hg : p.Geometry) (hc : c ∈ f.clusters) :
    clusterAddr p c + p.bytesPerCluster ≤ clusterAddr p FAT16_CLUSTER_RESERVED := by
  have hdata := f.data c hc
  have hle : (c - 2 + 1) * p.header.sectorsPerCluster ≤
      (FAT16_CLUSTER_RESERVED - 2) * p.header.sectorsPerCluster :=
    Nat.mul_le_mul_right _ (by omega)
  calc clusterAddr p c + p.bytesPerCluster
      = (p.dataSector + (c - 2 + 1) * p.header.sectorsPerCluster) * p.header.bytesPerSector := by
        rw [hg.bytesPerCluster, clusterAddr]; ring
    _ ≤ clusterAddr p FAT16_CLUSTER_RESERVED :=
        Nat.mul_le_mul_right _ (Nat.add_le_add_left hle _)

theorem source_inDataRegion (hf : p.Fields) (hg : p.Geometry)
    (hs : p.header.sectorsPerCluster ≠ 0) (ha : f.Addressable) {i : Nat}
    (hi : pos + i < f.point) : InDataRegion p (f.source pos i) := by
  have hbpc := hg.bytesPerCluster_pos hs
  rw [source, sourceAt]
  split
  · have hmem := f.clusterAt_mem hf hbpc hs (show pos < f.point by omega)
    have hmod := Nat.mod_lt pos hbpc
    have hbelow := ha _ hmem _ hmod
    have hend := clusterAddr_le hg hmem
    rw [sector_addr hf hmem, u32, u32, Nat.mod_add_mod]
    have hle := Nat.mod_le (clusterAddr p (clusterAt disk p f.item pos) +
      pos % p.bytesPerCluster) (2 ^ 32)
    exact ⟨by omega, by omega⟩
  · have hmem := f.clusterAt_mem hf hbpc hs hi
    have hmod := Nat.mod_lt (pos + i) hbpc
    have hbelow := ha _ hmem 0 hbpc
    have hend := clusterAddr_le hg hmem
    rw [sector_addr hf hmem, u32]
    have hle := Nat.mod_le (clusterAddr p (clusterAt disk p f.item (pos + i))) (2 ^ 32)
    rw [Nat.add_zero] at hbelow
    exact ⟨by omega, by omega⟩

/-- The source of the byte at a position. -/
theorem source_zero (hbpc : 0 < p.bytesPerCluster) :
    f.source pos 0 = (fat16ClusterNumberToDataSector p (clusterAt disk p f.item pos) *
      p.header.bytesPerSector + pos % p.bytesPerCluster) % 2 ^ 32 := by
  rw [source, sourceAt, Nat.add_zero, if_pos (Nat.mod_lt pos hbpc), Nat.add_zero, u32, u32,
    Nat.mod_add_mod]

section

variable {ok : Nat → Bool} (hp : fat16Probe ok disk = .ok (.ok p))
  (hs : p.header.sectorsPerCluster ≠ 0) (hr : p.header.reservedSectors ≠ 0)

include hp hs

theorem reports_of_reserved (hres : f.last = FAT16_CLUSTER_RESERVED ∨
    f.last = FAT16_CLUSTER_BAD_OR_RESERVED) (ha : f.Addressable) : f.Reports := by
  have hf := fat16Probe_fields hp
  have hg := fat16Probe_geometry hp
  have hbpc := hg.bytesPerCluster_pos hs
  have hlt := hg.bytesPerCluster_lt
  intro calls d hrun size nmemb
  have hd := run_reserved hf hbpc hlt hs hres hrun f.openAt_open
  rw [Nat.zero_add] at hd
  refine (call_reserved hf hbpc hlt hs hres hd).mono ?_
  rintro r ⟨hnext, hneg, hsrc⟩
  refine ⟨fun hreach => hneg (Nat.le_of_lt hreach), fun a hmem => ?_⟩
  rw [hsrc, List.mem_map] at hmem
  obtain ⟨i, hi, rfl⟩ := hmem
  have := hnext.le
  exact source_inDataRegion hf hg hs ha (by have := List.mem_range.mp hi; omega)

include hr

theorem reserved_of_reports (h : f.Reports) :
    (f.last = FAT16_CLUSTER_RESERVED ∨ f.last = FAT16_CLUSTER_BAD_OR_RESERVED) ∧
      f.Addressable := by
  have hf := fat16Probe_fields hp
  have hg := fat16Probe_geometry hp
  have hbpc := hg.bytesPerCluster_pos hs
  have hlt := hg.bytesPerCluster_lt
  -- a call for one byte behind any position up to which the chain goes on
  have hbyte : ∀ n ≤ f.point, (∀ q ≤ n, ¬ EndsChain (clusterAt disk p f.item q)) →
      InDataRegion p (f.source n 0) := by
    intro n hn hon
    obtain ⟨calls, d, hrun, hd, -⟩ := run_bytes hf hbpc hlt hs n hn hon
    obtain ⟨r, t, hcall, -, -, hin⟩ := h calls d hrun 1 1 ⟨disk, 0, []⟩ rfl
    obtain ⟨r', t', hcall', -, hsrc, -⟩ :=
      call_byte hf hbpc hlt hs hd (hon n (Nat.le_refl _)) ⟨disk, 0, []⟩ rfl
    cases hcall.symm.trans hcall'
    exact hin _ (by rw [hsrc]; exact List.mem_singleton_self _)
  have hdata : ∀ q < f.point, ¬ EndsChain (clusterAt disk p f.item q) :=
    fun q hq => not_endsChain (f.clusterAt_mem hf hbpc hs hq)
  refine ⟨by_contra fun hno => ?_, fun c hc r hr => ?_⟩
  · -- sector 0 is read behind the last cluster
    have hlast : f.last < 2 := by
      have := f.corrupt
      unfold FAT16_CLUSTER_RESERVED FAT16_CLUSTER_BAD_OR_RESERVED at *
      omega
    have hpoint := f.clusterAt_point hf hbpc hs
    have hin := hbyte f.point (Nat.le_refl _) fun q hq => by
      rcases Nat.lt_or_eq_of_le hq with hq | rfl
      · exact hdata q hq
      · rw [hpoint, EndsChain, FAT16_CLUSTER_RESERVED]; omega
    have hzero : f.source f.point 0 = 0 := by
      rw [source_zero hbpc, hpoint, fat16ClusterNumberToDataSector, if_pos hlast, Nat.zero_mul,
        point, Nat.mul_mod_left]
      rfl
    have hpos : 0 < p.dataSector * p.header.bytesPerSector := by
      obtain ⟨rfl, hbps⟩ := fat16Probe_eq hp
      refine Nat.mul_pos ?_ hbps
      exact Nat.add_pos_left (Nat.add_pos_left (Nat.pos_of_ne_zero hr) _) _
    rw [hzero] at hin
    exact absurd hin.1 (Nat.not_le_of_lt hpos)
  · obtain ⟨i, hi, rfl⟩ := List.getElem_of_mem hc
    have hq : i * p.bytesPerCluster + r < f.point := by
      have hmul := Nat.mul_le_mul_right p.bytesPerCluster (Nat.succ_le_of_lt hi)
      rw [Nat.succ_mul] at hmul
      unfold point
      omega
    have hdiv : (i * p.bytesPerCluster + r) / p.bytesPerCluster = i := by
      rw [Nat.mul_comm, Nat.mul_add_div hbpc, Nat.div_eq_of_lt hr, Nat.add_zero]
    have hmod : (i * p.bytesPerCluster + r) % p.bytesPerCluster = r := by
      rw [Nat.mul_comm, Nat.mul_add_mod, Nat.mod_eq_of_lt hr]
    have hcluster : clusterAt disk p f.item (i * p.bytesPerCluster + r) = f.clusters[i] := by
      have h := @get_clusterAt disk p f hf hs (i * p.bytesPerCluster + r) (by omega)
      rw [hdiv, List.getElem?_append_left hi, List.getElem?_eq_getElem hi] at h
      exact (Option.some.inj h).symm
    have hin := hbyte _ (Nat.le_of_lt hq) fun q hq' => hdata q (by omega)
    rw [source_zero hbpc, hcluster, hmod, sector_addr hf hc] at hin
    exact hin.1

/-- On an accepted volume with nonzero geometry, every run of reads of a file with a corrupt chain
reports it and copies from the data region only, exactly if the chain ends in a reserved value and
no address of its clusters wraps below the data region. -/
theorem reports_iff (f : CorruptFile disk p) :
    f.Reports ↔ (f.last = FAT16_CLUSTER_RESERVED ∨ f.last = FAT16_CLUSTER_BAD_OR_RESERVED) ∧
      f.Addressable :=
  ⟨reserved_of_reports hp hs hr, fun h => reports_of_reserved hp hs h.1 h.2⟩

end

/-! A file of 1024 bytes with one cluster of 512, whose link is left open. -/

def linkDisk (lo hi : Byte) : Disk where
  bytes a :=
    if 54 ≤ a ∧ a < 62 then charAt FAT16_SYSTEM_ID (a - 54)
    else if a = 12 then 2                              -- 512 bytes per sector
    else if a = 13 ∨ a = 14 ∨ a = 16 ∨ a = 22 then 1   -- one sector of everything else
    else if a = 38 then 0x29
    else if a = 516 then lo                            -- the FAT entry of cluster 2
    else if a = 517 then hi
    else 0

def linkVolume (lo hi : Byte) : FatPrivate :=
  .ofHeader (.ofBytes ((linkDisk lo hi).slice 0 FAT_HEADER_SIZE))

def linkEntry : FatEntry := ⟨fun i => if i.val = 26 then 2 else if i.val = 29 then 4 else 0⟩

def ofLink (lo hi : Byte) (v : Nat) (hv : fatNext (linkDisk lo hi) (linkVolume lo hi) 2 = v)
    (corrupt : v = 0 ∨ v = 1 ∨ v = FAT16_CLUSTER_RESERVED ∨ v = FAT16_CLUSTER_BAD_OR_RESERVED)
    (short : (linkVolume lo hi).bytesPerCluster < linkEntry.sizeBytes) :
    CorruptFile (linkDisk lo hi) (linkVolume lo hi) where
  dir := (linkVolume lo hi).rootDirectory
  entry := linkEntry
  dirPos := 1
  clusters := [2]
  last := v
  regular := by decide
  first := by simp [show linkEntry.low16BitsFirstCluster = 2 by decide]
  first_ge := by decide
  data := by decide
  link i c c' h h' := by
    match i with
    | 0 =>
      cases h
      cases h'
      exact hv
    | i + 1 => simp at h'
  corrupt := corrupt
  short := by simpa using short

/-- A chain that ends in 0xFFF7 is reported. -/
theorem reports_iff_bad_cluster :
    ∃ f : CorruptFile (linkDisk 0xF7 0xFF) (linkVolume 0xF7 0xFF),
      f.last = FAT16_CLUSTER_BAD_OR_RESERVED ∧ f.Reports := by
  have hp : fat16Probe (fun _ => true) (linkDisk 0xF7 0xFF) = .ok (.ok (linkVolume 0xF7 0xFF)) :=
    fat16Probe_accepts (by decide) (by decide) (by decide)
  let f := ofLink 0xF7 0xFF FAT16_CLUSTER_BAD_OR_RESERVED (by decide) (by decide) (by decide)
  refine ⟨f, rfl, (reports_iff hp (by decide) (by decide) f).mpr ⟨.inr rfl, ?_⟩⟩
  rintro c hc r hr
  obtain rfl : c = 2 := List.mem_singleton.mp hc
  have haddr : clusterAddr (linkVolume 0xF7 0xFF) 2 = 1024 := by decide
  have hbase : (linkVolume 0xF7 0xFF).dataSector * (linkVolume 0xF7 0xFF).header.bytesPerSector =
      1024 := by decide
  have hbpc : (linkVolume 0xF7 0xFF).bytesPerCluster = 512 := by decide
  omega

/-- One that ends in 0 is not: behind the last cluster, the bytes of sector 0 are delivered. -/
theorem free_cluster_not_reported :
    ¬ ∀ (disk : Disk) (p : FatPrivate), fat16Probe (fun _ => true) disk = .ok (.ok p) →
      p.header.bytesPerSector ≠ 0 → p.header.sectorsPerCluster ≠ 0 →
      p.header.reservedSectors ≠ 0 → ∀ f : CorruptFile disk p, f.Reports := by
  intro h
  have hp : fat16Probe (fun _ => true) (linkDisk 0 0) = .ok (.ok (linkVolume 0 0)) :=
    fat16Probe_accepts (by decide) (by decide) (by decide)
  let f := ofLink 0 0 0 (by decide) (by decide) (by decide)
  have hres := (reserved_of_reports hp (by decide) (by decide)
    (h _ _ hp (by decide) (by decide) (by decide) f)).1
  exact absurd (show (0 : Nat) = FAT16_CLUSTER_RESERVED ∨ (0 : Nat) = FAT16_CLUSTER_BAD_OR_RESERVED
    from hres) (by decide)

end CorruptFile

end AvocadOS
