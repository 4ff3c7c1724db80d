import AvocadOS.Disk.Stream
import AvocadOS.String.Memset

/-!
# Reading into memory

`Disk.Stream` has the bytes that `diskstream_read` copies as a list, from a disk that answers every
request. Here `memcpy` writes them to memory, and every request may fail.

* `readSectorsTo_answered`, `readSectorsTo_fails`: the loop, if all requests are answered and if one
  fails;
* `diskstreamReadTo_answered`: a read is the bytes of the disk from the position on;
* `diskstreamReadTo_refines`: on a disk that answers every request, it is the read of `Disk.Stream`;
* `diskstreamReadTo_flat`: sector-wise reading is flat reading.
-/

namespace AvocadOS

/-- What `disk_read_sector` answers to its `n`-th request, for a sector: the returned value and the
bytes in the buffer behind it. -/
abbrev Device := Nat → Nat → Int × (Nat → Byte)

/-- A request that does not return an error has filled the buffer with the sector. -/
def Device.Serves (device : Device) (disk : Disk) : Prop :=
  ∀ n lba, (device n lba).1 = 0 → ∀ i < DISK_SECTOR_SIZE,
    (device n lba).2 i = disk.bytes (lba * DISK_SECTOR_SIZE + i)

/-- A stream, the memory and the number of requests to the device so far. -/
structure Reader where
  ppos : Nat
  disk : Word
  memory : Memory
  requests : Nat

section

variable (disks : Word) (device : Device)

/-- `disk_read_block` of one sector; `disks` is the address of `disks[0]`. -/
def diskReadBlockOf (disk : Word) : Device := fun n lba =>
  if disk ≠ disks then (-ENOMEDIUM, fun _ => 0) else device n lba

/-- The loop of `diskstream_read`: what it returned early, `read_so_far`, and the state. -/
def readSectorsTo (buffer : Word) (len : Nat) :
    Nat → Nat → Nat → Nat → Reader → Option Int × Nat × Reader
  | 0, _, _, readSoFar, s => (none, readSoFar, s)
  | fuel + 1, sector, offset, readSoFar, s =>
    if readSoFar < len then
      let answer := diskReadBlockOf disks device s.disk s.requests sector
      let s := { s with requests := s.requests + 1 }
      if answer.1 ≠ 0 then (some answer.1, readSoFar, s)
      else
        let remaining := len - readSoFar
        let toCopy :=
          if remaining < DISK_SECTOR_SIZE - offset then remaining else DISK_SECTOR_SIZE - offset
        let s := { s with
          memory := memcpy s.memory (buffer + BitVec.ofNat 32 readSoFar)
            (fun i => answer.2 (offset + i)) toCopy }
        readSectorsTo buffer len fuel (sector + 1) 0 (readSoFar + toCopy) s
    else (none, readSoFar, s)

/-- `diskstream_read` to `buffer`. -/
def diskstreamReadTo (buffer : Word) (len : Int) (s : Reader) : Int × Reader :=
  match readSectorsTo disks device buffer len.toNat len.toNat (s.ppos / DISK_SECTOR_SIZE)
      (s.ppos % DISK_SECTOR_SIZE) 0 s with
  | (some ret, _, t) => (ret, t)
  | (none, readSoFar, t) => (readSoFar, { t with ppos := u32 (t.ppos + readSoFar) })

/-- The number of sectors in which the `len` bytes from `a` on lie. -/
def sectorCount (a len : Nat) : Nat :=
  if len = 0 then 0 else (a % DISK_SECTOR_SIZE + len - 1) / DISK_SECTOR_SIZE + 1

/-- What the `j`-th of the requests for the bytes from `a` on returns. -/
def answerTo (s : Reader) (a j : Nat) : Int :=
  (diskReadBlockOf disks device s.disk (s.requests + j) (a / DISK_SECTOR_SIZE + j)).1

/-- No request for the `len` bytes from `a` on fails. -/
def Answered (s : Reader) (a len : Nat) : Prop :=
  ∀ j < sectorCount a len, answerTo disks device s a j = 0

/-- Some request for the `len` bytes from `a` on fails; the first one that does returns `ret`. -/
def FailsWith (s : Reader) (a len : Nat) (ret : Int) : Prop :=
  ret ≠ 0 ∧ ∃ j < sectorCount a len, answerTo disks device s a j = ret ∧
    ∀ i < j, answerTo disks device s a i = 0

end

variable {disks buffer : Word} {device : Device} {disk : Disk}

theorem Device.Serves.block (h : device.Serves disk) (d : Word) :
    (diskReadBlockOf disks device d).Serves disk := by
  intro n lba hret
  rw [diskReadBlockOf] at hret ⊢
  split at hret
  · exact absurd hret (by decide)
  · rename_i hdisk
    rw [if_neg hdisk]
    exact h n lba hret

/-! ## One iteration -/

/-- The sectors behind the first one. -/
theorem sectorCount_next {a m len : Nat} (hm : m = min len (DISK_SECTOR_SIZE - a % DISK_SECTOR_SIZE))
    (hlen : 0 < len) : sectorCount a len = sectorCount (a + m) (len - m) + 1 := by
  simp only [sectorCount, DISK_SECTOR_SIZE] at *
  split <;> split <;> omega

/-- The state behind a request that is answered: `m` bytes are copied. -/
def Reader.copied (s : Reader) (buffer : Word) (source : Nat → Byte) (k m : Nat) : Reader :=
  { s with
    requests := s.requests + 1
    memory := memcpy s.memory (buffer + BitVec.ofNat 32 k) source m }

variable {s : Reader} {len fuel p k m : Nat}

/-- The iteration at position `p` of the disk, with `k` bytes read. -/
theorem readSectorsTo_step (hm : m = min (len - k) (DISK_SECTOR_SIZE - p % DISK_SECTOR_SIZE))
    (hk : k < len) :
    readSectorsTo disks device buffer len (fuel + 1) (p / DISK_SECTOR_SIZE) (p % DISK_SECTOR_SIZE) k
        s =
      let answer := diskReadBlockOf disks device s.disk s.requests (p / DISK_SECTOR_SIZE)
      if answer.1 ≠ 0 then (some answer.1, k, { s with requests := s.requests + 1 })
      else readSectorsTo disks device buffer len fuel (p / DISK_SECTOR_SIZE + 1) 0 (k + m)
        (s.copied buffer (fun i => answer.2 (p % DISK_SECTOR_SIZE + i)) k m) := by
  have hcopy : (if len - k < DISK_SECTOR_SIZE - p % DISK_SECTOR_SIZE then len - k
      else DISK_SECTOR_SIZE - p % DISK_SECTOR_SIZE) = m := by
    rw [hm]
    split <;> omega
  rw [readSectorsTo, if_pos hk]
  simp only [hcopy]
  rfl

theorem readSectorsTo_done {sector offset : Nat} :
    readSectorsTo disks device buffer len fuel sector offset len s = (none, len, s) := by
  cases fuel with
  | zero => rfl
  | succ fuel => rw [readSectorsTo, if_neg (Nat.lt_irrefl _)]

/-- An address behind the first `k` bytes of the buffer. -/
theorem sub_add_ofNat (x : Word) (hm : k + m < 2 ^ 31) :
    ((x - (buffer + BitVec.ofNat 32 k)).toNat < m ↔
      k ≤ (x - buffer).toNat ∧ (x - buffer).toNat < k + m) ∧
    (k ≤ (x - buffer).toNat →
      (x - (buffer + BitVec.ofNat 32 k)).toNat = (x - buffer).toNat - k) := by
  rw [← BitVec.sub_sub]
  generalize x - buffer = y
  have hy := y.isLt
  rw [BitVec.toNat_sub, BitVec.toNat_ofNat]
  omega

/-- The bytes that an answered request copies are those of the disk. -/
theorem copied_memory (hserves : device.Serves disk)
    (hm : m = min (len - k) (DISK_SECTOR_SIZE - p % DISK_SECTOR_SIZE)) (hk : k < len)
    (hlen : len < 2 ^ 31)
    (hret : (diskReadBlockOf disks device s.disk s.requests (p / DISK_SECTOR_SIZE)).1 = 0)
    (x : Word) :
    (s.copied buffer (fun i =>
        (diskReadBlockOf disks device s.disk s.requests (p / DISK_SECTOR_SIZE)).2
          (p % DISK_SECTOR_SIZE + i)) k m).memory x =
      if k ≤ (x - buffer).toNat ∧ (x - buffer).toNat < k + m then
        disk.bytes (p + ((x - buffer).toNat - k)) else s.memory x := by
  obtain ⟨hiff, hoff⟩ := @sub_add_ofNat buffer k m x (by omega)
  rw [Reader.copied]
  simp only
  rw [memcpy_eq _ _ _ _ (by omega)]
  by_cases hin : k ≤ (x - buffer).toNat ∧ (x - buffer).toNat < k + m
  · rw [if_pos (hiff.mpr hin), if_pos hin, hoff hin.1, hserves.block s.disk _ _ hret _ (by omega)]
    congr 1
    have := Nat.div_add_mod p DISK_SECTOR_SIZE
    rw [Nat.mul_comm] at this
    omega
  · rw [if_neg (fun h => hin (hiff.mp h)), if_neg hin]

/-- It writes to the buffer only. -/
theorem copied_frame (hlen : len < 2 ^ 31) (hm : k + m ≤ len) (source : Nat → Byte) {x : Word}
    (hx : len ≤ (x - buffer).toNat) :
    (s.copied buffer source k m).memory x = s.memory x := by
  obtain ⟨hiff, -⟩ := @sub_add_ofNat buffer k m x (by omega)
  rw [Reader.copied]
  simp only
  rw [memcpy_eq _ _ _ _ (by omega), if_neg]
  intro hin
  have := hiff.mp hin
  omega

/-- Where the next iteration begins. -/
theorem next_position (hm : m = min (len - k) (DISK_SECTOR_SIZE - p % DISK_SECTOR_SIZE))
    (hk : k < len) :
    0 < m ∧ k + m ≤ len ∧ (k + m < len →
      (p + m) / DISK_SECTOR_SIZE = p / DISK_SECTOR_SIZE + 1 ∧ (p + m) % DISK_SECTOR_SIZE = 0) := by
  simp only [DISK_SECTOR_SIZE] at *
  omega

/-- The requests that follow are those for the bytes behind the sector. -/
theorem answerTo_copied (hnext : (p + m) / DISK_SECTOR_SIZE = p / DISK_SECTOR_SIZE + 1)
    (source : Nat → Byte) (j : Nat) : answerTo disks device (s.copied buffer source k m) (p + m) j =
      answerTo disks device s p (j + 1) := by
  rw [answerTo, answerTo, hnext, Nat.add_assoc _ 1 j, Nat.add_comm 1 j]
  change (diskReadBlockOf disks device s.disk (s.requests + 1 + j) _).1 = _
  rw [Nat.add_assoc s.requests 1 j, Nat.add_comm 1 j]

/-! ## The loop -/

/-- All requests are answered: the loop reads the bytes from `p` on. -/
theorem readSectorsTo_answered (hserves : device.Serves disk) (hlen : len < 2 ^ 31) :
    ∀ {fuel p k : Nat} {s : Reader}, k < len → len ≤ fuel + k →
      Answered disks device s p (len - k) →
      ∃ t, readSectorsTo disks device buffer len fuel (p / DISK_SECTOR_SIZE) (p % DISK_SECTOR_SIZE) k
          s = (none, len, t) ∧ t.ppos = s.ppos ∧ t.disk = s.disk ∧
        t.requests = s.requests + sectorCount p (len - k) ∧
        ∀ x, t.memory x = if k ≤ (x - buffer).toNat ∧ (x - buffer).toNat < len then
          disk.bytes (p + ((x - buffer).toNat - k)) else s.memory x := by
  intro fuel
  induction fuel with
  | zero => intro p k s hk hfuel; omega
  | succ fuel ih =>
    intro p k s hk hfuel hanswered
    obtain ⟨m, hm⟩ : ∃ m, m = min (len - k) (DISK_SECTOR_SIZE - p % DISK_SECTOR_SIZE) := ⟨_, rfl⟩
    obtain ⟨hpos, hle, hnext⟩ := next_position hm hk
    have hcount := sectorCount_next hm (show 0 < len - k by omega)
    have hret : (diskReadBlockOf disks device s.disk s.requests (p / DISK_SECTOR_SIZE)).1 = 0 :=
      hanswered 0 (by omega)
    rw [readSectorsTo_step hm hk]
    simp only [hret, ne_eq, not_true_eq_false, if_false]
    have hmemory := @copied_memory disks buffer device disk s len p k m hserves hm hk hlen hret
    by_cases hend : k + m = len
    · -- the rest of the request was in this sector
      rw [hend]
      refine ⟨_, readSectorsTo_done, rfl, rfl, ?_, fun x => ?_⟩
      · rw [hcount, show len - k - m = 0 by omega]
        rfl
      · rw [hmemory, hend]
    · obtain ⟨hdiv, hmod⟩ := hnext (by omega)
      rw [← hdiv, ← hmod]
      have hrest : ∀ source, Answered disks device (s.copied buffer source k m) (p + m)
          (len - (k + m)) := by
        intro source j hj
        rw [answerTo_copied hdiv]
        exact hanswered _ (by rw [hcount, Nat.sub_sub]; omega)
      obtain ⟨t, hrun, hppos, hdisk, hrequests, ht⟩ := ih (by omega) (by omega) (hrest _)
      refine ⟨t, hrun, hppos, hdisk, ?_, fun x => ?_⟩
      · rw [hrequests, hcount, Nat.sub_sub]
        change s.requests + 1 + _ = _
        omega
      · rw [ht, hmemory]
        by_cases hin : k + m ≤ (x - buffer).toNat ∧ (x - buffer).toNat < len
        · rw [if_pos hin, if_pos (by omega)]
          congr 1
          omega
        · rw [if_neg hin]
          exact if_congr (by omega) rfl rfl

/-- A request fails: the loop ends with its error, and has written nothing beyond the buffer. -/
theorem readSectorsTo_fails {ret : Int} (hlen : len < 2 ^ 31) (hret : ret ≠ 0) :
    ∀ {j fuel p k : Nat} {s : Reader}, k < len → len ≤ fuel + k → j < sectorCount p (len - k) →
      answerTo disks device s p j = ret → (∀ i < j, answerTo disks device s p i = 0) →
      ∃ n t, readSectorsTo disks device buffer len fuel (p / DISK_SECTOR_SIZE)
          (p % DISK_SECTOR_SIZE) k s = (some ret, n, t) ∧ t.ppos = s.ppos ∧
        ∀ x, len ≤ (x - buffer).toNat → t.memory x = s.memory x := by
  intro j
  induction j with
  | zero =>
    intro fuel p k s hk hfuel hj hfails hbefore
    obtain ⟨fuel, rfl⟩ : ∃ f, fuel = f + 1 := ⟨fuel - 1, by omega⟩
    rw [readSectorsTo_step rfl hk]
    have hanswer : (diskReadBlockOf disks device s.disk s.requests (p / DISK_SECTOR_SIZE)).1 = ret :=
      hfails
    simp only [hanswer, ne_eq, hret, not_false_eq_true, if_true]
    exact ⟨_, _, rfl, rfl, fun x _ => rfl⟩
  | succ j ih =>
    intro fuel p k s hk hfuel hj hfails hbefore
    obtain ⟨fuel, rfl⟩ : ∃ f, fuel = f + 1 := ⟨fuel - 1, by omega⟩
    obtain ⟨m, hm⟩ : ∃ m, m = min (len - k) (DISK_SECTOR_SIZE - p % DISK_SECTOR_SIZE) := ⟨_, rfl⟩
    obtain ⟨hpos, hle, hnext⟩ := next_position hm hk
    have hcount := sectorCount_next hm (show 0 < len - k by omega)
    have hanswer : (diskReadBlockOf disks device s.disk s.requests (p / DISK_SECTOR_SIZE)).1 = 0 :=
      hbefore 0 (Nat.succ_pos j)
    rw [readSectorsTo_step hm hk]
    simp only [hanswer, ne_eq, not_true_eq_false, if_false]
    have hmore : k + m < len := by
      refine Nat.lt_of_le_of_ne hle fun hend => ?_
      rw [hcount, show len - k - m = 0 by omega] at hj
      exact absurd hj (by simp [sectorCount])
    obtain ⟨hdiv, hmod⟩ := hnext hmore
    rw [← hdiv, ← hmod]
    obtain ⟨n, t, hrun, hppos, hframe⟩ := @ih fuel (p + m) (k + m) (s.copied buffer (fun i =>
        (diskReadBlockOf disks device s.disk s.requests (p / DISK_SECTOR_SIZE)).2
          (p % DISK_SECTOR_SIZE + i)) k m) hmore (by omega)
      (by rw [hcount, Nat.sub_sub] at hj; omega) (by rw [answerTo_copied hdiv]; exact hfails)
      (fun i hi => by rw [answerTo_copied hdiv]; exact hbefore _ (by omega))
    refine ⟨n, t, hrun, hppos, fun x hx => ?_⟩
    rw [hframe x hx, copied_frame hlen hle _ hx]

/-! ## Flat reading -/

/-- A read whose requests are answered. -/
theorem diskstreamReadTo_answered (hserves : device.Serves disk) (hlen : s.ppos + len < 2 ^ 31)
    (hanswered : Answered disks device s s.ppos len) :
    ∃ t : Reader, diskstreamReadTo disks device buffer len s = ((len : Int), t) ∧
      t.ppos = s.ppos + len ∧ t.disk = s.disk ∧
      t.requests = s.requests + sectorCount s.ppos len ∧
      ∀ x, t.memory x = if (x - buffer).toNat < len then disk.bytes (s.ppos + (x - buffer).toNat)
        else s.memory x := by
  rw [diskstreamReadTo, Int.toNat_natCast]
  have hu32 : u32 (s.ppos + len) = s.ppos + len := Nat.mod_eq_of_lt (by omega)
  rcases Nat.eq_zero_or_pos len with rfl | hpos
  · refine ⟨{ s with ppos := u32 (s.ppos + 0) }, rfl, hu32, rfl, rfl, fun x => ?_⟩
    rw [if_neg (by omega)]
  · obtain ⟨t, hrun, hppos, hdisk, hrequests, hmemory⟩ :=
      @readSectorsTo_answered disks buffer device disk len hserves (by omega) len s.ppos 0 s hpos
        (by omega) hanswered
    rw [hrun]
    refine ⟨_, rfl, ?_, hdisk, hrequests, fun x => ?_⟩
    · simp only [hppos, hu32]
    · simpa using hmemory x

/-- A read of which a request fails. -/
theorem diskstreamReadTo_fails {ret : Int} (hlen : len < 2 ^ 31)
    (hfails : FailsWith disks device s s.ppos len ret) :
    ∃ t, diskstreamReadTo disks device buffer len s = (ret, t) ∧ t.ppos = s.ppos ∧
      ∀ x, len ≤ (x - buffer).toNat → t.memory x = s.memory x := by
  obtain ⟨hret, j, hj, hanswer, hbefore⟩ := hfails
  have hpos : 0 < len := by
    refine Nat.pos_of_ne_zero fun hzero => ?_
    rw [hzero] at hj
    exact absurd hj (by simp [sectorCount])
  obtain ⟨n, t, hrun, hppos, hframe⟩ := @readSectorsTo_fails disks buffer device len ret hlen hret
    j len s.ppos 0 s hpos (by omega) hj hanswer hbefore
  rw [diskstreamReadTo, Int.toNat_natCast, hrun]
  exact ⟨t, rfl, hppos, hframe⟩

/-- On a disk that answers every request, it is the read of `Disk.Stream`, and the list of that read
is what is in the buffer. -/
theorem diskstreamReadTo_refines {d : DiskStream} (hserves : device.Serves d.disk)
    (hready : ∀ n lba, (device n lba).1 = 0) (hdisk : s.disk = disks) (hppos : d.ppos = s.ppos)
    (hlen : s.ppos + len < 2 ^ 31) :
    ∃ d' t, diskstreamRead len d = .ok ((len, d.disk.slice d.ppos len), d') ∧
      diskstreamReadTo disks device buffer len s = ((len : Int), t) ∧ d'.ppos = t.ppos ∧
      ∀ i < len, t.memory (buffer + BitVec.ofNat 32 i) = (d.disk.slice d.ppos len).getD i 0 := by
  have hanswered : Answered disks device s s.ppos len := by
    intro j _
    rw [answerTo, diskReadBlockOf, if_neg (not_not.mpr hdisk)]
    exact hready _ _
  obtain ⟨t, hrun, htpos, -, -, hmemory⟩ :=
    @diskstreamReadTo_answered disks buffer device d.disk s len hserves hlen hanswered
  refine ⟨_, t, diskstreamRead_eq d len, hrun, ?_, fun i hi => ?_⟩
  · rw [htpos, ← hppos]
    exact Nat.mod_eq_of_lt (by omega)
  · rw [hmemory, offset_toNat buffer (by omega), if_pos hi, hppos]
    simp [Disk.slice, hi]

/-- Sector-wise reading is flat reading. If no request fails, `diskstream_read` returns `len`, the
buffer has the bytes of the disk from `ppos` on, no other memory has changed, and `ppos` is `len`
further; so two reads are one. If a request fails, its error is returned, and `ppos` stays. -/
theorem diskstreamReadTo_flat (disks buffer : Word) {device : Device} {disk : Disk} {s : Reader}
    {len : Nat} (hserves : device.Serves disk) (hlen : s.ppos + len < 2 ^ 31) :
    (Answered disks device s s.ppos len →
      ∃ t : Reader, diskstreamReadTo disks device buffer len s = ((len : Int), t) ∧
        t.ppos = s.ppos + len ∧
        ∀ x, t.memory x = if (x - buffer).toNat < len then disk.bytes (s.ppos + (x - buffer).toNat)
          else s.memory x) ∧
    (∀ len₁ len₂ : Nat, len = len₁ + len₂ → Answered disks device s s.ppos len →
      Answered disks device s s.ppos len₁ →
      let t₁ := (diskstreamReadTo disks device buffer len₁ s).2
      Answered disks device t₁ t₁.ppos len₂ →
      let one := diskstreamReadTo disks device buffer len s
      let two := diskstreamReadTo disks device (buffer + BitVec.ofNat 32 len₁) len₂ t₁
      (diskstreamReadTo disks device buffer len₁ s).1 + two.1 = one.1 ∧
        two.2.ppos = one.2.ppos ∧ two.2.memory = one.2.memory) ∧
    ∀ ret, FailsWith disks device s s.ppos len ret →
      ∃ t : Reader, diskstreamReadTo disks device buffer len s = (ret, t) ∧ t.ppos = s.ppos ∧
        ∀ x, len ≤ (x - buffer).toNat → t.memory x = s.memory x := by
  refine ⟨fun hanswered => ?_, fun len₁ len₂ hsum hone hfirst => ?_, fun ret hfails => ?_⟩
  · obtain ⟨t, hrun, hppos, -, -, hmemory⟩ := diskstreamReadTo_answered hserves hlen hanswered
    exact ⟨t, hrun, hppos, hmemory⟩
  · obtain ⟨t, hrun, hppos, -, -, hmemory⟩ :=
      @diskstreamReadTo_answered disks buffer device disk s len hserves hlen hone
    obtain ⟨t₁, hrun₁, hppos₁, -, -, hmemory₁⟩ :=
      @diskstreamReadTo_answered disks buffer device disk s len₁ hserves (by omega) hfirst
    intro t₁' hsecond
    obtain rfl : t₁' = t₁ := congrArg Prod.snd hrun₁
    obtain ⟨t₂, hrun₂, hppos₂, -, -, hmemory₂⟩ := @diskstreamReadTo_answered disks
      (buffer + BitVec.ofNat 32 len₁) device disk t₁' len₂ hserves (by omega) hsecond
    simp only [hrun, hrun₁, hrun₂]
    refine ⟨by omega, by omega, funext fun x => ?_⟩
    obtain ⟨hiff, hoff⟩ := @sub_add_ofNat buffer len₁ len₂ x (by omega)
    rw [hmemory₂, hmemory₁, hmemory, hppos₁]
    by_cases hsnd : len₁ ≤ (x - buffer).toNat ∧ (x - buffer).toNat < len₁ + len₂
    · rw [if_pos (hiff.mpr hsnd), if_pos (by omega), hoff hsnd.1]
      congr 1
      omega
    · rw [if_neg (fun h => hsnd (hiff.mp h))]
      exact if_congr (by omega) rfl rfl
  · exact diskstreamReadTo_fails (by omega) hfails

/-- A disk of zeros whose sectors from 2 on cannot be read. -/
def damagedDisk : Device := fun _ lba => (if lba < 2 then 0 else - EIO, fun _ => 0)

/-- A read across its first two sectors, and one that reaches the third. -/
theorem diskstreamReadTo_flat_damagedDisk :
    ∃ t t' : Reader, diskstreamReadTo 0 damagedDisk 0x1000 20 ⟨500, 0, fun _ => 1, 0⟩ = (20, t) ∧
      t.ppos = 520 ∧
      diskstreamReadTo 0 damagedDisk 0x1000 600 ⟨500, 0, fun _ => 1, 0⟩ = (- EIO, t') ∧
      t'.ppos = 500 := by
  have hserves : damagedDisk.Serves ⟨fun _ => 0⟩ := fun _ _ _ _ _ => rfl
  have hanswered : Answered 0 damagedDisk ⟨500, 0, fun _ => 1, 0⟩ 500 20 := by
    unfold Answered
    decide
  have hfails : FailsWith 0 damagedDisk ⟨500, 0, fun _ => 1, 0⟩ 500 600 (- EIO) :=
    ⟨by decide, 2, by decide, by decide, by decide⟩
  obtain ⟨t, hrun, hppos, -⟩ := (diskstreamReadTo_flat 0 0x1000 hserves (by decide)).1 hanswered
  obtain ⟨t', hrun', hppos', -⟩ :=
    (diskstreamReadTo_flat 0 0x1000 hserves (by decide)).2.2 _ hfails
  exact ⟨t, t', hrun, hppos, hrun', hppos'⟩

end AvocadOS
