import AvocadOS.Config
import AvocadOS.Lib.Total
import Mathlib.Data.List.Basic

/-!
# `disk.c` and `disk_stream.c`

A disk is its bytes; `disk_read_block` hands them out by sectors of 512. A `DiskStream` is a
position on the disk. `reads` is not in the source: it records the position and the length of every
`diskstream_read`, so that one can say which bytes a function looks at.

* `diskstreamRead_eq`: sector-wise reading is flat reading;
* `Gives disk m Q`: `m` returns a value with `Q` from any position of a stream on `disk`. Code that
  seeks before it reads (`Gives.read`) has such a specification, whoever else uses the stream;
* `Blind m`: for code of which one does not know what it returns.
-/

namespace AvocadOS

def DISK_SECTOR_SIZE : Nat := 512

/-- `uint32_t` arithmetic. -/
def u32 (n : Nat) : Nat := n % 2 ^ 32

/-- `a - b` in `uint32_t`. -/
def sub32 (a b : Nat) : Nat := u32 (a + 2 ^ 32 - u32 b)

/-- A `size_t` passed as an `int`. -/
def asInt (n : Nat) : Int := if u32 n < 2 ^ 31 then u32 n else u32 n - 2 ^ 32

/-- An `int` returned as a `size_t`. -/
def asSizeT (n : Int) : Nat := (n % 2 ^ 32).toNat

structure Disk where
  bytes : Nat → Byte

/-- The bytes `a`, …, `a + n - 1` of the disk. -/
def Disk.slice (disk : Disk) (a n : Nat) : List Byte := (List.range n).map fun i => disk.bytes (a + i)

structure DiskStream where
  disk : Disk
  ppos : Nat
  reads : List (Nat × Nat)

/-- Code that reads the disk through a stream. -/
abbrev DevM := StateT DiskStream (Except Fault)

/-- `disk_read_block` of one sector; the PIO loop of `disk_read_sector` never reports an error. -/
def diskReadBlock (disk : Disk) (lba : Nat) : Except Int (Nat → Byte) :=
  .ok fun i => disk.bytes (lba * DISK_SECTOR_SIZE + i)

def diskstreamSeek (ppos : Nat) : DevM Nat := fun s => .ok (ppos, { s with ppos := ppos })

/-- The loop of `diskstream_read`: `buffer` holds the `read_so_far` bytes. Every iteration copies
at least one byte, so `len` of them are enough. -/
def readSectors (readBlock : Nat → Except Int (Nat → Byte)) (len : Nat) :
    Nat → Nat → Nat → List Byte → Option Int × List Byte
  | 0, _, _, buffer => (none, buffer)
  | fuel + 1, sector, offset, buffer =>
    if buffer.length < len then
      match readBlock sector with
      | .error ret => (some ret, buffer)
      | .ok sectorBuffer =>
        let remaining := len - buffer.length
        let toCopy := min remaining (DISK_SECTOR_SIZE - offset)
        readSectors readBlock len fuel (sector + 1) 0
          (buffer ++ (List.range toCopy).map fun i => sectorBuffer (offset + i))
    else (none, buffer)

/-- `diskstream_read`: the returned value and the bytes copied to the buffer. -/
def diskstreamRead (len : Int) : DevM (Int × List Byte) := fun s =>
  let s' := { s with reads := s.reads ++ [(s.ppos, len.toNat)] }
  match readSectors (diskReadBlock s.disk) len.toNat len.toNat (s.ppos / DISK_SECTOR_SIZE)
      (s.ppos % DISK_SECTOR_SIZE) [] with
  | (some ret, buffer) => .ok ((ret, buffer), s')
  | (none, buffer) =>
    .ok ((buffer.length, buffer), { s' with ppos := u32 (s.ppos + buffer.length) })

/-! ## Flat reading -/

variable {disk : Disk}

@[simp] theorem Disk.slice_length (a n : Nat) : (disk.slice a n).length = n := by simp [slice]

theorem Disk.slice_add (a n m : Nat) :
    disk.slice a (n + m) = disk.slice a n ++ disk.slice (a + n) m := by
  simp [slice, List.range_add, Nat.add_assoc]

theorem Disk.slice_take {a n m : Nat} (h : m ≤ n) : (disk.slice a n).take m = disk.slice a m := by
  rw [show n = m + (n - m) by omega, slice_add, List.take_left' (slice_length a m)]

/-- From a sector-aligned remainder on, the loop reads the bytes that follow. -/
theorem readSectors_eq {a len : Nat} : ∀ {fuel sector offset k : Nat}, k ≤ len → len ≤ fuel + k →
    offset < DISK_SECTOR_SIZE → sector * DISK_SECTOR_SIZE + offset = a + k →
    readSectors (diskReadBlock disk) len fuel sector offset (disk.slice a k) =
      (none, disk.slice a len) := by
  intro fuel
  induction fuel with
  | zero =>
    intro sector offset k hk hf _ _
    obtain rfl : k = len := by omega
    rfl
  | succ fuel ih =>
    intro sector offset k hk hf ho ha
    rw [readSectors, Disk.slice_length]
    by_cases hlt : k < len
    · have hpos : 0 < min (len - k) (DISK_SECTOR_SIZE - offset) := by omega
      generalize hm : min (len - k) (DISK_SECTOR_SIZE - offset) = m at hpos
      simp only [hlt, if_true, diskReadBlock]
      have hcopy : ((List.range m).map fun i =>
          disk.bytes (sector * DISK_SECTOR_SIZE + (offset + i))) = disk.slice (a + k) m := by
        simp only [Disk.slice, ← Nat.add_assoc, ha]
      rw [hm, hcopy, ← Disk.slice_add]
      by_cases hend : k + m = len
      · -- the rest of the request was in this sector
        rw [hend]
        cases fuel <;> simp [readSectors]
      · have hnext : (sector + 1) * DISK_SECTOR_SIZE + 0 = a + (k + m) := by
          rw [Nat.add_one_mul]
          omega
        exact ih (by omega) (by omega) (Nat.lt_of_le_of_lt (Nat.zero_le _) ho) hnext
    · obtain rfl : k = len := by omega
      simp

/-- Sector-wise reading is flat reading. -/
theorem diskstreamRead_eq (s : DiskStream) (len : Nat) :
    diskstreamRead len s = .ok ((len, s.disk.slice s.ppos len),
      { s with ppos := u32 (s.ppos + len), reads := s.reads ++ [(s.ppos, len)] }) := by
  have h := @readSectors_eq s.disk s.ppos len len (s.ppos / DISK_SECTOR_SIZE)
    (s.ppos % DISK_SECTOR_SIZE) 0 (Nat.zero_le _) (Nat.le_refl _)
    (Nat.mod_lt _ (by unfold DISK_SECTOR_SIZE; omega))
    (by rw [Nat.add_zero, Nat.mul_comm]; exact Nat.div_add_mod _ _)
  simp only [diskstreamRead, Int.toNat_natCast]
  rw [show ([] : List Byte) = s.disk.slice s.ppos 0 from rfl, h]
  simp

/-- A length that is no positive `int` reads nothing. -/
theorem diskstreamRead_nonpos (s : DiskStream) {len : Int} (h : len ≤ 0) :
    diskstreamRead len s =
      .ok ((0, []), { s with ppos := u32 s.ppos, reads := s.reads ++ [(s.ppos, 0)] }) := by
  rw [diskstreamRead, Int.toNat_of_nonpos h]
  rfl

/-! ## Code that does not depend on the position -/

/-- From any position of a stream on `disk`, `m` returns a value with `Q`. -/
def Gives {α : Type} (disk : Disk) (m : DevM α) (Q : α → Prop) : Prop :=
  Returns (fun s => s.disk = disk) m fun a s => s.disk = disk ∧ Q a

namespace Gives

variable {α β : Type} {m : DevM α} {Q R : α → Prop}

theorem pure {a : α} (h : Q a) : Gives disk (Pure.pure a) Q := Returns.pure fun _ hs => ⟨hs, h⟩

theorem bind {f : α → DevM β} {S : β → Prop} (hm : Gives disk m Q)
    (hf : ∀ a, Q a → Gives disk (f a) S) : Gives disk (m >>= f) S :=
  Returns.bind hm fun a s hs => hf a hs.2 s hs.1

theorem mono (hm : Gives disk m Q) (h : ∀ a, Q a → R a) : Gives disk m R :=
  Returns.mono hm fun a _ hs => ⟨hs.1, h a hs.2⟩

/-- There is one result. -/
theorem unique {a b : α} (ha : Gives disk m (· = a)) (hb : Gives disk m (· = b)) : a = b := by
  obtain ⟨_, _, hrun, -, rfl⟩ := ha ⟨disk, 0, []⟩ rfl
  obtain ⟨_, _, hrun', -, rfl⟩ := hb ⟨disk, 0, []⟩ rfl
  rw [hrun] at hrun'
  cases hrun'
  rfl

/-- A read after a seek. -/
theorem read (a len : Nat) {f : Int × List Byte → DevM β} {S : β → Prop}
    (hf : Gives disk (f (len, disk.slice a len)) S) :
    Gives disk (do let _ ← diskstreamSeek a; let r ← diskstreamRead len; f r) S := by
  rintro s rfl
  obtain ⟨b, t, hrun, ht⟩ := hf
    { s with ppos := u32 (a + len), reads := s.reads ++ [(a, len)] } rfl
  refine ⟨b, t, ?_, ht⟩
  have hread := diskstreamRead_eq { s with ppos := a } len
  simp only [Bind.bind, StateT.bind, Except.bind, diskstreamSeek, hread]
  exact hrun

end Gives

/-- What `m` returns depends on the disk only. -/
def Blind {α : Type} (m : DevM α) : Prop := ∀ ⦃s a t⦄, m s = .ok (a, t) → Gives s.disk m (· = a)

namespace Blind

variable {α β : Type} {m m' : DevM α}

theorem pure (a : α) : Blind (Pure.pure a) := by
  rintro s _ _ h
  cases h
  exact Gives.pure rfl

theorem throw (e : Fault) : Blind (MonadExcept.throw e : DevM α) := by
  rintro s _ _ h
  cases h

theorem ite {c : Prop} [Decidable c] (h : Blind m) (h' : Blind m') : Blind (if c then m else m') := by
  split
  · exact h
  · exact h'

theorem disk_eq (hm : Blind m) {s t : DiskStream} {a : α} (h : m s = .ok (a, t)) :
    t.disk = s.disk := by
  obtain ⟨b, u, hrun, hu, -⟩ := hm h s rfl
  rw [h] at hrun
  cases hrun
  exact hu

theorem bind {f : α → DevM β} (hm : Blind m) (hf : ∀ a, Blind (f a)) : Blind (m >>= f) := by
  intro s b t h
  simp only [Bind.bind, StateT.bind, Except.bind] at h
  cases hrun : m s with
  | error e => simp [hrun] at h
  | ok r =>
    rw [hrun] at h
    have hrest := hf r.1 h
    rw [hm.disk_eq hrun] at hrest
    refine (hm hrun).bind fun a ha => ?_
    rw [ha]
    exact hrest

/-- A read after a seek. -/
theorem read (a : Nat) (len : Int) {f : Int × List Byte → DevM β} (hf : ∀ r, Blind (f r)) :
    Blind (do let _ ← diskstreamSeek a; let r ← diskstreamRead len; f r) := by
  have hread : Blind (do let _ ← diskstreamSeek a; diskstreamRead len) := by
    intro s r t h s' hs'
    change diskstreamRead len { s with ppos := a } = _ at h
    change ∃ r' t', diskstreamRead len { s' with ppos := a } = _ ∧ _
    rcases Int.le_total len 0 with hlen | hlen
    · rw [diskstreamRead_nonpos _ hlen] at h ⊢
      cases h
      exact ⟨_, _, rfl, hs', rfl⟩
    · obtain ⟨n, rfl⟩ := Int.eq_ofNat_of_zero_le hlen
      rw [diskstreamRead_eq] at h ⊢
      cases h
      exact ⟨_, _, rfl, hs', by rw [hs']⟩
  exact hread.bind hf

end Blind

/-! ## The record of the reads only grows -/

def Logs {α : Type} (m : DevM α) : Prop := ∀ s a t, m s = .ok (a, t) → s.reads <+: t.reads

namespace Logs

variable {α β : Type} {m : DevM α}

theorem pure (a : α) : Logs (Pure.pure a) := by
  rintro s _ _ h
  cases h
  exact List.prefix_rfl

theorem throw (e : Fault) : Logs (MonadExcept.throw e : DevM α) := by
  rintro s _ _ h
  cases h

theorem bind {f : α → DevM β} (hm : Logs m) (hf : ∀ a, Logs (f a)) : Logs (m >>= f) := by
  intro s b t h
  simp only [Bind.bind, StateT.bind, Except.bind] at h
  cases hrun : m s with
  | error e => simp [hrun] at h
  | ok r =>
    rw [hrun] at h
    exact (hm s r.1 r.2 hrun).trans (hf r.1 r.2 b t h)

theorem seek (ppos : Nat) : Logs (diskstreamSeek ppos) := by
  rintro s _ _ h
  cases h
  exact List.prefix_rfl

theorem read (len : Int) : Logs (diskstreamRead len) := by
  rintro s r t h
  unfold diskstreamRead at h
  split at h <;> cases h <;> exact List.prefix_append _ _

end Logs

end AvocadOS
