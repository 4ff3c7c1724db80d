import AvocadOS.Disk.Flat
import AvocadOS.Lib.Fuel
import AvocadOS.Lib.Run

/-!
# The ATA drive (`disk_read_sector` of `disk.c`)

The driver polls a drive that works at its own pace: between two sectors the drive is busy for as
long as it likes, and a sector that it cannot read ends the command. One access to a port is the unit
of time.

* `Ata`: the drive, with its registers and what it is doing;
* `diskReadSector`: the driver, which never looks at the error bit;
* `poll_busy`: how the loop before a sector ends;
* `readWords_ok`, `readBlocks_ok`: the buffer behind the loops;
* `readBlocks_hangs`: when the driver does not come back;
* `AtaHost.returned_served`, `AtaHost.requests_served`: one request, and any sequence of requests.
-/

namespace AvocadOS

/-! ## The drive -/

/-- What the drive is doing. -/
inductive AtaPhase where
  | idle
  /-- The last command ended with an error. -/
  | failed
  /-- It gets sector `lba`, and `left` more are to follow; it is done in `wait` accesses. -/
  | busy (lba left wait : Nat)
  /-- It has sector `lba`, of which `word` words have been read. -/
  | data (lba left word : Nat)
  deriving DecidableEq

/-- BSY is 0x80, DRDY 0x40, DSC 0x10, DRQ 0x08, ERR 0x01. -/
def AtaPhase.status : AtaPhase → Byte
  | .idle => 0x50
  | .failed => 0x51
  | .busy _ _ _ => 0x80
  | .data _ _ _ => 0x58

structure Ata where
  disk : Disk
  /-- The sectors that it cannot read. -/
  bad : Nat → Bool
  /-- How long it takes for the `k`-th sector that it gets. -/
  latency : Nat → Nat
  /-- The number of sectors that it has got. -/
  fetched : Nat
  control : Byte
  sectorCount : Byte
  sectorNumber : Byte
  cylinderLow : Byte
  cylinderHigh : Byte
  driveHead : Byte
  phase : AtaPhase

namespace Ata

/-- The other drive of the cable is selected, and there is none. -/
def slave (a : Ata) : Bool := a.driveHead.getLsbD 4

/-- The status register. -/
def status (a : Ata) : Byte := if a.slave then 0 else a.phase.status

/-- The address in the registers, of 28 bits. -/
def lba (a : Ata) : Nat :=
  a.driveHead.toNat % 16 * 2 ^ 24 + a.cylinderHigh.toNat * 2 ^ 16 + a.cylinderLow.toNat * 2 ^ 8 +
    a.sectorNumber.toNat

/-- The drive goes for another sector. -/
def fetch (a : Ata) (lba left : Nat) : Ata :=
  { a with phase := .busy lba left (a.latency a.fetched), fetched := a.fetched + 1 }

/-- The time of one access. -/
def elapse (a : Ata) : Ata :=
  match a.phase with
  | .busy lba left 0 => { a with phase := if a.bad lba then .failed else .data lba left 0 }
  | .busy lba left (wait + 1) => { a with phase := .busy lba left wait }
  | _ => a

/-- READ SECTORS; a count of `0` is 256. A drive that is not done with its last command ignores it. -/
def command (a : Ata) (value : Byte) : Ata :=
  if a.slave ∨ value ≠ 0x20 then a
  else match a.phase with
    | .busy _ _ _ | .data _ _ _ => a
    | _ => a.fetch a.lba (if a.sectorCount = 0 then 255 else a.sectorCount.toNat - 1)

/-- The word at the front of the drive's buffer. -/
def word (a : Ata) : BitVec 16 :=
  match a.phase with
  | .data lba _ word =>
    let i := lba * DISK_SECTOR_SIZE + 2 * word
    a.disk.bytes (i + 1) ++ a.disk.bytes i
  | _ => 0xFFFF

/-- The word has been read. -/
def next (a : Ata) : Ata :=
  match a.phase with
  | .data lba left word =>
    if word + 1 < 256 then { a with phase := .data lba left (word + 1) }
    else if left = 0 then { a with phase := .idle }
    else a.fetch (lba + 1) (left - 1)
  | _ => a

def outb (port : BitVec 16) (value : Byte) (a : Ata) : Ata :=
  if port = 0x3F6 then { a with control := value }
  else if port = 0x1F2 then { a with sectorCount := value }
  else if port = 0x1F3 then { a with sectorNumber := value }
  else if port = 0x1F4 then { a with cylinderLow := value }
  else if port = 0x1F5 then { a with cylinderHigh := value }
  else if port = 0x1F6 then { a with driveHead := value }
  else if port = 0x1F7 then a.command value
  else a

/-- A byte of the data register, which takes a whole word off the buffer. -/
def dataByte (a : Ata) : Byte × Ata :=
  match a.phase with
  | .data _ _ _ => (a.word.setWidth 8, a.next)
  | _ => (0xFF, a.elapse)

/-- The status, also at the port of the alternate status. -/
def insb (port : BitVec 16) (a : Ata) : Byte × Ata :=
  if port = 0x1F7 ∨ port = 0x3F6 then (a.status, a.elapse)
  else if port = 0x1F0 then a.dataByte
  else (0xFF, a)

def insw (port : BitVec 16) (a : Ata) : BitVec 16 × Ata :=
  if port = 0x1F0 then (a.word, a.next) else (0xFFFF, a)

end Ata

/-! ## `disk.c` -/

def BUSY_BIT : Byte := 0x80
def DRQ_BIT : Byte := 0x08
def ATA_MASTER : Byte := 0xE0
def ATA_COMMAND_READ_SECTORS : Byte := 0x20
def ATA_PRIMARY_IO_BASE_REGISTER : BitVec 16 := 0x1F0
def ATA_PRIMARY_CONTROL_BASE_REGISTER : BitVec 16 := 0x3F6

/-- `struct ata_ports_t`, without the two registers that nobody uses. -/
structure AtaPorts where
  dataRegister : BitVec 16
  sectorCountRegister : BitVec 16
  sectorNumberRegister : BitVec 16
  cylinderLowRegister : BitVec 16
  cylinderHighRegister : BitVec 16
  driveHeadRegister : BitVec 16
  statusCommandRegister : BitVec 16
  deviceControlAlternateStatusRegister : BitVec 16

def ATA_PORTS_PRIMARY : AtaPorts where
  dataRegister := ATA_PRIMARY_IO_BASE_REGISTER
  sectorCountRegister := ATA_PRIMARY_IO_BASE_REGISTER + 2
  sectorNumberRegister := ATA_PRIMARY_IO_BASE_REGISTER + 3
  cylinderLowRegister := ATA_PRIMARY_IO_BASE_REGISTER + 4
  cylinderHighRegister := ATA_PRIMARY_IO_BASE_REGISTER + 5
  driveHeadRegister := ATA_PRIMARY_IO_BASE_REGISTER + 6
  statusCommandRegister := ATA_PRIMARY_IO_BASE_REGISTER + 7
  deviceControlAlternateStatusRegister := ATA_PRIMARY_CONTROL_BASE_REGISTER

/-- The fields of `struct disk_t` that the driver reads. -/
structure AtaDisk where
  masterSlaveFlag : Byte
  ataPorts : AtaPorts

/-- `disks[0]` behind `disk_init`. -/
def primaryMaster : AtaDisk := ⟨ATA_MASTER, ATA_PORTS_PRIMARY⟩

/-- The drive and the memory. -/
structure AtaHost where
  ata : Ata
  memory : Memory

abbrev AtaM := StateT AtaHost (Except Fault)

namespace AtaHost

def outb (port : BitVec 16) (value : Byte) : AtaM Unit := fun s =>
  .ok ((), { s with ata := s.ata.outb port value })

def insb (port : BitVec 16) : AtaM Byte := fun s =>
  .ok ((s.ata.insb port).1, { s with ata := (s.ata.insb port).2 })

def insw (port : BitVec 16) : AtaM (BitVec 16) := fun s =>
  .ok ((s.ata.insw port).1, { s with ata := (s.ata.insw port).2 })

/-- `*ptr = value` of a `uint16_t`. -/
def storeWord (ptr : Word) (value : BitVec 16) : AtaM Unit := fun s =>
  .ok ((), { s with
    memory := storeByte (storeByte s.memory ptr (value.setWidth 8)) (ptr + 1)
      ((value >>> 8).setWidth 8) })

end AtaHost

open AtaHost

/-- `do status = insb(port); while (again(status));` -/
def poll (port : BitVec 16) (again : Byte → Bool) : Nat → AtaM Unit
  | 0 => throw .hang
  | fuel + 1 => do
    let status ← insb port
    if again status then poll port again fuel else pure ()

/-- The drive is busy, or has no sector. -/
def notReady (status : Byte) : Bool := status &&& BUSY_BIT ≠ 0 || status &&& DRQ_BIT = 0

def busy (status : Byte) : Bool := status &&& BUSY_BIT ≠ 0

/-- The inner loop: `count` words to `ptr`. -/
def readWords (port : BitVec 16) : Nat → Word → AtaM Unit
  | 0, _ => pure ()
  | count + 1, ptr => do
    storeWord ptr (← insw port)
    readWords port count (ptr + 2)

/-- The outer loop: `count` sectors to `ptr`. -/
def readBlocks (fuel : Nat) (ports : AtaPorts) : Nat → Word → AtaM Unit
  | 0, _ => pure ()
  | count + 1, ptr => do
    poll ports.statusCommandRegister notReady fuel
    readWords ports.dataRegister 256 ptr
    readBlocks fuel ports count (ptr + 512)

/-- `lba` and `n` are of type `int`. -/
def diskReadSector (fuel : Nat) (disk : AtaDisk) (lba n buf : Word) : AtaM Int := do
  let ports := disk.ataPorts
  AtaHost.outb ports.deviceControlAlternateStatusRegister 0x2
  AtaHost.outb ports.driveHeadRegister ((lba.sshiftRight 24).setWidth 8 ||| disk.masterSlaveFlag)
  AtaHost.outb ports.sectorCountRegister (n.setWidth 8)
  AtaHost.outb ports.sectorNumberRegister (lba.setWidth 8)
  AtaHost.outb ports.cylinderLowRegister ((lba.sshiftRight 8).setWidth 8)
  AtaHost.outb ports.cylinderHighRegister ((lba.sshiftRight 16).setWidth 8)
  AtaHost.outb ports.statusCommandRegister ATA_COMMAND_READ_SECTORS
  readBlocks fuel ports n.toInt.toNat buf
  poll ports.deviceControlAlternateStatusRegister busy fuel
  pure 0

/-! ## Polling -/

/-- The same host, with the drive doing something else. -/
def AtaHost.at (s : AtaHost) (phase : AtaPhase) : AtaHost := { s with ata := { s.ata with phase := phase } }

section

variable {s t : AtaHost} {port : BitVec 16} {again : Byte → Bool} {fuel lba left wait : Nat}

/-- The two ports at which the status is read. -/
def IsStatusPort (port : BitVec 16) : Prop := port = 0x1F7 ∨ port = 0x3F6

/-- The status of a drive that is selected. -/
theorem at_status (hmaster : s.ata.slave = false) (phase : AtaPhase) :
    (s.at phase).ata.status = phase.status := if_neg (Bool.eq_false_iff.mp hmaster)

theorem notReady_status (phase : AtaPhase) :
    notReady phase.status = match phase with | .data _ _ _ => false | _ => true := by
  cases phase <;> simp [notReady, AtaPhase.status, BUSY_BIT, DRQ_BIT]

theorem poll_step (hport : IsStatusPort port) : poll port again (fuel + 1) s =
    if again s.ata.status then poll port again fuel { s with ata := s.ata.elapse }
    else .ok ((), { s with ata := s.ata.elapse }) := by
  have hinsb : s.ata.insb port = (s.ata.status, s.ata.elapse) := if_pos hport
  rw [poll]
  change (if again (s.ata.insb port).1 = true then poll port again fuel else pure ())
    { s with ata := (s.ata.insb port).2 } = _
  rw [hinsb]
  split <;> rfl

/-- A drive that does nothing gives the same status forever. -/
theorem poll_stuck (hport : IsStatusPort port) (hstays : s.ata.elapse = s.ata)
    (hagain : again s.ata.status = true) : poll port again fuel s = .error .hang := by
  induction fuel with
  | zero => rfl
  | succ fuel ih => rw [poll_step hport, if_pos hagain, hstays, ih]

/-- The loop before a sector. -/
theorem poll_busy (hport : IsStatusPort port) (hmaster : s.ata.slave = false) :
    poll port notReady fuel (s.at (.busy lba left wait)) =
      if s.ata.bad lba = true ∨ fuel < wait + 2 then .error .hang
      else .ok ((), s.at (.data lba left 0)) := by
  have hagain : ∀ wait, notReady (s.at (.busy lba left wait)).ata.status = true := by
    intro wait
    rw [at_status hmaster, notReady_status]
  induction wait generalizing fuel with
  | zero =>
    cases fuel with
    | zero => rw [if_pos (.inr (by omega))]; rfl
    | succ fuel =>
    rw [poll_step hport, if_pos (hagain 0)]
    change poll port notReady fuel
      (s.at (if s.ata.bad lba = true then .failed else .data lba left 0)) = _
    by_cases hbad : s.ata.bad lba = true
    · rw [if_pos hbad, if_pos (.inl hbad)]
      exact poll_stuck hport rfl (by rw [at_status hmaster, notReady_status])
    · rw [if_neg hbad]
      cases fuel with
      | zero => rw [if_pos (.inr (by omega))]; rfl
      | succ fuel =>
        rw [poll_step hport, at_status hmaster, notReady_status, if_neg Bool.false_ne_true,
          if_neg (by simp [hbad])]
        rfl
  | succ wait ih =>
    cases fuel with
    | zero => rw [if_pos (.inr (by omega))]; rfl
    | succ fuel =>
    rw [poll_step hport, if_pos (hagain _)]
    exact (@ih fuel).trans (if_congr (or_congr Iff.rfl (by omega)) rfl rfl)

end

/-! ## The buffer -/

/-- The first `k` bytes of the buffer have been written. -/
def Filled (m₀ : Memory) (buf : Word) (bytes : Nat → Byte) (k : Nat) (m : Memory) : Prop :=
  ∀ x, m x = if (x - buf).toNat < k then bytes (x - buf).toNat else m₀ x

/-- The drive behind the last word of a sector. -/
def Ata.sent (a : Ata) (lba left : Nat) : Ata :=
  if left = 0 then { a with phase := .idle } else a.fetch (lba + 1) (left - 1)

section

variable {m₀ m : Memory} {buf : Word} {bytes : Nat → Byte} {s : AtaHost} {fuel b k lba left wait : Nat}
  {ports : AtaPorts}

theorem add_ofNat_add (p : Word) (k n : Nat) :
    p + BitVec.ofNat 32 k + BitVec.ofNat 32 n = p + BitVec.ofNat 32 (k + n) := by
  rw [BitVec.add_assoc, ← BitVec.ofNat_add]

theorem Filled.zero : Filled m buf bytes 0 m := fun _ => (if_neg (Nat.not_lt_zero _)).symm

/-- One more word. -/
theorem Filled.word (h : Filled m₀ buf bytes k m) (hk : k + 2 ≤ 2 ^ 32) :
    Filled m₀ buf bytes (k + 2) (storeByte (storeByte m (buf + BitVec.ofNat 32 k) (bytes k))
      (buf + BitVec.ofNat 32 k + 1) (bytes (k + 1))) := by
  intro x
  have hnext : buf + BitVec.ofNat 32 k + 1 = buf + BitVec.ofNat 32 (k + 1) := add_ofNat_add buf k 1
  rw [hnext, storeByte_eq _ _ _ _ (by omega), storeByte_eq _ _ _ _ (by omega), h x]
  by_cases hlow : (x - buf).toNat < k
  · rw [if_neg (by omega), if_neg (by omega), if_pos hlow, if_pos (by omega)]
  · by_cases hin : (x - buf).toNat < k + 2
    · rw [if_pos hin]
      rcases (show (x - buf).toNat = k ∨ (x - buf).toNat = k + 1 by omega) with he | he
      · rw [he, if_neg (by omega), if_pos rfl]
      · rw [he, if_pos rfl]
    · rw [if_neg (by omega), if_neg (by omega), if_neg hlow, if_neg hin]

theorem word_bytes (high low : Byte) :
    (high ++ low).setWidth 8 = low ∧ ((high ++ low) >>> 8).setWidth 8 = high := by
  constructor
  · refine BitVec.eq_of_getLsbD_eq fun i hi => ?_
    simp only [BitVec.getLsbD_setWidth, BitVec.getLsbD_append]
    grind
  · refine BitVec.eq_of_getLsbD_eq fun i hi => ?_
    simp only [BitVec.getLsbD_setWidth, BitVec.getLsbD_ushiftRight, BitVec.getLsbD_append]
    grind

/-- One word: its bytes go to the buffer, the lower one first. -/
theorem readWords_step {count w : Nat} (ptr : Word) :
    readWords 0x1F0 (count + 1) ptr (s.at (.data lba left w)) =
      readWords 0x1F0 count (ptr + 2)
        ⟨{ s.ata with phase := .data lba left w }.next,
          storeByte (storeByte s.memory ptr (s.ata.disk.bytes (lba * 512 + 2 * w)))
            (ptr + 1) (s.ata.disk.bytes (lba * 512 + (2 * w + 1)))⟩ := by
  obtain ⟨v, hv⟩ : ∃ v : BitVec 16, v = s.ata.disk.bytes (lba * 512 + 2 * w + 1) ++
      s.ata.disk.bytes (lba * 512 + 2 * w) := ⟨_, rfl⟩
  have hrun : readWords 0x1F0 (count + 1) ptr (s.at (.data lba left w)) =
      readWords 0x1F0 count (ptr + 2) ⟨{ s.ata with phase := .data lba left w }.next,
        storeByte (storeByte s.memory ptr (v.setWidth 8)) (ptr + 1) ((v >>> 8).setWidth 8)⟩ := by
    rw [hv]
    rfl
  rw [hrun, hv, (word_bytes _ _).1, (word_bytes _ _).2, Nat.add_assoc]

/-- The rest of a sector, from word `w` on. -/
theorem readWords_ok (hbytes : ∀ i < 512, bytes (512 * b + i) = s.ata.disk.bytes (lba * 512 + i))
    (hroom : 512 * (b + 1) ≤ 2 ^ 32) : ∀ {count w : Nat} {m : Memory}, w + (count + 1) = 256 →
    Filled m₀ buf bytes (512 * b + 2 * w) m →
    ∃ m', readWords 0x1F0 (count + 1) (buf + BitVec.ofNat 32 (512 * b + 2 * w))
        ({ s with memory := m }.at (.data lba left w)) = .ok ((), ⟨s.ata.sent lba left, m'⟩) ∧
      Filled m₀ buf bytes (512 * (b + 1)) m' := by
  intro count
  induction count with
  | zero =>
    intro w m hw hm
    have hword := hm.word (by omega)
    rw [hbytes _ (by omega), show 512 * b + 2 * w + 1 = 512 * b + (2 * w + 1) by omega,
      hbytes _ (by omega), show 512 * b + 2 * w + 2 = 512 * (b + 1) by omega] at hword
    refine ⟨_, ?_, hword⟩
    rw [readWords_step]
    simp only [Ata.next, show ¬ w + 1 < 256 by omega, if_false, readWords]
    rfl
  | succ count ih =>
    intro w m hw hm
    have hword := hm.word (by omega)
    rw [hbytes _ (by omega), show 512 * b + 2 * w + 1 = 512 * b + (2 * w + 1) by omega,
      hbytes _ (by omega), show 512 * b + 2 * w + 2 = 512 * b + 2 * (w + 1) by omega] at hword
    obtain ⟨m', hrun, hm'⟩ := ih (by omega) hword
    refine ⟨m', ?_, hm'⟩
    have hptr : buf + BitVec.ofNat 32 (512 * b + 2 * w) + 2 =
        buf + BitVec.ofNat 32 (512 * b + 2 * (w + 1)) := add_ofNat_add buf _ 2
    rw [readWords_step, ← hrun, ← hptr]
    simp only [Ata.next, show w + 1 < 256 by omega, if_true]
    rfl

/-! ## Sectors -/

/-- Where the driver expects the registers. -/
structure AtaPorts.Primary (ports : AtaPorts) : Prop where
  data : ports.dataRegister = 0x1F0
  status : ports.statusCommandRegister = 0x1F7

/-- The next sector does not come. -/
theorem readBlocks_stuck {count : Nat} (hports : ports.Primary) (hmaster : s.ata.slave = false)
    (hstuck : s.ata.bad lba = true ∨ fuel < wait + 2) (ptr : Word) :
    readBlocks fuel ports (count + 1) ptr (s.at (.busy lba left wait)) = .error .hang := by
  have hpoll := @poll_busy s 0x1F7 fuel lba left wait (.inl rfl) hmaster
  rw [if_pos hstuck] at hpoll
  rw [readBlocks, hports.status]
  simp only [Bind.bind, StateT.bind, Except.bind, hpoll]

/-- It does. -/
theorem readBlocks_sector {count : Nat} (hports : ports.Primary) (hmaster : s.ata.slave = false)
    (hgood : s.ata.bad lba = false) (hfuel : wait + 2 ≤ fuel)
    (hbytes : ∀ i < 512, bytes (512 * b + i) = s.ata.disk.bytes (lba * 512 + i))
    (hroom : 512 * (b + 1) ≤ 2 ^ 32) (hm : Filled m₀ buf bytes (512 * b) s.memory) :
    ∃ m', readBlocks fuel ports (count + 1) (buf + BitVec.ofNat 32 (512 * b))
        (s.at (.busy lba left wait)) =
          readBlocks fuel ports count (buf + BitVec.ofNat 32 (512 * (b + 1)))
            ⟨s.ata.sent lba left, m'⟩ ∧
      Filled m₀ buf bytes (512 * (b + 1)) m' := by
  have hpoll := @poll_busy s 0x1F7 fuel lba left wait (.inl rfl) hmaster
  rw [if_neg (by simp [hgood]; omega)] at hpoll
  obtain ⟨m', hwords, hm'⟩ := @readWords_ok m₀ buf bytes s b lba left hbytes hroom 255 0 s.memory
    (by omega) hm
  have hptr : buf + BitVec.ofNat 32 (512 * b) + 512 = buf + BitVec.ofNat 32 (512 * (b + 1)) :=
    add_ofNat_add buf (512 * b) 512
  refine ⟨m', ?_, hm'⟩
  have hwords' : readWords 0x1F0 256 (buf + BitVec.ofNat 32 (512 * b)) (s.at (.data lba left 0)) =
    .ok ((), ⟨s.ata.sent lba left, m'⟩) := hwords
  rw [readBlocks, hports.status, hports.data, ← hptr]
  simp only [Bind.bind, StateT.bind, Except.bind, hpoll, hwords']

/-- `count` sectors, all of which the drive sends. -/
theorem readBlocks_ok (hports : ports.Primary) : ∀ {count : Nat} {s : AtaHost} {b lba left wait : Nat},
    s.ata.slave = false → left + 1 = count →
    (∀ i < 512 * count, bytes (512 * b + i) = s.ata.disk.bytes (lba * 512 + i)) →
    512 * (b + count) ≤ 2 ^ 32 → (∀ i < count, s.ata.bad (lba + i) = false) → wait + 2 ≤ fuel →
    (∀ j < s.ata.fetched + left, s.ata.latency j + 2 ≤ fuel) → Filled m₀ buf bytes (512 * b) s.memory →
    ∃ m', readBlocks fuel ports count (buf + BitVec.ofNat 32 (512 * b)) (s.at (.busy lba left wait)) =
        .ok ((), ⟨{ s.ata with phase := .idle, fetched := s.ata.fetched + left }, m'⟩) ∧
      Filled m₀ buf bytes (512 * (b + count)) m' := by
  intro count
  induction count with
  | zero => intro s b lba left wait _ hleft; omega
  | succ count ih =>
    intro s b lba left wait hmaster hleft hbytes hroom hbad hwait hlatency hm
    obtain ⟨m', hrun, hm'⟩ := @readBlocks_sector m₀ buf bytes s fuel b lba left wait ports count hports
      hmaster (hbad 0 (by omega)) hwait (fun i hi => hbytes i (by omega)) (by omega) hm
    rw [hrun]
    cases left with
    | zero =>
      obtain rfl : count = 0 := by omega
      exact ⟨m', rfl, hm'⟩
    | succ left =>
      have hbytes' : ∀ i < 512 * count,
          bytes (512 * (b + 1) + i) = s.ata.disk.bytes ((lba + 1) * 512 + i) := by
        intro i hi
        rw [show 512 * (b + 1) + i = 512 * b + (512 + i) by omega, hbytes _ (by omega),
          show (lba + 1) * 512 + i = lba * 512 + (512 + i) by omega]
      have hbad' : ∀ i < count, s.ata.bad (lba + 1 + i) = false := by
        intro i hi
        rw [Nat.add_assoc, Nat.add_comm 1 i]
        exact hbad (i + 1) (by omega)
      have hlatency' : ∀ j < s.ata.fetched + 1 + left, s.ata.latency j + 2 ≤ fuel :=
        fun j hj => hlatency j (by omega)
      obtain ⟨m'', hrun', hm''⟩ := @ih ⟨{ s.ata with fetched := s.ata.fetched + 1 }, m'⟩ (b + 1)
        (lba + 1) left (s.ata.latency s.ata.fetched) hmaster (by omega) hbytes' (by omega) hbad'
        (hlatency _ (by omega)) hlatency' hm'
      rw [show b + (count + 1) = b + 1 + count by omega,
        show s.ata.fetched + (left + 1) = s.ata.fetched + 1 + left by omega]
      exact ⟨m'', hrun', hm''⟩

/-- A sector that the drive cannot read, or does not send, is waited for forever. -/
theorem readBlocks_hangs (hports : ports.Primary) :
    ∀ {count : Nat} {s : AtaHost} {lba left wait : Nat} (ptr : Word), s.ata.slave = false →
    (left + 1 < count ∨ ∃ i < count, i ≤ left ∧ s.ata.bad (lba + i) = true) →
    readBlocks fuel ports count ptr (s.at (.busy lba left wait)) = .error .hang := by
  intro count
  induction count with
  | zero => rintro s lba left wait ptr _ (h | ⟨i, hi, -⟩) <;> omega
  | succ count ih =>
    intro s lba left wait ptr hmaster h
    by_cases hstuck : s.ata.bad lba = true ∨ fuel < wait + 2
    · exact readBlocks_stuck hports hmaster hstuck ptr
    obtain ⟨hgood, hfuel⟩ := not_or.mp hstuck
    obtain ⟨m', hrun, -⟩ := @readBlocks_sector s.memory ptr (fun i => s.ata.disk.bytes (lba * 512 + i))
      s fuel 0 lba left wait ports count hports hmaster (by simpa using hgood) (by omega)
      (fun i _ => by simp) (by omega) .zero
    rw [show ptr = ptr + BitVec.ofNat 32 (512 * 0) from (BitVec.add_zero ptr).symm, hrun]
    cases left with
    | zero =>
      -- the drive is done, and the driver waits for another sector
      obtain ⟨count, rfl⟩ : ∃ n, count = n + 1 := by
        rcases h with h | ⟨i, -, hi, hbad⟩
        · exact ⟨count - 1, by omega⟩
        · rw [Nat.le_zero.mp hi] at hbad
          exact absurd hbad hgood
      have hstatus : (s.ata.sent lba 0).status = AtaPhase.idle.status := at_status hmaster .idle
      have hidle : poll 0x1F7 notReady fuel ⟨s.ata.sent lba 0, m'⟩ = .error .hang :=
        poll_stuck (.inl rfl) rfl (by rw [hstatus, notReady_status])
      rw [readBlocks, hports.status]
      simp only [Bind.bind, StateT.bind, Except.bind, hidle]
    | succ left =>
      refine @ih ⟨{ s.ata with fetched := s.ata.fetched + 1 }, m'⟩ (lba + 1) left
        (s.ata.latency s.ata.fetched) _ hmaster ?_
      rcases h with h | ⟨i, hi, hle, hbad⟩
      · exact .inl (by omega)
      · cases i with
        | zero => exact absurd hbad hgood
        | succ i =>
          refine .inr ⟨i, by omega, by omega, ?_⟩
          rwa [Nat.add_assoc, Nat.add_comm 1 i]

end

/-! ## Fuel -/

theorem poll_below (port : BitVec 16) (again : Byte → Bool) (fuel : Nat) :
    Below .hang (poll port again fuel) (poll port again (fuel + 1)) := by
  induction fuel with
  | zero => exact .throw
  | succ fuel ih => exact .bind (.refl _) fun _ _ _ _ => .ite ih (.refl _)

theorem readBlocks_below (fuel : Nat) (ports : AtaPorts) (count : Nat) (ptr : Word) :
    Below .hang (readBlocks fuel ports count ptr) (readBlocks (fuel + 1) ports count ptr) := by
  induction count generalizing ptr with
  | zero => exact .refl _
  | succ count ih =>
    exact .bind (poll_below _ _ fuel) fun _ _ _ _ => .bind (.refl _) fun _ _ _ _ => ih _

theorem diskReadSector_below (fuel : Nat) (disk : AtaDisk) (lba n buf : Word) :
    Below .hang (diskReadSector fuel disk lba n buf) (diskReadSector (fuel + 1) disk lba n buf) := by
  refine .bind (.refl _) fun _ _ _ _ => .bind (.refl _) fun _ _ _ _ => .bind (.refl _) fun _ _ _ _ => ?_
  refine .bind (.refl _) fun _ _ _ _ => .bind (.refl _) fun _ _ _ _ => .bind (.refl _) fun _ _ _ _ => ?_
  refine .bind (.refl _) fun _ _ _ _ => .bind (readBlocks_below _ _ _ _) fun _ _ _ _ => ?_
  exact .bind (poll_below _ _ _) fun _ _ _ _ => .refl _

/-! ## Requests -/

/-- The registers of the drive before the command. -/
def Ata.programmed (a : Ata) (lba n : Word) : Ata :=
  { a with
    control := 0x2
    driveHead := (lba.sshiftRight 24).setWidth 8 ||| ATA_MASTER
    sectorCount := n.setWidth 8
    sectorNumber := lba.setWidth 8
    cylinderLow := (lba.sshiftRight 8).setWidth 8
    cylinderHigh := (lba.sshiftRight 16).setWidth 8 }

section

variable {s : AtaHost} {lba n buf : Word} {fuel : Nat}

theorem diskReadSector_eq : diskReadSector fuel primaryMaster lba n buf s =
    (do readBlocks fuel ATA_PORTS_PRIMARY n.toInt.toNat buf
        poll 0x3F6 busy fuel
        pure 0 : AtaM Int) ⟨(s.ata.programmed lba n).command 0x20, s.memory⟩ := rfl

theorem sshiftRight_byte (x : Word) {k : Nat} (hk : k ≤ 24) :
    ((x.sshiftRight k).setWidth 8).toNat = x.toNat / 2 ^ k % 256 := by
  have hbits : (x.sshiftRight k).setWidth 8 = x.extractLsb' k 8 := by
    refine BitVec.eq_of_getLsbD_eq fun i hi => ?_
    simp only [BitVec.getLsbD_setWidth, BitVec.getLsbD_sshiftRight, BitVec.getLsbD_extractLsb']
    grind
  rw [hbits, BitVec.extractLsb'_toNat, Nat.shiftRight_eq_div_pow]

/-- The highest bits of the address select the drive. -/
theorem programmed_slave (a : Ata) (lba n : Word) : (a.programmed lba n).slave = lba.getLsbD 28 := by
  simp [Ata.slave, Ata.programmed, ATA_MASTER, BitVec.getElem_sshiftRight]

/-- The drive gets the lower 28 bits. -/
theorem programmed_lba (a : Ata) (lba n : Word) : (a.programmed lba n).lba = lba.toNat % 2 ^ 28 := by
  have hhead : ((lba.sshiftRight 24).setWidth 8 ||| ATA_MASTER : Byte).toNat % 16 =
      lba.toNat / 2 ^ 24 % 16 := by
    rw [BitVec.toNat_or, show (16 : Nat) = 2 ^ 4 from rfl, Nat.or_mod_two_pow,
      show ATA_MASTER.toNat % 2 ^ 4 = 0 from rfl, Nat.or_zero, sshiftRight_byte lba (by decide)]
    omega
  simp only [Ata.lba, Ata.programmed, hhead]
  rw [sshiftRight_byte lba (by decide), sshiftRight_byte lba (by decide), BitVec.toNat_setWidth]
  omega

/-- The loop behind the last sector. -/
theorem poll_idle {fetched : Nat} (hmaster : s.ata.slave = false) (hfuel : 0 < fuel) :
    poll 0x3F6 busy fuel ⟨{ s.ata with phase := .idle, fetched := fetched }, s.memory⟩ =
      .ok ((), ⟨{ s.ata with phase := .idle, fetched := fetched }, s.memory⟩) := by
  obtain ⟨fuel, rfl⟩ : ∃ k, fuel = k + 1 := ⟨fuel - 1, by omega⟩
  have hstatus : ({ s.ata with phase := .idle, fetched := fetched } : Ata).status = 0x50 :=
    if_neg (Bool.eq_false_iff.mp hmaster)
  rw [poll_step (.inr rfl), hstatus, if_neg (by decide)]
  rfl

theorem primary_ports : ATA_PORTS_PRIMARY.Primary := ⟨rfl, rfl⟩

/-- The drive has the registers that it had, and the command. -/
theorem programmed_command (hphase : s.ata.phase = .idle) (hmaster : lba.getLsbD 28 = false) :
    (s.ata.programmed lba n).command 0x20 = (s.ata.programmed lba n).fetch (lba.toNat % 2 ^ 28)
      (if (n.setWidth 8 : Byte) = 0 then 255 else (n.setWidth 8 : Byte).toNat - 1) := by
  have hslave := (programmed_slave s.ata lba n).trans hmaster
  have hphase' : (s.ata.programmed lba n).phase = .idle := hphase
  simp only [Ata.command, hslave, hphase', programmed_lba]
  rfl

/-- The number of sectors that the drive sends. -/
theorem programmed_count (hn : 0 < n.toNat) :
    ∃ left, (if (n.setWidth 8 : Byte) = 0 then 255 else (n.setWidth 8 : Byte).toNat - 1) = left ∧
      left < 256 ∧ (n.toNat ≤ 256 ↔ left + 1 = n.toNat) ∧ (256 < n.toNat → left + 1 < n.toNat) := by
  refine ⟨_, rfl, ?_⟩
  have hwidth : (n.setWidth 8 : Byte).toNat = n.toNat % 256 := BitVec.toNat_setWidth 8 n
  split
  · next hzero =>
    rw [hzero] at hwidth
    have hzero' : (0 : Byte).toNat = 0 := rfl
    omega
  · next hzero =>
    have hpos : (n.setWidth 8 : Byte).toNat ≠ 0 := fun h => hzero (BitVec.eq_of_toNat_eq h)
    omega

/-- The latencies are bounded, up to any sector. -/
theorem latency_bound (latency : Nat → Nat) (k : Nat) : ∃ fuel, ∀ j < k, latency j + 2 ≤ fuel := by
  induction k with
  | zero => exact ⟨0, fun j hj => by omega⟩
  | succ k ih =>
    obtain ⟨fuel, h⟩ := ih
    refine ⟨max fuel (latency k + 2), fun j hj => ?_⟩
    rcases Nat.lt_succ_iff_lt_or_eq.mp hj with hj | rfl
    · exact Nat.le_trans (h j hj) (Nat.le_max_left _ _)
    · exact Nat.le_max_right _ _

/-- The request can be served. -/
def Ata.Readable (a : Ata) (lba n : Word) : Prop :=
  lba.getLsbD 28 = false ∧ n.toNat ≤ 256 ∧ ∀ i < n.toNat, a.bad (lba.toNat % 2 ^ 28 + i) = false

/-- `n` is a positive `int`. -/
def PositiveInt (n : Word) : Prop := 0 < n.toNat ∧ n.toNat < 2 ^ 31

theorem PositiveInt.toInt (hn : PositiveInt n) : n.toInt.toNat = n.toNat := by
  rw [BitVec.toInt_eq_toNat_of_lt (by have := hn.2; omega), Int.toNat_natCast]

/-- A request that can be served. -/
theorem diskReadSector_served (hphase : s.ata.phase = .idle) (hn : PositiveInt n)
    (h : s.ata.Readable lba n) (buf : Word) :
    ∃ fuel m fetched, diskReadSector fuel primaryMaster lba n buf s =
        .ok (0, ⟨{ s.ata.programmed lba n with phase := .idle, fetched := fetched }, m⟩) ∧
      Filled s.memory buf (fun i => s.ata.disk.bytes (lba.toNat % 2 ^ 28 * 512 + i))
        (512 * n.toNat) m := by
  obtain ⟨hmaster, hle, hgood⟩ := h
  obtain ⟨left, hleft, hlt, hiff, -⟩ := programmed_count hn.1
  obtain ⟨fuel, hfuel⟩ := latency_bound s.ata.latency (s.ata.fetched + 1 + left)
  have hcommand := programmed_command (n := n) hphase hmaster
  rw [hleft] at hcommand
  have hslave : (s.ata.programmed lba n).slave = false := (programmed_slave s.ata lba n).trans hmaster
  have hwait := hfuel s.ata.fetched (by omega)
  obtain ⟨m, hrun, hm⟩ := @readBlocks_ok s.memory buf
    (fun i => s.ata.disk.bytes (lba.toNat % 2 ^ 28 * 512 + i)) fuel ATA_PORTS_PRIMARY primary_ports
    n.toNat ⟨{ s.ata.programmed lba n with fetched := s.ata.fetched + 1 }, s.memory⟩ 0
    (lba.toNat % 2 ^ 28) left (s.ata.latency s.ata.fetched) hslave (hiff.mp hle)
    (fun i _ => by simp only [Nat.mul_zero, Nat.zero_add]; rfl) (by omega) hgood hwait
    hfuel .zero
  rw [show buf + BitVec.ofNat 32 (512 * 0) = buf from BitVec.add_zero buf] at hrun
  -- the drive is idle behind the last word, and the last loop ends at once
  have hpoll := @poll_idle ⟨s.ata.programmed lba n, m⟩ fuel (s.ata.fetched + 1 + left) hslave (by omega)
  refine ⟨fuel, m, s.ata.fetched + 1 + left, ?_, by rwa [Nat.zero_add] at hm⟩
  rw [diskReadSector_eq, hcommand, hn.toInt]
  simp only [Bind.bind, StateT.bind, Except.bind]
  rw [show (⟨(s.ata.programmed lba n).fetch (lba.toNat % 2 ^ 28) left, s.memory⟩ : AtaHost) =
    AtaHost.at ⟨{ s.ata.programmed lba n with fetched := s.ata.fetched + 1 }, s.memory⟩
      (.busy (lba.toNat % 2 ^ 28) left (s.ata.latency s.ata.fetched)) from rfl, hrun]
  simp only [hpoll]
  rfl

/-- A request that cannot. -/
theorem diskReadSector_hangs (hphase : s.ata.phase = .idle) (hn : PositiveInt n)
    (h : ¬ s.ata.Readable lba n) (fuel : Nat) :
    diskReadSector fuel primaryMaster lba n buf s = .error .hang := by
  obtain ⟨count, hcount⟩ : ∃ count, n.toNat = count + 1 := ⟨n.toNat - 1, by have := hn.1; omega⟩
  rw [diskReadSector_eq, hn.toInt]
  suffices hblocks : readBlocks fuel ATA_PORTS_PRIMARY n.toNat buf
      ⟨(s.ata.programmed lba n).command 0x20, s.memory⟩ = .error .hang by
    simp only [Bind.bind, StateT.bind, Except.bind, hblocks]
  cases hmaster : lba.getLsbD 28 with
  | true =>
    -- no drive answers
    have hslave : (s.ata.programmed lba n).slave = true := (programmed_slave s.ata lba n).trans hmaster
    have hcommand : (s.ata.programmed lba n).command 0x20 = s.ata.programmed lba n := by
      simp [Ata.command, hslave]
    have hstatus : (s.ata.programmed lba n).status = 0 := if_pos hslave
    have hstays : (s.ata.programmed lba n).elapse = s.ata.programmed lba n := by
      simp only [Ata.elapse, show (s.ata.programmed lba n).phase = .idle from hphase]
    have hpoll := @poll_stuck ⟨s.ata.programmed lba n, s.memory⟩ 0x1F7 notReady fuel (.inl rfl) hstays
      (by rw [hstatus]; decide)
    rw [hcommand, hcount, readBlocks]
    simp only [Bind.bind, StateT.bind, Except.bind]
    rw [show ATA_PORTS_PRIMARY.statusCommandRegister = 0x1F7 from rfl, hpoll]
  | false =>
    obtain ⟨left, hleft, hlt, hiff, hmore⟩ := programmed_count hn.1
    have hcommand := programmed_command (n := n) hphase hmaster
    rw [hleft] at hcommand
    have hslave : (s.ata.programmed lba n).slave = false := (programmed_slave s.ata lba n).trans hmaster
    rw [hcommand]
    refine @readBlocks_hangs fuel ATA_PORTS_PRIMARY primary_ports n.toNat
      ⟨{ s.ata.programmed lba n with fetched := s.ata.fetched + 1 }, s.memory⟩
      (lba.toNat % 2 ^ 28) left (s.ata.latency s.ata.fetched) buf hslave ?_
    by_cases hle : n.toNat ≤ 256
    · have hbad : ∃ i < n.toNat, s.ata.bad (lba.toNat % 2 ^ 28 + i) = true := by
        by_contra hno
        refine h ⟨hmaster, hle, fun i hi => ?_⟩
        by_contra hbad
        exact hno ⟨i, hi, by simpa using hbad⟩
      obtain ⟨i, hi, hbad⟩ := hbad
      exact .inr ⟨i, hi, by have := hiff.mp hle; omega, hbad⟩
    · exact .inl (hmore (by omega))

end

/-- A call of `disk_read_sector`. -/
structure SectorRequest where
  lba : Word
  n : Word
  buf : Word

namespace AtaHost

variable {s₀ s t : AtaHost} {req : SectorRequest}

/-- A call for one sector or more that came back. -/
inductive Step : AtaHost → SectorRequest → AtaHost → Prop
  | returned {s t : AtaHost} {req : SectorRequest} {fuel : Nat} {r : Int} (hn : PositiveInt req.n)
      (h : diskReadSector fuel primaryMaster req.lba req.n req.buf s = .ok (r, t)) : Step s req t

/-- It is the same drive, and it waits for a command. -/
structure Idle (s₀ s : AtaHost) : Prop where
  phase : s.ata.phase = .idle
  disk : s.ata.disk = s₀.ata.disk
  bad : s.ata.bad = s₀.ata.bad

/-- The buffer has the sectors, and no other memory has changed. -/
def Served (s : AtaHost) (req : SectorRequest) (t : AtaHost) : Prop :=
  Filled s.memory req.buf (fun i => s.ata.disk.bytes (req.lba.toNat % 2 ^ 28 * 512 + i))
    (512 * req.n.toNat) t.memory

/-- One call. -/
theorem returned_served {fuel : Nat} {r : Int} (hphase : s.ata.phase = .idle) (hn : PositiveInt req.n)
    (h : diskReadSector fuel primaryMaster req.lba req.n req.buf s = .ok (r, t)) :
    r = 0 ∧ s.Idle t ∧ s.Served req t := by
  have hreadable : s.ata.Readable req.lba req.n := by
    by_contra hno
    rw [diskReadSector_hangs hphase hn hno] at h
    cases h
  obtain ⟨fuel', m, fetched, hrun, hm⟩ := diskReadSector_served hphase hn hreadable req.buf
  -- with the fuel of both, the two results are one
  have hmore := fun k => diskReadSector_below k primaryMaster req.lba req.n req.buf
  have h₁ := (Below.le hmore (Nat.le_max_left fuel fuel')).ok h
  have h₂ := (Below.le hmore (Nat.le_max_right fuel fuel')).ok hrun
  rw [h₁] at h₂
  cases h₂
  exact ⟨rfl, ⟨rfl, rfl, rfl⟩, hm⟩

theorem step_idle (hs : s₀.Idle s) (h : Step s req t) : s₀.Idle t := by
  obtain ⟨hn, h⟩ := h
  obtain ⟨-, hidle, -⟩ := returned_served hs.phase hn h
  exact ⟨hidle.phase, hidle.disk.trans hs.disk, hidle.bad.trans hs.bad⟩

/-- After any sequence of calls, whatever time the drive takes: a call for `n` sectors comes back if
and only if the drive is the one that the address selects, sends that many sectors and can read them.
It then returns `0`, and the buffer has the sectors; for one sector this is `diskReadBlock`. -/
theorem requests_served {reqs : List SectorRequest} (hstart : s₀.ata.phase = .idle)
    (hrun : Runs Step s₀ reqs s) (hn : PositiveInt req.n) :
    ((∃ fuel r t, diskReadSector fuel primaryMaster req.lba req.n req.buf s = .ok (r, t)) ↔
      s₀.ata.Readable req.lba req.n) ∧
    ∀ fuel r t, diskReadSector fuel primaryMaster req.lba req.n req.buf s = .ok (r, t) →
      r = 0 ∧ s₀.Idle t ∧ s.Served req t ∧
      (req.n = 1 → req.lba.toNat < 2 ^ 28 → ∃ block,
        diskReadBlock s₀.ata.disk req.lba.toNat = .ok block ∧
        ∀ i < DISK_SECTOR_SIZE, t.memory (req.buf + BitVec.ofNat 32 i) = block i) := by
  have hs : s₀.Idle s :=
    hrun.invariant (fun _ _ _ hs hstep => step_idle hs hstep) ⟨hstart, rfl, rfl⟩
  have hreadable : s.ata.Readable req.lba req.n ↔ s₀.ata.Readable req.lba req.n := by
    rw [Ata.Readable, Ata.Readable, hs.bad]
  refine ⟨⟨fun ⟨fuel, r, t, h⟩ => ?_, fun h => ?_⟩, fun fuel r t h => ?_⟩
  · by_contra hno
    rw [diskReadSector_hangs hs.phase hn (mt hreadable.mp hno)] at h
    cases h
  · obtain ⟨fuel, m, fetched, h, -⟩ :=
      diskReadSector_served hs.phase hn (hreadable.mpr h) req.buf
    exact ⟨fuel, _, _, h⟩
  · obtain ⟨hr, hidle, hserved⟩ := returned_served hs.phase hn h
    refine ⟨hr, ⟨hidle.phase, hidle.disk.trans hs.disk, hidle.bad.trans hs.bad⟩, hserved,
      fun hone hlba => ⟨_, rfl, fun i hi => ?_⟩⟩
    have hsize : DISK_SECTOR_SIZE = 512 := rfl
    have hone' : req.n.toNat = 1 := by rw [hone]; rfl
    rw [hserved, offset_toNat _ (by omega), if_pos (by omega), hs.disk, Nat.mod_eq_of_lt hlba]
    rfl

/-- A drive whose sector 3 is bad and that takes longer for every sector. -/
def driveExample : AtaHost where
  ata :=
    { disk := ⟨fun i => BitVec.ofNat 8 (i / 512)⟩, bad := fun lba => lba == 3, latency := fun k => k
      fetched := 0, control := 0, sectorCount := 0, sectorNumber := 0, cylinderLow := 0
      cylinderHigh := 0, driveHead := 0, phase := .idle }
  memory := fun _ => 0

/-- Two sectors are read; the next two are not. -/
theorem requests_served_driveExample :
    (∃ fuel r t, diskReadSector fuel primaryMaster 1 2 0x1000 driveExample = .ok (r, t)) ∧
    ¬ ∃ fuel r t, diskReadSector fuel primaryMaster 2 2 0x1000 driveExample = .ok (r, t) := by
  have htwo : PositiveInt 2 := ⟨by decide, by decide⟩
  have h := fun lba => (@requests_served driveExample driveExample ⟨lba, 2, 0x1000⟩ [] rfl (.nil _) htwo).1
  refine ⟨(h 1).mpr ⟨by decide, by decide, by decide⟩, mt (h 2).mp fun hno => ?_⟩
  exact absurd (hno.2.2 1 (by decide)) (by decide)

end AtaHost

end AvocadOS
