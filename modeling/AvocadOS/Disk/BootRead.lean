import AvocadOS.Disk.Ata

/-!
# Loading the kernel (`boot.asm`, `ata_lba_read.inc`)

The boot sector reads the sectors behind it with code of its own, on the registers of the processor.
Between two sectors it reads the data register four times; this takes time, and it would take words off
a sector that the drive had ready by then.

The arithmetic flags between `pushfd` and `popfd` are left out. A push and a pop are of dwords.

* `Stacked.push`, `Stacked.congr`: the dwords on the stack;
* `waitReady_eq`, `repInsw_eq`: the loops, as those of `disk_read_sector`;
* `readNext_ok`, `readNext_hangs`: the sectors;
* `ataLbaRead_iff`: when the routine returns, and what it leaves.
-/

namespace AvocadOS

/-! ## The processor -/

/-- The registers that the code uses, with the memory and the drive. -/
structure BootCpu where
  eax : Word
  ebx : Word
  ecx : Word
  edx : Word
  edi : Word
  esp : Word
  ebp : Word
  eip : Word
  eflags : Word
  host : AtaHost

namespace BootCpu

def al (b : BootCpu) : Byte := b.eax.setWidth 8

def dx (b : BootCpu) : BitVec 16 := b.edx.setWidth 16

/-- `std` has been executed: strings go downwards. -/
def df (b : BootCpu) : Bool := b.eflags.getLsbD 10

def setAl (b : BootCpu) (value : Byte) : BootCpu :=
  { b with eax := (b.eax &&& 0xFFFFFF00) ||| value.setWidth 32 }

def setDx (b : BootCpu) (value : BitVec 16) : BootCpu :=
  { b with edx := (b.edx &&& 0xFFFF0000) ||| value.setWidth 32 }

def push (b : BootCpu) (value : Word) : BootCpu :=
  let esp := b.esp - 4
  { b with esp := esp, host := { b.host with memory := storeDword b.host.memory esp value } }

/-- The dword at the stack pointer. -/
def top (b : BootCpu) : Word := loadDword b.host.memory b.esp

def popped (b : BootCpu) : BootCpu := { b with esp := b.esp + 4 }

/-- `out dx, al`. -/
def outDx (b : BootCpu) : BootCpu :=
  { b with host := { b.host with ata := b.host.ata.outb b.dx b.al } }

/-- `in al, dx`. -/
def inDx (b : BootCpu) : BootCpu :=
  { b.setAl (b.host.ata.insb b.dx).1 with
    host := { b.host with ata := (b.host.ata.insb b.dx).2 } }

/-- One `insw`. -/
def insw (b : BootCpu) : BootCpu :=
  let value := (b.host.ata.insw b.dx).1
  { b with
    edi := if b.df then b.edi - 2 else b.edi + 2
    host :=
      { ata := (b.host.ata.insw b.dx).2
        memory := storeByte (storeByte b.host.memory b.edi (value.setWidth 8)) (b.edi + 1)
          ((value >>> 8).setWidth 8) } }

end BootCpu

open BootCpu

abbrev BootM := StateT BootCpu (Except Fault)

/-! ## `ata_lba_read.inc` -/

/-- What the routine saves; the lower 28 bits of `eax` are the first sector. -/
def saveRegisters (b : BootCpu) : BootCpu :=
  let b := b.push b.ebp
  let b := { b with ebp := b.esp }
  let b := b.push b.eflags
  let b := { b with eax := b.eax &&& 0x0FFFFFFF }
  let b := b.push b.eax
  let b := b.push b.ebx
  let b := b.push b.edx
  let b := b.push b.ecx
  b.push b.edi

/-- The drive with the highest bits of the first sector, and the number of sectors. -/
def selectDrive (b : BootCpu) : BootCpu :=
  let b := { b with ebx := b.eax }
  let b := { b with edx := 0x01F6, eax := b.eax >>> 24 }
  let b := { b with eax := b.eax ||| 0xE0 }.outDx
  { b.setDx 0x01F2 with eax := b.ecx }.outDx

/-- The rest of the first sector. -/
def selectSector (b : BootCpu) : BootCpu :=
  let b := { b with edx := 0x01F3, eax := b.ebx }.outDx
  let b := { b with edx := 0x01F4, eax := b.ebx >>> 8 }.outDx
  { b with edx := 0x01F5, eax := b.ebx >>> 16 }.outDx

/-- The command, and `mov ebx, ecx`. -/
def sendCommand (b : BootCpu) : BootCpu :=
  let b := ({ b with edx := 0x01F7 }.setAl 0x20).outDx
  { b with ebx := b.ecx }

/-- `.wait`: `jnz short .wait` with BSY, `jz short .wait` without DRQ. -/
def waitReady : Nat → BootM Unit
  | 0 => throw .hang
  | fuel + 1 => do
    modify fun b => { b with edx := 0x1F7 }.inDx
    let status := (← get).al
    if status &&& 0x80 ≠ 0 then waitReady fuel
    else if status &&& 0x8 = 0 then waitReady fuel
    else pure ()

/-- `rep insw` with `count` in `ecx`. -/
def repInsw : Nat → BootCpu → BootCpu
  | 0, b => b
  | count + 1, b => repInsw count { b.insw with ecx := b.ecx - 1 }

/-- A sector that the drive has, and the delay. -/
def takeSector (b : BootCpu) : BootCpu :=
  let b := { b with edx := 0x1F0, ecx := 256 }
  let b := repInsw b.ecx.toNat b
  let b := b.inDx.inDx.inDx.inDx
  { b with ebx := b.ebx - 1 }

/-- `.read_next`. -/
def readNext (wait : Nat) : Nat → BootM Unit
  | 0 => throw .hang
  | fuel + 1 => do
    waitReady wait
    modify takeSector
    if (← get).ebx ≠ 0 then readNext wait fuel else pure ()

/-- The pops, and `ret`. -/
def restoreRegisters (b : BootCpu) : BootCpu :=
  let b := { b with edi := b.top }.popped
  let b := { b with ecx := b.top }.popped
  let b := { b with edx := b.top }.popped
  let b := { b with ebx := b.top }.popped
  let b := { b with eax := b.top }.popped
  let b := { b with eflags := b.top }.popped
  let b := { b with esp := b.ebp }
  let b := { b with ebp := b.top }.popped
  { b with eip := b.top }.popped

/-- `ata_lba_read`, behind the `call`. -/
def ataLbaRead (fuel : Nat) : BootM Unit := do
  modify saveRegisters
  modify selectDrive
  modify selectSector
  modify sendCommand
  readNext fuel fuel
  modify restoreRegisters

/-- `call ata_lba_read`. -/
def callAtaLbaRead (returnAddress : Word) (fuel : Nat) : BootM Unit := do
  modify fun b => b.push returnAddress
  ataLbaRead fuel

/-! ## `boot.asm` -/

def KERNEL_32_LOAD_ADDRESS : Word := 0x100000

/-- `load32`, with the address behind its `call`. -/
def load32 (returnAddress : Word) (fuel : Nat) : BootM Unit := do
  modify fun b => { b with eax := 1, ecx := 100, edi := KERNEL_32_LOAD_ADDRESS }
  callAtaLbaRead returnAddress fuel
  modify fun b => { b with eip := KERNEL_32_LOAD_ADDRESS }

/-! ## The stack -/

section Stack

variable {m m₀ m' : Memory} {esp v : Word} {ws : List Word}

/-- The dwords from the stack pointer up. -/
def Stacked (m : Memory) (esp : Word) (ws : List Word) : Prop :=
  ∀ i w, ws[i]? = some w → loadDword m (esp + BitVec.ofNat 32 (4 * i)) = w

theorem loadDword_congr {a : Word}
    (h : ∀ j < 4, m' (a + BitVec.ofNat 32 j) = m (a + BitVec.ofNat 32 j)) :
    loadDword m' a = loadDword m a := by
  have h₀ := h 0 (by decide)
  rw [show a + BitVec.ofNat 32 0 = a from BitVec.add_zero a] at h₀
  have h₁ : m' (a + 1) = m (a + 1) := h 1 (by decide)
  have h₂ : m' (a + 2) = m (a + 2) := h 2 (by decide)
  have h₃ : m' (a + 3) = m (a + 3) := h 3 (by decide)
  rw [loadDword, loadDword, h₀, h₁, h₂, h₃]

/-- A dword in memory. -/
theorem storeDword_at (m : Memory) (a v x : Word) :
    storeDword m a v x = if (x - a).toNat < 4 then v.extractLsb' (8 * (x - a).toNat) 8 else m x := by
  have h := storeDword_eq m a v x (show 0 + 3 < 2 ^ 32 by decide)
  rw [show a + BitVec.ofNat 32 0 = a from BitVec.add_zero a] at h
  simpa using h

theorem loadDword_storeDword (m : Memory) (a v : Word) : loadDword (storeDword m a v) a = v := by
  have hbyte : ∀ j < 4, storeDword m a v (a + BitVec.ofNat 32 j) = v.extractLsb' (8 * j) 8 := by
    intro j hj
    rw [storeDword_at, offset_toNat a (by omega), if_pos hj]
  have h₀ := hbyte 0 (by decide)
  rw [show a + BitVec.ofNat 32 0 = a from BitVec.add_zero a] at h₀
  have h₁ : storeDword m a v (a + 1) = _ := hbyte 1 (by decide)
  have h₂ : storeDword m a v (a + 2) = _ := hbyte 2 (by decide)
  have h₃ : storeDword m a v (a + 3) = _ := hbyte 3 (by decide)
  rw [loadDword, h₀, h₁, h₂, h₃]
  refine BitVec.eq_of_getLsbD_eq fun i hi => ?_
  simp only [BitVec.getLsbD_append, BitVec.getLsbD_extractLsb']
  grind

/-- The dwords `ws` have been pushed on the memory `m₀`. -/
structure Pushed (m₀ m : Memory) (esp : Word) (ws : List Word) : Prop where
  stacked : Stacked m esp ws
  rest : ∀ x, 4 * ws.length ≤ (x - esp).toNat → m x = m₀ x

theorem Pushed.nil : Pushed m m esp [] := ⟨fun i w h => by simp at h, fun _ _ => rfl⟩

theorem Pushed.push (h : Pushed m₀ m esp ws) (v : Word) (hlen : 4 * (ws.length + 1) ≤ 2 ^ 32) :
    Pushed m₀ (storeDword m (esp - 4) v) (esp - 4) (v :: ws) := by
  have hesp : esp - 4 + BitVec.ofNat 32 4 = esp := BitVec.sub_add_cancel esp 4
  refine ⟨fun i w hw => ?_, fun x hx => ?_⟩
  · cases i with
    | zero =>
      obtain rfl : v = w := by simpa using hw
      rw [Nat.mul_zero, show esp - 4 + BitVec.ofNat 32 0 = esp - 4 from BitVec.add_zero _]
      exact loadDword_storeDword m (esp - 4) v
    | succ i =>
      rw [List.getElem?_cons_succ] at hw
      have hi := (List.getElem?_eq_some_iff.mp hw).1
      have haddr : esp - 4 + BitVec.ofNat 32 (4 * (i + 1)) = esp + BitVec.ofNat 32 (4 * i) := by
        rw [show 4 * (i + 1) = 4 + 4 * i by omega, ← add_ofNat_add, hesp]
      rw [← h.stacked i w hw, ← haddr]
      refine loadDword_congr fun j hj => ?_
      rw [add_ofNat_add, storeDword_at, offset_toNat _ (by omega), if_neg (by omega)]
  · rw [List.length_cons] at hx
    rw [storeDword_at, if_neg (by omega)]
    refine h.rest x ?_
    have hsub : x - esp = x - (esp - 4) - 4 := by
      rw [← hesp]
      bv_omega
    rw [hsub, BitVec.toNat_sub, show (4 : Word).toNat = 4 from rfl]
    omega

/-- Other memory has changed. -/
theorem Pushed.stacked_congr (h : Pushed m₀ m esp ws) (hlen : 4 * ws.length ≤ 2 ^ 32)
    (hsame : ∀ x, (x - esp).toNat < 4 * ws.length → m' x = m x) : Stacked m' esp ws := by
  intro i w hw
  have hi := (List.getElem?_eq_some_iff.mp hw).1
  rw [← h.stacked i w hw]
  refine loadDword_congr fun j hj => ?_
  rw [add_ofNat_add]
  exact hsame _ (by rw [offset_toNat _ (by omega)]; omega)

theorem Stacked.head (h : Stacked m esp (v :: ws)) : loadDword m esp = v := by
  have := h 0 v rfl
  rwa [Nat.mul_zero, show esp + BitVec.ofNat 32 0 = esp from BitVec.add_zero _] at this

theorem Stacked.tail (h : Stacked m esp (v :: ws)) : Stacked m (esp + 4) ws := by
  intro i w hw
  rw [← h (i + 1) w (by simpa using hw), show 4 * (i + 1) = 4 + 4 * i by omega, ← add_ofNat_add]
  rfl

end Stack

/-! ## Straight-line code -/

section Straight

variable {b : BootCpu} {m₀ : Memory} {ws : List Word}

theorem setAl_al (b : BootCpu) (value : Byte) : (b.setAl value).al = value := by
  have hmask : ∀ i < 8, (0xFFFFFF00 : Word).getLsbD i = false := by decide
  refine BitVec.eq_of_getLsbD_eq fun i hi => ?_
  simp only [setAl, al, BitVec.getLsbD_setWidth, BitVec.getLsbD_or, BitVec.getLsbD_and,
    hmask i hi, Bool.and_false, Bool.false_or, hi, decide_true, Bool.true_and]
  grind

/-- The memory and the stack pointer of `b` are those behind the pushes of `ws`. -/
abbrev BootCpu.Holds (b : BootCpu) (m₀ : Memory) (ws : List Word) : Prop :=
  Pushed m₀ b.host.memory b.esp ws

/-- `saveRegisters` pushes seven dwords. -/
theorem saveRegisters_holds (h : b.Holds m₀ ws) (hlen : 4 * (ws.length + 7) ≤ 2 ^ 32) :
    (saveRegisters b).Holds m₀
      (b.edi :: b.ecx :: b.edx :: b.ebx :: (b.eax &&& 0x0FFFFFFF) :: b.eflags :: b.ebp :: ws) := by
  have h₁ := h.push b.ebp (by omega)
  have h₂ := h₁.push b.eflags (by simp only [List.length_cons]; omega)
  have h₃ := h₂.push (b.eax &&& 0x0FFFFFFF) (by simp only [List.length_cons]; omega)
  have h₄ := h₃.push b.ebx (by simp only [List.length_cons]; omega)
  have h₅ := h₄.push b.edx (by simp only [List.length_cons]; omega)
  have h₆ := h₅.push b.ecx (by simp only [List.length_cons]; omega)
  exact h₆.push b.edi (by simp only [List.length_cons]; omega)

/-- `restoreRegisters` loads them again. -/
theorem restoreRegisters_eq {edi ecx edx ebx eax eflags ebp eip : Word}
    (h : Stacked b.host.memory b.esp (edi :: ecx :: edx :: ebx :: eax :: eflags :: ebp :: eip :: ws))
    (hebp : b.ebp = b.esp + 24) :
    restoreRegisters b = ⟨eax, ebx, ecx, edx, edi, b.esp + 32, ebp, eip, eflags, b.host⟩ := by
  have h₁ := h.tail
  have h₂ := h₁.tail
  have h₃ := h₂.tail
  have h₄ := h₃.tail
  have h₅ := h₄.tail
  have h₆ := h₅.tail
  have h₇ := h₆.tail
  have hesp : b.esp + 4 + 4 + 4 + 4 + 4 + 4 = b.esp + 24 := by bv_omega
  have hend : b.esp + 24 + 4 + 4 = b.esp + 32 := by bv_omega
  rw [hesp] at h₆ h₇
  simp only [restoreRegisters, popped, top, h.head, h₁.head, h₂.head, h₃.head, h₄.head, h₅.head, hebp,
    h₆.head, h₇.head, hend]

/-- The registers of the drive before the command. -/
def Ata.selected (a : Ata) (lba count : Word) : Ata :=
  { a with
    driveHead := (lba >>> 24 ||| 0xE0).setWidth 8
    sectorCount := count.setWidth 8
    sectorNumber := lba.setWidth 8
    cylinderLow := (lba >>> 8).setWidth 8
    cylinderHigh := (lba >>> 16).setWidth 8 }

theorem setDx_dx (b : BootCpu) (value : BitVec 16) : (b.setDx value).dx = value := by
  have hmask : ∀ i < 16, (0xFFFF0000 : Word).getLsbD i = false := by decide
  refine BitVec.eq_of_getLsbD_eq fun i hi => ?_
  simp only [setDx, dx, BitVec.getLsbD_setWidth, BitVec.getLsbD_or, BitVec.getLsbD_and,
    hmask i hi, Bool.and_false, Bool.false_or, hi, decide_true, Bool.true_and]
  grind

theorem select_eq (b : BootCpu) : ∃ eax edx, selectSector (selectDrive b) =
    { b with
      eax := eax
      ebx := b.eax
      edx := edx
      host := ⟨b.host.ata.selected b.eax b.ecx, b.host.memory⟩ } := by
  obtain ⟨c, hc⟩ : ∃ c, c = ({ b with
    eax := b.eax >>> 24 ||| 0xE0
    ebx := b.eax
    edx := 0x01F6
    host := ⟨{ b.host.ata with driveHead := (b.eax >>> 24 ||| 0xE0).setWidth 8 },
      b.host.memory⟩ } : BootCpu).setDx 0x01F2 := ⟨_, rfl⟩
  have hdx : ({ c with eax := c.ecx } : BootCpu).dx = 0x1F2 := by
    rw [hc]
    exact setDx_dx _ _
  have hdrive : selectDrive b = { c with eax := c.ecx }.outDx := by
    rw [hc]
    rfl
  refine ⟨b.eax >>> 16, 0x1F5, ?_⟩
  rw [hdrive, outDx, hdx, hc]
  rfl

theorem sendCommand_eq (b : BootCpu) : ∃ eax, sendCommand b =
    { b with
      eax := eax
      ebx := b.ecx
      edx := 0x1F7
      host := ⟨b.host.ata.command 0x20, b.host.memory⟩ } := by
  obtain ⟨c, hc⟩ : ∃ c, c = { b with edx := 0x01F7 }.setAl 0x20 := ⟨_, rfl⟩
  have hal : c.al = 0x20 := by rw [hc, setAl_al]
  have hdx : c.dx = 0x1F7 := by rw [hc]; rfl
  have hout : c.outDx = { c with host := ⟨b.host.ata.command 0x20, b.host.memory⟩ } := by
    rw [outDx, hal, hdx, hc]
    rfl
  refine ⟨c.eax, ?_⟩
  rw [sendCommand, ← hc, hout, hc]
  rfl

end Straight

/-! ## The loops -/

section Loops

variable {b : BootCpu} {h : AtaHost} {fuel : Nat} {m₀ m : Memory} {buf : Word} {bytes : Nat → Byte}
  {i lba left wait : Nat}

theorem waitReady_step : waitReady (fuel + 1) b =
    if notReady b.host.ata.status then
      waitReady fuel { b with edx := 0x1F7 }.inDx
    else .ok ((), { b with edx := 0x1F7 }.inDx) := by
  have hal : ({ b with edx := 0x1F7 } : BootCpu).inDx.al = b.host.ata.status :=
    setAl_al { b with edx := 0x1F7 } b.host.ata.status
  have hrun : waitReady (fuel + 1) b =
      (if ({ b with edx := 0x1F7 } : BootCpu).inDx.al &&& 0x80 ≠ 0 then waitReady fuel
        else if ({ b with edx := 0x1F7 } : BootCpu).inDx.al &&& 0x8 = 0 then waitReady fuel
        else pure ()) { b with edx := 0x1F7 }.inDx := rfl
  have hiff : notReady b.host.ata.status = true ↔
      b.host.ata.status &&& 0x80 ≠ 0 ∨ b.host.ata.status &&& 0x8 = 0 := by
    rw [notReady, Bool.or_eq_true, decide_eq_true_iff, decide_eq_true_iff]
    exact Iff.rfl
  rw [hrun, hal, if_congr hiff rfl rfl]
  by_cases hbusy : b.host.ata.status &&& 0x80 ≠ 0
  · rw [if_pos hbusy, if_pos (.inl hbusy)]
  · rw [if_neg hbusy]
    by_cases hdrq : b.host.ata.status &&& 0x8 = 0
    · rw [if_pos hdrq, if_pos (.inr hdrq)]
    · rw [if_neg hdrq, if_neg (by rw [not_or]; exact ⟨hbusy, hdrq⟩)]
      rfl

/-- `.wait` is the loop of `disk_read_sector`. -/
theorem waitReady_eq :
    (poll 0x1F7 notReady fuel b.host = .error .hang → waitReady fuel b = .error .hang) ∧
    ∀ h, poll 0x1F7 notReady fuel b.host = .ok ((), h) →
      ∃ eax, waitReady fuel b = .ok ((), { b with eax := eax, edx := 0x1F7, host := h }) := by
  induction fuel generalizing b with
  | zero => exact ⟨fun _ => rfl, fun h hpoll => by cases hpoll⟩
  | succ fuel ih =>
    rw [poll_step (.inl rfl), waitReady_step]
    by_cases hready : notReady b.host.ata.status = true
    · rw [if_pos hready, if_pos hready]
      exact @ih { b with edx := 0x1F7 }.inDx
    · rw [if_neg hready, if_neg hready]
      refine ⟨nofun, fun h hpoll => ?_⟩
      cases hpoll
      exact ⟨({ b with edx := 0x1F7 } : BootCpu).inDx.eax, rfl⟩

/-- `rep insw` is the loop of `disk_read_sector`. -/
theorem repInsw_eq {count : Nat} (hdx : b.dx = 0x1F0) (hdf : b.df = false) (hh :
    readWords 0x1F0 count b.edi b.host = .ok ((), h)) :
    repInsw count b =
      { b with
        edi := b.edi + BitVec.ofNat 32 (2 * count)
        ecx := b.ecx - BitVec.ofNat 32 count
        host := h } := by
  induction count generalizing b with
  | zero =>
    cases hh
    rw [repInsw, show b.edi + BitVec.ofNat 32 (2 * 0) = b.edi from BitVec.add_zero _,
      show b.ecx - BitVec.ofNat 32 0 = b.ecx from BitVec.sub_zero _]
  | succ count ih =>
    have hinsw : b.insw = { b with
        edi := b.edi + 2
        host := ⟨(b.host.ata.insw 0x1F0).2,
          storeByte (storeByte b.host.memory b.edi ((b.host.ata.insw 0x1F0).1.setWidth 8)) (b.edi + 1)
            (((b.host.ata.insw 0x1F0).1 >>> 8).setWidth 8)⟩ } := by
      rw [insw, hdx, hdf]
      rfl
    have hecx : b.ecx - 1 - BitVec.ofNat 32 count = b.ecx - BitVec.ofNat 32 (count + 1) := by
      rw [BitVec.ofNat_add]
      bv_omega
    have hedi : b.edi + 2 + BitVec.ofNat 32 (2 * count) =
        b.edi + BitVec.ofNat 32 (2 * (count + 1)) := by
      rw [show 2 * (count + 1) = 2 + 2 * count by omega, BitVec.ofNat_add, ← BitVec.add_assoc]
      rfl
    rw [repInsw, ih (by rw [hinsw]; exact hdx) (by rw [hinsw]; exact hdf)
      (by rw [hinsw]; exact hh), hinsw]
    simp only [hecx, hedi]

/-- What the drive does during the delay. -/
def Ata.delayed (a : Ata) : Ata := a.dataByte.2.dataByte.2.dataByte.2.dataByte.2

theorem delay_eq (hdx : b.dx = 0x1F0) : ∃ eax, b.inDx.inDx.inDx.inDx =
    { b with eax := eax, host := { b.host with ata := b.host.ata.delayed } } := by
  have hone : ∀ {c : BootCpu}, c.dx = 0x1F0 →
      c.inDx = { c with eax := c.inDx.eax, host := { c.host with ata := c.host.ata.dataByte.2 } } := by
    intro c hc
    rw [inDx, hc]
    rfl
  have hkeep : ∀ c : BootCpu, c.inDx.dx = c.dx := fun _ => rfl
  refine ⟨b.inDx.inDx.inDx.inDx.eax, ?_⟩
  rw [hone (c := b.inDx.inDx.inDx) hdx, hone (c := b.inDx.inDx) hdx, hone (c := b.inDx) hdx, hone hdx]
  rfl

/-- A drive that takes its time for the next sector has not got it behind the delay. -/
theorem sent_delayed (a : Ata) (hslow : ∀ k, 4 ≤ a.latency k) : (a.sent lba left).delayed =
    if left = 0 then { a with phase := .idle }
    else { a with
      phase := .busy (lba + 1) (left - 1) (a.latency a.fetched - 4)
      fetched := a.fetched + 1 } := by
  unfold Ata.sent
  split
  · rfl
  · obtain ⟨k, hk⟩ : ∃ k, a.latency a.fetched = k + 4 :=
      ⟨a.latency a.fetched - 4, (Nat.sub_add_cancel (hslow a.fetched)).symm⟩
    rw [Ata.fetch, hk]
    rfl

/-- A sector that the drive has. -/
theorem takeSector_eq (hdf : b.df = false) (hhost : b.host = h.at (.data lba left 0))
    (hedi : b.edi = buf + BitVec.ofNat 32 (512 * i))
    (hbytes : ∀ j < 512, bytes (512 * i + j) = h.ata.disk.bytes (lba * 512 + j))
    (hroom : 512 * (i + 1) ≤ 2 ^ 32) (hm : Filled m₀ buf bytes (512 * i) h.memory) :
    ∃ eax m', takeSector b =
        { b with
          eax := eax
          ebx := b.ebx - 1
          ecx := 0
          edx := 0x1F0
          edi := buf + BitVec.ofNat 32 (512 * (i + 1))
          host := ⟨(h.ata.sent lba left).delayed, m'⟩ } ∧
      Filled m₀ buf bytes (512 * (i + 1)) m' := by
  obtain ⟨m', hwords, hm'⟩ := @readWords_ok m₀ buf bytes h i lba left hbytes hroom 255 0 h.memory
    (by omega) hm
  obtain ⟨c, hc⟩ : ∃ c : BootCpu, c = { b with edx := 0x1F0, ecx := 256 } := ⟨_, rfl⟩
  have hrep := @repInsw_eq c ⟨h.ata.sent lba left, m'⟩ 256 (by rw [hc]; rfl) (by rw [hc]; exact hdf)
    (by rw [hc]; dsimp only; rw [hhost, hedi]; exact hwords)
  have hptr : b.edi + 512 = buf + BitVec.ofNat 32 (512 * (i + 1)) := by
    rw [hedi]
    exact add_ofNat_add buf (512 * i) 512
  obtain ⟨eax, hdelay⟩ := @delay_eq (repInsw 256 c) (by rw [hrep, hc]; rfl)
  refine ⟨eax, m', ?_, hm'⟩
  have htake : takeSector b =
      { (repInsw 256 c).inDx.inDx.inDx.inDx with
        ebx := (repInsw 256 c).inDx.inDx.inDx.inDx.ebx - 1 } := by
    rw [hc]
    rfl
  have hecx : (256 : Word) - BitVec.ofNat 32 256 = 0 := by decide
  have hedi' : BitVec.ofNat 32 (2 * 256) = (512 : Word) := by decide
  rw [htake, hdelay, hrep, hc, ← hptr]
  simp only [hecx, hedi']

end Loops

/-! ## The sectors -/

/-- The number of iterations of `.read_next` that `dec ebx` leaves. -/
def rounds (ebx : Word) : Nat := if ebx = 0 then 2 ^ 32 else ebx.toNat

theorem rounds_pred {ebx : Word} (h : ebx - 1 ≠ 0) : rounds (ebx - 1) + 1 = rounds ebx := by
  unfold rounds
  rw [if_neg h]
  split
  · next hzero =>
    rw [hzero]
    rfl
  · next hne =>
    bv_omega

theorem rounds_pos (ebx : Word) : 0 < rounds ebx := by
  unfold rounds
  split
  · decide
  · next hne => exact Nat.pos_of_ne_zero fun h => hne (BitVec.eq_of_toNat_eq h)

theorem rounds_one {ebx : Word} (h : ebx - 1 = 0) : rounds ebx = 1 := by
  have hone : ebx = 1 := by bv_omega
  rw [hone]
  rfl

section Sectors

variable {b : BootCpu} {h : AtaHost} {wait fuel : Nat} {m₀ : Memory} {buf : Word}
  {bytes : Nat → Byte} {i lba left busyFor : Nat}

/-- The next sector does not come. -/
theorem readNext_stuck (hhost : b.host = h.at (.busy lba left busyFor)) (hmaster : h.ata.slave = false)
    (hstuck : h.ata.bad lba = true ∨ wait < busyFor + 2) : readNext wait fuel b = .error .hang := by
  cases fuel with
  | zero => rfl
  | succ fuel =>
    have hpoll := @poll_busy h 0x1F7 wait lba left busyFor (.inl rfl) hmaster
    rw [if_pos hstuck, ← hhost] at hpoll
    rw [readNext]
    simp only [Bind.bind, StateT.bind, Except.bind, waitReady_eq.1 hpoll]

/-- It does. -/
theorem readNext_sector (hdf : b.df = false) (hhost : b.host = h.at (.busy lba left busyFor))
    (hmaster : h.ata.slave = false) (hgood : h.ata.bad lba = false) (hwait : busyFor + 2 ≤ wait)
    (hedi : b.edi = buf + BitVec.ofNat 32 (512 * i))
    (hbytes : ∀ j < 512, bytes (512 * i + j) = h.ata.disk.bytes (lba * 512 + j))
    (hroom : 512 * (i + 1) ≤ 2 ^ 32) (hm : Filled m₀ buf bytes (512 * i) h.memory) :
    ∃ eax m' b', b' = { b with
        eax := eax
        ebx := b.ebx - 1
        ecx := 0
        edx := 0x1F0
        edi := buf + BitVec.ofNat 32 (512 * (i + 1))
        host := ⟨(h.ata.sent lba left).delayed, m'⟩ } ∧
      Filled m₀ buf bytes (512 * (i + 1)) m' ∧
      readNext wait (fuel + 1) b =
        if b.ebx - 1 ≠ 0 then readNext wait fuel b' else .ok ((), b') := by
  have hpoll := @poll_busy h 0x1F7 wait lba left busyFor (.inl rfl) hmaster
  rw [if_neg (by simp [hgood]; omega), ← hhost] at hpoll
  obtain ⟨eax₁, hready⟩ := waitReady_eq.2 _ hpoll
  obtain ⟨eax, m', htake, hm'⟩ := @takeSector_eq
    { b with eax := eax₁, edx := 0x1F7, host := h.at (.data lba left 0) } h m₀ buf bytes i lba left hdf
    rfl hedi hbytes hroom hm
  refine ⟨eax, m', _, rfl, hm', ?_⟩
  rw [readNext]
  simp only [Bind.bind, StateT.bind, Except.bind, hready]
  change (if (takeSector { b with eax := eax₁, edx := 0x1F7, host := h.at (.data lba left 0) }).ebx ≠ 0
    then readNext wait fuel else pure ()) (takeSector { b with
      eax := eax₁, edx := 0x1F7, host := h.at (.data lba left 0) }) = _
  rw [htake]
  split <;> rfl

/-- All sectors that the drive sends. -/
theorem readNext_ok : ∀ {left : Nat} {b : BootCpu} {h : AtaHost} {fuel i lba busyFor : Nat},
    b.df = false → b.host = h.at (.busy lba left busyFor) → h.ata.slave = false →
    rounds b.ebx = left + 1 → (∀ k ≤ left, h.ata.bad (lba + k) = false) → (∀ k, 4 ≤ h.ata.latency k) →
    busyFor + 2 ≤ wait → (∀ k < h.ata.fetched + left, h.ata.latency k + 2 ≤ wait) → left < fuel →
    b.edi = buf + BitVec.ofNat 32 (512 * i) →
    (∀ j < 512 * (left + 1), bytes (512 * i + j) = h.ata.disk.bytes (lba * 512 + j)) →
    512 * (i + (left + 1)) ≤ 2 ^ 32 → Filled m₀ buf bytes (512 * i) h.memory →
    ∃ eax edi m', readNext wait fuel b =
        .ok ((), { b with
          eax := eax
          ebx := 0
          ecx := 0
          edx := 0x1F0
          edi := edi
          host := ⟨{ h.ata with phase := .idle, fetched := h.ata.fetched + left }, m'⟩ }) ∧
      Filled m₀ buf bytes (512 * (i + (left + 1))) m' := by
  intro left
  induction left with
  | zero =>
    intro b h fuel i lba busyFor hdf hhost hmaster hrounds hgood hslow hwait _ hfuel hedi hbytes hroom
      hm
    obtain ⟨fuel, rfl⟩ : ∃ k, fuel = k + 1 := ⟨fuel - 1, by omega⟩
    obtain ⟨eax, m', b', hb', hm', hrun⟩ := @readNext_sector b h wait fuel m₀ buf bytes i lba 0 busyFor
      hdf hhost hmaster (hgood 0 (by omega)) hwait hedi (fun j hj => hbytes j (by omega)) (by omega) hm
    have hlast : b.ebx - 1 = 0 := by
      by_contra hne
      have := rounds_pred hne
      have := rounds_pos (b.ebx - 1)
      omega
    rw [hrun, if_neg (by simpa using hlast), hb', hlast, sent_delayed _ hslow, if_pos rfl]
    exact ⟨_, _, m', rfl, hm'⟩
  | succ left ih =>
    intro b h fuel i lba busyFor hdf hhost hmaster hrounds hgood hslow hwait hlatency hfuel hedi hbytes
      hroom hm
    obtain ⟨fuel, rfl⟩ : ∃ k, fuel = k + 1 := ⟨fuel - 1, by omega⟩
    obtain ⟨eax, m', b', hb', hm', hrun⟩ := @readNext_sector b h wait fuel m₀ buf bytes i lba
      (left + 1) busyFor hdf hhost hmaster (hgood 0 (by omega)) hwait hedi (fun j hj => hbytes j (by omega))
      (by omega) hm
    have hmore : b.ebx - 1 ≠ 0 := fun hone => by
      have := rounds_one hone
      omega
    have hpred := rounds_pred hmore
    rw [sent_delayed _ hslow, if_neg (by omega), Nat.add_sub_cancel] at hb'
    have hbytes' : ∀ j < 512 * (left + 1),
        bytes (512 * (i + 1) + j) = h.ata.disk.bytes ((lba + 1) * 512 + j) := by
      intro j hj
      rw [show 512 * (i + 1) + j = 512 * i + (512 + j) by omega, hbytes (512 + j) (by omega),
        show (lba + 1) * 512 + j = lba * 512 + (512 + j) by omega]
    have hwait' := hlatency h.ata.fetched (by omega)
    obtain ⟨eax', edi', m'', hrun', hm''⟩ := @ih b' ⟨{ h.ata with fetched := h.ata.fetched + 1 }, m'⟩
      fuel (i + 1) (lba + 1) (h.ata.latency h.ata.fetched - 4) (by rw [hb']; exact hdf) (by rw [hb']; rfl)
      hmaster (by rw [hb']; dsimp only; omega)
      (fun k hk => by rw [show lba + 1 + k = lba + (k + 1) by omega]; exact hgood _ (by omega)) hslow
      (by omega) (fun k hk => hlatency k (by dsimp only at hk; omega)) (by omega) (by rw [hb']) hbytes'
      (by omega) hm'
    rw [hrun, if_pos hmore, hrun', hb']
    dsimp only
    rw [show h.ata.fetched + 1 + left = h.ata.fetched + (left + 1) by omega]
    rw [show i + 1 + (left + 1) = i + (left + 1 + 1) by omega] at hm''
    exact ⟨_, _, m'', rfl, hm''⟩

/-- A drive that has sent all it has to send. -/
theorem readNext_idle (hphase : b.host.ata.phase = .idle) (hmaster : b.host.ata.slave = false) :
    readNext wait fuel b = .error .hang := by
  cases fuel with
  | zero => rfl
  | succ fuel =>
    have hstatus : b.host.ata.status = 0x50 := by
      rw [Ata.status, if_neg (Bool.eq_false_iff.mp hmaster), hphase]
      rfl
    have hstays : b.host.ata.elapse = b.host.ata := by rw [Ata.elapse, hphase]
    have hpoll := @poll_stuck b.host 0x1F7 notReady wait (.inl rfl) hstays (by rw [hstatus]; decide)
    rw [readNext]
    simp only [Bind.bind, StateT.bind, Except.bind, waitReady_eq.1 hpoll]

/-- A sector that the drive cannot read, or does not send, is waited for forever. -/
theorem readNext_hangs : ∀ {fuel : Nat} {b : BootCpu} {h : AtaHost} {lba left busyFor : Nat},
    b.df = false → b.host = h.at (.busy lba left busyFor) → h.ata.slave = false →
    (∀ k, 4 ≤ h.ata.latency k) →
    (left + 1 < rounds b.ebx ∨ ∃ k ≤ left, k < rounds b.ebx ∧ h.ata.bad (lba + k) = true) →
    readNext wait fuel b = .error .hang := by
  intro fuel
  induction fuel with
  | zero => intros; rfl
  | succ fuel ih =>
    intro b h lba left busyFor hdf hhost hmaster hslow hcause
    by_cases hstuck : h.ata.bad lba = true ∨ wait < busyFor + 2
    · exact readNext_stuck hhost hmaster hstuck
    · obtain ⟨hgood, hwait⟩ := not_or.mp hstuck
      obtain ⟨eax, m', b', hb', -, hrun⟩ := @readNext_sector b h wait fuel h.memory b.edi
        (fun j => h.ata.disk.bytes (lba * 512 + j)) 0 lba left busyFor hdf hhost hmaster
        (by simpa using hgood) (by omega) (BitVec.add_zero _).symm
        (fun j _ => by rw [Nat.mul_zero, Nat.zero_add]) (by omega) .zero
      -- there is a sector behind this one that does not come
      have hcause' : left + 1 < rounds b.ebx ∨
          ∃ k, k + 1 ≤ left ∧ k + 1 < rounds b.ebx ∧ h.ata.bad (lba + 1 + k) = true := by
        refine hcause.imp id ?_
        rintro ⟨k, hk, hlt, hbad⟩
        cases k with
        | zero => exact absurd hbad hgood
        | succ k => exact ⟨k, hk, hlt, by rwa [show lba + 1 + k = lba + (k + 1) by omega]⟩
      have hmore : b.ebx - 1 ≠ 0 := fun hone => by
        have := rounds_one hone
        rcases hcause' with hlt | ⟨k, -, hlt, -⟩ <;> omega
      have hpred := rounds_pred hmore
      rw [hrun, if_pos hmore]
      rw [sent_delayed _ hslow] at hb'
      cases left with
      | zero =>
        rw [if_pos rfl] at hb'
        exact readNext_idle (by rw [hb']) (by rw [hb']; exact hmaster)
      | succ left =>
        rw [if_neg (by omega), Nat.add_sub_cancel] at hb'
        refine @ih b' ⟨{ h.ata with fetched := h.ata.fetched + 1 }, m'⟩ (lba + 1) left
          (h.ata.latency h.ata.fetched - 4) (by rw [hb']; exact hdf) (by rw [hb']; rfl) hmaster hslow ?_
        have hebx : b'.ebx = b.ebx - 1 := by rw [hb']
        rw [hebx]
        rcases hcause' with hlt | ⟨k, hk, hlt, hbad⟩
        · exact .inl (by omega)
        · exact .inr ⟨k, by omega, by omega, hbad⟩

end Sectors

/-! ## The routine -/

section Routine

variable {b t : BootCpu} {a : Ata} {lba n returnAddress : Word} {fuel : Nat}

theorem ushiftRight_byte (x : Word) (k : Nat) :
    ((x >>> k).setWidth 8 : Byte).toNat = x.toNat / 2 ^ k % 256 := by
  rw [BitVec.toNat_setWidth, BitVec.toNat_ushiftRight, Nat.shiftRight_eq_div_pow]

theorem mask_toNat (x : Word) : (x &&& 0x0FFFFFFF).toNat = x.toNat % 2 ^ 28 := by
  rw [BitVec.toNat_and, show (0x0FFFFFFF : Word).toNat = 2 ^ 28 - 1 from rfl,
    Nat.and_two_pow_sub_one_eq_mod]

/-- The drive gets all of a masked address. -/
theorem selected_lba (a : Ata) (n : Word) (hlba : lba.toNat < 2 ^ 28) :
    (a.selected lba n).lba = lba.toNat := by
  have hhead : ((lba >>> 24 ||| 0xE0).setWidth 8 : Byte).toNat % 16 = lba.toNat / 2 ^ 24 % 16 := by
    rw [BitVec.toNat_setWidth, BitVec.toNat_or, BitVec.toNat_ushiftRight, Nat.shiftRight_eq_div_pow,
      Nat.mod_mod_of_dvd _ (by decide), show (16 : Nat) = 2 ^ 4 from rfl, Nat.or_mod_two_pow,
      show (0xE0 : Word).toNat % 2 ^ 4 = 0 from rfl, Nat.or_zero]
  simp only [Ata.lba, Ata.selected, hhead]
  rw [ushiftRight_byte, ushiftRight_byte, BitVec.toNat_setWidth]
  omega

/-- It is the master. -/
theorem selected_slave (a : Ata) (n : Word) (hlba : lba.toNat < 2 ^ 28) :
    (a.selected lba n).slave = false := by
  have hbit : lba.getLsbD 28 = false := by
    rw [BitVec.getLsbD, Nat.testBit_lt_two_pow hlba]
  simp only [Ata.slave, Ata.selected, BitVec.getLsbD_setWidth, BitVec.getLsbD_or,
    BitVec.getLsbD_ushiftRight, hbit]
  rfl

theorem selected_command (hphase : a.phase = .idle) (hlba : lba.toNat < 2 ^ 28) :
    (a.selected lba n).command 0x20 = (a.selected lba n).fetch lba.toNat
      (if (n.setWidth 8 : Byte) = 0 then 255 else (n.setWidth 8 : Byte).toNat - 1) := by
  have hphase' : (a.selected lba n).phase = .idle := hphase
  simp only [Ata.command, selected_slave a n hlba, hphase', selected_lba a n hlba]
  rfl

/-- The number of sectors that the drive sends for `n`. -/
theorem selected_count (n : Word) :
    ∃ left, (if (n.setWidth 8 : Byte) = 0 then 255 else (n.setWidth 8 : Byte).toNat - 1) = left ∧
      left < 256 ∧ (0 < n.toNat ∧ n.toNat ≤ 256 ↔ rounds n = left + 1) ∧ left + 1 ≤ rounds n := by
  by_cases hn : 0 < n.toNat
  · obtain ⟨left, hleft, hlt, hiff, hmore⟩ := programmed_count hn
    have hne : n ≠ 0 := fun h => by rw [h] at hn; exact Nat.lt_irrefl 0 hn
    refine ⟨left, hleft, hlt, ?_, ?_⟩ <;> rw [rounds, if_neg hne] <;> omega
  · have hzero : n = 0 := BitVec.eq_of_toNat_eq (show n.toNat = 0 by omega)
    subst hzero
    refine ⟨255, rfl, by decide, ?_, ?_⟩ <;> decide

/-- The request can be served. -/
def Ata.Loads (a : Ata) (lba : Nat) (n : Word) : Prop :=
  (0 < n.toNat ∧ n.toNat ≤ 256) ∧ ∀ k < n.toNat, a.bad (lba + k) = false

/-- The buffer of `n` sectors and the eight dwords below the stack pointer have no byte in common. -/
def BootCpu.BufferApart (b : BootCpu) : Prop :=
  ∀ x : Word, (x - b.edi).toNat < 512 * b.ecx.toNat → 32 ≤ (x - (b.esp - 32)).toNat

/-- What the routine leaves: the registers as they were, with the address behind the call and the
first sector in 28 bits, and the sectors in the buffer. -/
structure BootCpu.Loaded (b t : BootCpu) (returnAddress : Word) : Prop where
  registers : t = { b with eax := b.eax &&& 0x0FFFFFFF, eip := returnAddress, host := t.host }
  idle : t.host.ata.phase = .idle
  disk : t.host.ata.disk = b.host.ata.disk
  bad : t.host.ata.bad = b.host.ata.bad
  buffer : ∀ x, (x - b.edi).toNat < 512 * b.ecx.toNat → t.host.memory x =
    b.host.ata.disk.bytes (b.eax.toNat % 2 ^ 28 * 512 + (x - b.edi).toNat)
  rest : ∀ x, 512 * b.ecx.toNat ≤ (x - b.edi).toNat → 32 ≤ (x - (b.esp - 32)).toNat →
    t.host.memory x = b.host.memory x

/-- Up to `.read_next`. -/
theorem started (hphase : b.host.ata.phase = .idle) (returnAddress : Word) : ∃ c left,
    (∀ fuel, callAtaLbaRead returnAddress fuel b =
      (do readNext fuel fuel; modify restoreRegisters : BootM Unit) c) ∧
    c.Holds b.host.memory [b.edi, b.ecx, b.edx, b.ebx, b.eax &&& 0x0FFFFFFF, b.eflags, b.ebp,
      returnAddress] ∧
    c.esp = b.esp - 32 ∧ c.ebp = c.esp + 24 ∧ c.edi = b.edi ∧ c.ebx = b.ecx ∧ c.df = b.df ∧
    c.host = (AtaHost.at ⟨{ b.host.ata.selected (b.eax &&& 0x0FFFFFFF) b.ecx with
      fetched := b.host.ata.fetched + 1 }, c.host.memory⟩
      (.busy (b.eax.toNat % 2 ^ 28) left (b.host.ata.latency b.host.ata.fetched))) ∧
    left < 256 ∧ (0 < b.ecx.toNat ∧ b.ecx.toNat ≤ 256 ↔ rounds b.ecx = left + 1) ∧
    left + 1 ≤ rounds b.ecx := by
  obtain ⟨left, hleft, hlt, hiff, hle⟩ := selected_count b.ecx
  obtain ⟨c₁, hc₁⟩ : ∃ c₁, c₁ = saveRegisters (b.push returnAddress) := ⟨_, rfl⟩
  have hholds : c₁.Holds b.host.memory [b.edi, b.ecx, b.edx, b.ebx, b.eax &&& 0x0FFFFFFF, b.eflags,
      b.ebp, returnAddress] := by
    rw [hc₁]
    exact saveRegisters_holds (b := b.push returnAddress)
      (Pushed.nil.push returnAddress (by decide)) (by rw [List.length_singleton]; decide)
  have hmask : (b.eax &&& 0x0FFFFFFF).toNat < 2 ^ 28 := by
    rw [mask_toNat]
    exact Nat.mod_lt _ (by decide)
  obtain ⟨eax, edx, hselect⟩ := select_eq c₁
  obtain ⟨eax', hsend⟩ := sendCommand_eq (selectSector (selectDrive c₁))
  have hesp : c₁.esp = b.esp - 32 := by
    rw [hc₁]
    change b.esp - 4 - 4 - 4 - 4 - 4 - 4 - 4 - 4 = b.esp - 32
    bv_omega
  have hebp : c₁.ebp = c₁.esp + 24 := by
    rw [hesp, hc₁]
    change b.esp - 4 - 4 = b.esp - 32 + 24
    bv_omega
  have hata : c₁.host.ata = b.host.ata := by rw [hc₁]; rfl
  have heax : c₁.eax = b.eax &&& 0x0FFFFFFF := by rw [hc₁]; rfl
  have hecx : c₁.ecx = b.ecx := by rw [hc₁]; rfl
  have hedi : c₁.edi = b.edi := by rw [hc₁]; rfl
  have hdf : c₁.df = b.df := by rw [hc₁]; rfl
  rw [hselect] at hsend
  refine ⟨sendCommand (selectSector (selectDrive c₁)), left, fun fuel => by rw [hc₁]; rfl, ?_⟩
  rw [hselect, hsend]
  refine ⟨hholds, hesp, hebp, hedi, hecx, hdf, ?_, hlt, hiff, hle⟩
  dsimp only
  rw [hata, heax, hecx, selected_command hphase hmask, hleft, mask_toNat]
  rfl

/-- A request that can be served. -/
theorem callAtaLbaRead_served (hphase : b.host.ata.phase = .idle)
    (hslow : ∀ k, 4 ≤ b.host.ata.latency k) (hdf : b.df = false) (hapart : b.BufferApart)
    (h : b.host.ata.Loads (b.eax.toNat % 2 ^ 28) b.ecx) (returnAddress : Word) :
    ∃ fuel t, callAtaLbaRead returnAddress fuel b = .ok ((), t) ∧ b.Loaded t returnAddress := by
  obtain ⟨c, left, hrun, hholds, hesp, hebp, hedi, hebx, hcdf, hhost, hlt, hiff, -⟩ :=
    started hphase returnAddress
  obtain ⟨hcount, hgood⟩ := h
  have hrounds := hiff.mp hcount
  have hn : b.ecx.toNat = left + 1 := by
    rw [← hrounds, rounds, if_neg]
    rintro h0
    rw [h0] at hcount
    exact Nat.lt_irrefl 0 hcount.1
  obtain ⟨fuel, hfuel⟩ := latency_bound b.host.ata.latency (b.host.ata.fetched + 1 + left)
  have hmask : (b.eax &&& 0x0FFFFFFF).toNat < 2 ^ 28 := by
    rw [mask_toNat]
    exact Nat.mod_lt _ (by decide)
  obtain ⟨eax, edi, m', hnext, hm'⟩ := @readNext_ok (fuel + 256) c.host.memory b.edi
    (fun j => b.host.ata.disk.bytes (b.eax.toNat % 2 ^ 28 * 512 + j)) left c _ (fuel + 256) 0 _ _
    (hcdf.trans hdf) hhost (selected_slave b.host.ata b.ecx hmask) (by rw [hebx]; exact hrounds)
    (fun k hk => hgood k (by omega)) hslow (by have := hfuel b.host.ata.fetched (by omega); omega)
    (fun k hk => by have := hfuel k hk; exact Nat.le_trans this (Nat.le_add_right _ _)) (by omega)
    (by rw [hedi]; exact (BitVec.add_zero _).symm) (fun j _ => by rw [Nat.mul_zero, Nat.zero_add]; rfl)
    (by omega) .zero
  rw [Nat.zero_add, ← hn] at hm'
  -- the stack is not in the buffer
  have hstacked := @Pushed.stacked_congr _ _ m' _ _ hholds
    (by simp only [List.length_cons, List.length_nil]; decide) fun x hx => by
    rw [hm' x]
    refine if_neg fun hin => ?_
    have := hapart x hin
    rw [hesp] at hx
    exact absurd hx (by simpa using this)
  let host : AtaHost := ⟨{ b.host.ata.selected (b.eax &&& 0x0FFFFFFF) b.ecx with
    phase := .idle, fetched := b.host.ata.fetched + 1 + left }, m'⟩
  have hrestore := @restoreRegisters_eq ⟨eax, 0, 0, 0x1F0, edi, c.esp, c.ebp, c.eip, c.eflags, host⟩ []
    _ _ _ _ _ _ _ _ hstacked hebp
  refine ⟨fuel + 256, ⟨b.eax &&& 0x0FFFFFFF, b.ebx, b.ecx, b.edx, b.edi, c.esp + 32, b.ebp,
    returnAddress, b.eflags, host⟩, ?_, ?_⟩
  · rw [hrun]
    simp only [Bind.bind, StateT.bind, Except.bind, hnext]
    exact congrArg (fun t => Except.ok ((), t)) hrestore
  · have hback : c.esp + 32 = b.esp := by
      rw [hesp]
      bv_omega
    refine ⟨by dsimp only; rw [hback], rfl, rfl, rfl, fun x hx => ?_, fun x hx hx' => ?_⟩
    · exact (hm' x).trans (if_pos hx)
    · refine (hm' x).trans ((if_neg (Nat.not_lt.mpr hx)).trans (hholds.rest x ?_))
      rw [hesp]
      exact hx'

/-- A request that cannot. -/
theorem callAtaLbaRead_hangs (hphase : b.host.ata.phase = .idle)
    (hslow : ∀ k, 4 ≤ b.host.ata.latency k) (hdf : b.df = false)
    (h : ¬ b.host.ata.Loads (b.eax.toNat % 2 ^ 28) b.ecx) (fuel : Nat) :
    callAtaLbaRead returnAddress fuel b = .error .hang := by
  obtain ⟨c, left, hrun, -, -, -, -, hebx, hcdf, hhost, hlt, hiff, hle⟩ := started hphase returnAddress
  have hmask : (b.eax &&& 0x0FFFFFFF).toNat < 2 ^ 28 := by
    rw [mask_toNat]
    exact Nat.mod_lt _ (by decide)
  have hnext : readNext fuel fuel c = .error .hang := by
    refine @readNext_hangs fuel fuel c _ _ left _ (hcdf.trans hdf) hhost
      (selected_slave b.host.ata b.ecx hmask) hslow ?_
    rw [hebx]
    by_cases hcount : 0 < b.ecx.toNat ∧ b.ecx.toNat ≤ 256
    · have hrounds := hiff.mp hcount
      have hn : b.ecx.toNat = left + 1 := by
        rw [← hrounds, rounds, if_neg]
        rintro h0
        rw [h0] at hcount
        exact Nat.lt_irrefl 0 hcount.1
      have hbad : ∃ k < b.ecx.toNat, b.host.ata.bad (b.eax.toNat % 2 ^ 28 + k) = true := by
        by_contra hno
        refine h ⟨hcount, fun k hk => ?_⟩
        by_contra hbad
        exact hno ⟨k, hk, by simpa using hbad⟩
      obtain ⟨k, hk, hbad⟩ := hbad
      exact .inr ⟨k, by omega, by omega, hbad⟩
    · have hne : rounds b.ecx ≠ left + 1 := fun heq => hcount (hiff.mpr heq)
      exact .inl (by omega)
  rw [hrun]
  simp only [Bind.bind, StateT.bind, Except.bind, hnext]

theorem waitReady_below (fuel : Nat) : Below .hang (waitReady fuel) (waitReady (fuel + 1)) := by
  induction fuel with
  | zero => exact .throw
  | succ fuel ih =>
    exact .bind (.refl _) fun _ _ _ _ => .bind (.refl _) fun _ _ _ _ => .ite ih (.ite ih (.refl _))

theorem readNext_below (fuel : Nat) :
    Below .hang (readNext fuel fuel) (readNext (fuel + 1) (fuel + 1)) := by
  have hwait : ∀ k, Below .hang (readNext fuel k) (readNext (fuel + 1) k) := by
    intro k
    induction k with
    | zero => exact .refl _
    | succ k ih =>
      exact .bind (waitReady_below fuel) fun _ _ _ _ => .bind (.refl _) fun _ _ _ _ =>
        .bind (.refl _) fun _ _ _ _ => .ite ih (.refl _)
  have hmore : ∀ wait k, Below .hang (readNext wait k) (readNext wait (k + 1)) := by
    intro wait k
    induction k with
    | zero => exact .throw
    | succ k ih =>
      exact .bind (.refl _) fun _ _ _ _ => .bind (.refl _) fun _ _ _ _ =>
        .bind (.refl _) fun _ _ _ _ => .ite ih (.refl _)
  exact (hwait fuel).trans (hmore (fuel + 1) fuel)

theorem callAtaLbaRead_below (returnAddress : Word) (fuel : Nat) :
    Below .hang (callAtaLbaRead returnAddress fuel) (callAtaLbaRead returnAddress (fuel + 1)) := by
  refine .bind (.refl _) fun _ _ _ _ => .bind (.refl _) fun _ _ _ _ =>
    .bind (.refl _) fun _ _ _ _ => ?_
  refine .bind (.refl _) fun _ _ _ _ => .bind (.refl _) fun _ _ _ _ => ?_
  exact .bind (readNext_below fuel) fun _ _ _ _ => .refl _

theorem callAtaLbaRead_loaded (hphase : b.host.ata.phase = .idle)
    (hslow : ∀ k, 4 ≤ b.host.ata.latency k) (hdf : b.df = false) (hapart : b.BufferApart)
    (hrun : callAtaLbaRead returnAddress fuel b = .ok ((), t)) :
    b.host.ata.Loads (b.eax.toNat % 2 ^ 28) b.ecx ∧ b.Loaded t returnAddress := by
  have hloads : b.host.ata.Loads (b.eax.toNat % 2 ^ 28) b.ecx := by
    by_contra hno
    rw [callAtaLbaRead_hangs hphase hslow hdf hno] at hrun
    cases hrun
  obtain ⟨fuel', t', hrun', hloaded⟩ :=
    callAtaLbaRead_served hphase hslow hdf hapart hloads returnAddress
  -- with the fuel of both, the two results are one
  have h₁ := (Below.le (callAtaLbaRead_below returnAddress) (Nat.le_max_left fuel fuel')).ok hrun
  have h₂ := (Below.le (callAtaLbaRead_below returnAddress) (Nat.le_max_right fuel fuel')).ok hrun'
  rw [h₁] at h₂
  cases h₂
  exact ⟨hloads, hloaded⟩

/-- With a drive that takes the time of the delay for every sector, and strings that go upwards: the
routine returns if and only if it is to read between one and 256 sectors, all of which the drive can
read. Then the sectors are in the buffer, and the registers and the other memory are as before, but
for the stack below the caller's. -/
theorem ataLbaRead_iff (hphase : b.host.ata.phase = .idle) (hslow : ∀ k, 4 ≤ b.host.ata.latency k)
    (hdf : b.df = false) (hapart : b.BufferApart) (returnAddress : Word) :
    ((∃ fuel t, callAtaLbaRead returnAddress fuel b = .ok ((), t)) ↔
      b.host.ata.Loads (b.eax.toNat % 2 ^ 28) b.ecx) ∧
    ∀ fuel t, callAtaLbaRead returnAddress fuel b = .ok ((), t) → b.Loaded t returnAddress := by
  refine ⟨⟨fun ⟨fuel, t, hrun⟩ => (callAtaLbaRead_loaded hphase hslow hdf hapart hrun).1, fun h => ?_⟩,
    fun fuel t hrun => (callAtaLbaRead_loaded hphase hslow hdf hapart hrun).2⟩
  obtain ⟨fuel, t, hrun, -⟩ := callAtaLbaRead_served hphase hslow hdf hapart h returnAddress
  exact ⟨fuel, t, hrun⟩

/-- A machine behind the switch to protected mode, with a drive that takes its time. -/
def bootCpu : BootCpu where
  eax := 2
  ebx := 0xBBBB
  ecx := 3
  edx := 0x80
  edi := 0x8000
  esp := 0x7C00
  ebp := 0xB
  eip := 0
  eflags := 0x46
  host := { AtaHost.driveExample with
    ata := { AtaHost.driveExample.ata with latency := fun k => k + 4, bad := fun lba => lba == 5 } }

/-- Three sectors from sector 2 on. -/
theorem ataLbaRead_iff_three_sectors : ∃ fuel t, callAtaLbaRead 0x7C80 fuel bootCpu = .ok ((), t) ∧
    t.eip = 0x7C80 ∧ t.ebx = 0xBBBB ∧ t.host.memory 0x8200 = 3 := by
  have hapart : bootCpu.BufferApart := by
    intro x hx
    replace hx : (x - 0x8000).toNat < 512 * 3 := hx
    change 32 ≤ (x - (0x7C00 - 32)).toNat
    bv_omega
  obtain ⟨hiff, hloaded⟩ := @ataLbaRead_iff bootCpu rfl (fun k => Nat.le_add_left 4 k) rfl hapart 0x7C80
  obtain ⟨fuel, t, hrun⟩ := hiff.mpr ⟨by decide, by decide⟩
  obtain ⟨hregisters, -, -, -, hbuffer, -⟩ := hloaded fuel t hrun
  exact ⟨fuel, t, hrun, by rw [hregisters], by rw [hregisters]; rfl, hbuffer 0x8200 (by decide)⟩

/-- What `load32` asks for. -/
def BootCpu.loading (b : BootCpu) : BootCpu :=
  { b with eax := 1, ecx := 100, edi := KERNEL_32_LOAD_ADDRESS }

theorem load32_ok_iff : load32 returnAddress fuel b = .ok ((), t) ↔
    ∃ u, callAtaLbaRead returnAddress fuel b.loading = .ok ((), u) ∧
      { u with eip := KERNEL_32_LOAD_ADDRESS } = t := by
  have hload : load32 returnAddress fuel b = (do
      callAtaLbaRead returnAddress fuel
      modify fun b => { b with eip := KERNEL_32_LOAD_ADDRESS } : BootM Unit) b.loading := rfl
  rw [hload]
  cases hcall : callAtaLbaRead returnAddress fuel b.loading with
  | error e => simp [Bind.bind, StateT.bind, Except.bind, hcall]
  | ok r =>
    obtain ⟨⟨⟩, u⟩ := r
    simp only [Bind.bind, StateT.bind, Except.bind, hcall]
    constructor
    · intro h
      cases h
      exact ⟨u, rfl, rfl⟩
    · rintro ⟨u', hu, rfl⟩
      cases hu
      rfl

/-- The stack is below the kernel. -/
theorem loading_bufferApart (hstack : b.esp.toNat ≤ KERNEL_32_LOAD_ADDRESS.toNat)
    (hroom : 32 ≤ b.esp.toNat) : b.loading.BufferApart := by
  intro x hx
  replace hx : (x - 0x100000).toNat < 51200 := hx
  replace hstack : b.esp.toNat ≤ 0x100000 := hstack
  change 32 ≤ (x - (b.esp - 32)).toNat
  bv_omega

theorem loading_loads_iff : b.loading.host.ata.Loads (b.loading.eax.toNat % 2 ^ 28) b.loading.ecx ↔
    ∀ k < 100, b.host.ata.bad (1 + k) = false :=
  and_iff_right (by decide : 0 < (100 : Word).toNat ∧ (100 : Word).toNat ≤ 256)

/-- The boot sector hands over to the kernel if and only if the drive can read the 100 sectors behind
it, and then they are where the kernel is linked to. -/
theorem load32_iff (hphase : b.host.ata.phase = .idle) (hslow : ∀ k, 4 ≤ b.host.ata.latency k)
    (hdf : b.df = false) (hstack : b.esp.toNat ≤ KERNEL_32_LOAD_ADDRESS.toNat)
    (hroom : 32 ≤ b.esp.toNat) (returnAddress : Word) :
    ((∃ fuel t, load32 returnAddress fuel b = .ok ((), t)) ↔
      ∀ k < 100, b.host.ata.bad (1 + k) = false) ∧
    ∀ fuel t, load32 returnAddress fuel b = .ok ((), t) → t.eip = KERNEL_32_LOAD_ADDRESS ∧
      t.esp = b.esp ∧ ∀ j < 100 * 512,
        t.host.memory (KERNEL_32_LOAD_ADDRESS + BitVec.ofNat 32 j) =
          b.host.ata.disk.bytes (512 + j) := by
  have hapart : b.loading.BufferApart := loading_bufferApart hstack hroom
  refine ⟨⟨fun ⟨fuel, t, hrun⟩ => ?_, fun h => ?_⟩, fun fuel t hrun => ?_⟩
  · obtain ⟨u, hcall, -⟩ := load32_ok_iff.mp hrun
    have hloaded := callAtaLbaRead_loaded (b := b.loading) hphase hslow hdf hapart hcall
    exact loading_loads_iff.mp hloaded.1
  · obtain ⟨fuel, u, hcall, -⟩ := callAtaLbaRead_served (b := b.loading) hphase hslow hdf hapart
      (loading_loads_iff.mpr h) returnAddress
    exact ⟨fuel, _, load32_ok_iff.mpr ⟨u, hcall, rfl⟩⟩
  · obtain ⟨u, hcall, rfl⟩ := load32_ok_iff.mp hrun
    obtain ⟨-, hloaded⟩ := callAtaLbaRead_loaded (b := b.loading) hphase hslow hdf hapart hcall
    refine ⟨rfl, ?_, fun j hj => ?_⟩
    · change u.esp = b.esp
      rw [hloaded.registers]
      rfl
    · have hsub : (KERNEL_32_LOAD_ADDRESS + BitVec.ofNat 32 j - b.loading.edi).toNat = j :=
        offset_toNat _ (by omega)
      have hin : j < 512 * b.loading.ecx.toNat := by
        change j < 512 * 100
        omega
      change u.host.memory _ = _
      have hfirst : b.loading.eax.toNat % 2 ^ 28 = 1 := rfl
      rw [hloaded.buffer _ (by rw [hsub]; exact hin), hsub, hfirst, Nat.one_mul]
      rfl

end Routine

end AvocadOS
