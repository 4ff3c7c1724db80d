import AvocadOS.Kernel.Current

/-!
# The interrupt controllers (`idt.c`, `remap_master_pic_C` of `kernel.c`)

Two 8259A: lines 0 to 7 on the master, lines 8 to 15 on the slave, which is cascaded on line 2 of
the master. An interrupt that a controller delivers is in service until an end-of-interrupt command
clears its bit, and blocks the lines of the same and of lower priority until then.

* `Pic.writeCommand`, `Pic.writeData`: what a controller does with what is written to its ports;
* `isrDispatcher`, `picAck`: the dispatcher acknowledges, then it calls the handler of the vector;
* `Machine.Configured`: the controllers as `remap_master_pic_C` leaves them, and as they stay;
* `Machine.Step.inService`: one interrupt, from its delivery to the return of the dispatcher;
* `Machine.runs_acknowledged_iff`: when no line is left in service.
-/

namespace AvocadOS

def KERNEL_TOTAL_INTERRUPTS : Nat := 256

/-! ## The controllers -/

/-- The initialisation words that follow the first one. -/
inductive Icw where
  /-- The vector of line 0. -/
  | icw2
  /-- The wiring of the cascade. -/
  | icw3
  /-- The mode. -/
  | icw4
  deriving DecidableEq

/-- One 8259A. -/
structure Pic where
  /-- The initialisation words that the data port still expects. -/
  expects : List Icw
  vectorBase : Byte
  cascade : Byte
  mode : Byte
  mask : Byte
  inService : Byte
  deriving DecidableEq

namespace Pic

/-- A non-specific end of interrupt: line 0 has the highest priority, so the lowest bit goes. -/
def endOfInterrupt (p : Pic) : Pic := { p with inService := p.inService &&& (p.inService - 1) }

/-- A write to the command port: an initialisation, an end of interrupt, or the choice of the
register that the next read returns. -/
def writeCommand (p : Pic) (value : Byte) : Pic :=
  if value &&& 0x10 ≠ 0 then
    { p with
      expects := .icw2 :: (if value &&& 0x02 = 0 then [.icw3] else []) ++
        (if value &&& 0x01 ≠ 0 then [.icw4] else [])
      mask := 0
      inService := 0 }
  else if value = 0x20 then p.endOfInterrupt
  else p

/-- A write to the data port: the next initialisation word, else the mask. -/
def writeData (p : Pic) (value : Byte) : Pic :=
  match p.expects with
  | [] => { p with mask := value }
  | .icw2 :: rest => { p with expects := rest, vectorBase := value }
  | .icw3 :: rest => { p with expects := rest, cascade := value }
  | .icw4 :: rest => { p with expects := rest, mode := value }

/-- The line is not masked, and no line of the same or of higher priority is in service. -/
def Ready (p : Pic) (line : Nat) : Prop :=
  p.mask.getLsbD line = false ∧ ∀ i ≤ line, p.inService.getLsbD i = false

/-- The controller delivers an interrupt of the line. -/
def deliver (p : Pic) (line : Nat) : Pic :=
  { p with inService := p.inService ||| BitVec.twoPow 8 line }

/-- The vector of a line. -/
def vector (p : Pic) (line : Nat) : Word := (p.vectorBase + BitVec.ofNat 8 line).setWidth 32

end Pic

/-- The kernel and the two controllers. -/
structure Machine where
  kernel : Kernel
  master : Pic
  slave : Pic

/-- Code that also uses the ports. -/
abbrev M := StateT Machine (Except Fault)

/-- Code of the kernel that writes to no port of the controllers. -/
def onKernel {α : Type} (m : K α) : M α := fun s =>
  match m s.kernel with
  | .ok (a, k) => .ok (a, { s with kernel := k })
  | .error e => .error e

def outb (port : BitVec 16) (value : Byte) : M Unit := fun s =>
  if port = 0x20 then .ok ((), { s with master := s.master.writeCommand value })
  else if port = 0x21 then .ok ((), { s with master := s.master.writeData value })
  else if port = 0xA0 then .ok ((), { s with slave := s.slave.writeCommand value })
  else if port = 0xA1 then .ok ((), { s with slave := s.slave.writeData value })
  else .ok ((), s)

/-! ## `kernel.c` -/

def PIC1_CMD_PORT : BitVec 16 := 0x20
def PIC1_DATA_PORT : BitVec 16 := 0x21
def PIC2_CMD_PORT : BitVec 16 := 0xA0
def PIC2_DATA_PORT : BitVec 16 := 0xA1
def PIC_ICW1_INIT : Byte := 0x10
def PIC_ICW1_ICW4 : Byte := 0x01
def PIC_ICW4_8086_MODE : Byte := 0x01
def PIC_ICW3_SLAVE_AT_IRQ2 : Byte := 0x04
def PIC_ICW3_SLAVE_ID : Byte := 0x02

def remapMasterPicC : M Unit := do
  outb PIC1_CMD_PORT (PIC_ICW1_INIT ||| PIC_ICW1_ICW4)
  outb PIC2_CMD_PORT (PIC_ICW1_INIT ||| PIC_ICW1_ICW4)
  outb PIC1_DATA_PORT 0x20
  outb PIC2_DATA_PORT 0x28
  outb PIC1_DATA_PORT PIC_ICW3_SLAVE_AT_IRQ2
  outb PIC2_DATA_PORT PIC_ICW3_SLAVE_ID
  outb PIC1_DATA_PORT PIC_ICW4_8086_MODE
  outb PIC2_DATA_PORT PIC_ICW4_8086_MODE
  outb PIC1_DATA_PORT 0x0
  outb PIC2_DATA_PORT 0x0

/-! ## `idt.c` -/

def picAck (intno : Word) : M Unit := do
  -- A signed comparison.
  if (40 : Word).sle intno then outb 0xA0 0x20
  outb 0x20 0x20

/-- Print a line and return. -/
def isr0x0Handler (interruptFrame : Word) : M Word := pure interruptFrame
def isr0x1Handler (interruptFrame : Word) : M Word := pure interruptFrame
def int0x21Handler (interruptFrame : Word) : M Word := pure interruptFrame

/-- Prints and spins. -/
def isr0x6Handler (_interruptFrame : Word) : M Word := throw .hang

def isr0xEHandler (_interruptFrame : Word) : M Word := throw (.panic "Int 0xE - Page Fault\n")

def int0xDHandler (_interruptFrame : Word) : M Word := throw (.panic "GPF")

def noIntHandler (interruptFrame : Word) : M Word := do
  outb 0x20 0x0B
  pure interruptFrame

/-- The table that `idt_init` fills. -/
def isrHandlers : Nat → Word → M Word
  | 0x0 => isr0x0Handler
  | 0x1 => isr0x1Handler
  | 0x6 => isr0x6Handler
  | 0xE => isr0xEHandler
  | 0x20 => fun interruptFrame => onKernel (int0x20Handler interruptFrame)
  | 0x21 => int0x21Handler
  | 0xD => int0xDHandler
  | _ => noIntHandler

/-- `intNo` is `interrupt_frame->int_no`. After `idt_init` there is a handler for every vector. -/
def isrDispatcher (interruptFrame intNo : Word) : M Word := do
  if 31 < intNo.toNat then picAck (intNo - 32)
  if KERNEL_TOTAL_INTERRUPTS ≤ intNo.toNat then throw .outOfBounds
  isrHandlers intNo.toNat interruptFrame

/-! ## Hardware interrupts -/

namespace Machine

/-- Nothing is in service. -/
def Acknowledged (s : Machine) : Prop := s.master.inService = 0 ∧ s.slave.inService = 0

/-- The controllers would deliver an interrupt of the line. -/
def Ready (s : Machine) (line : Fin 16) : Prop :=
  if line.val < 8 then s.master.Ready line.val
  else s.slave.Ready (line.val - 8) ∧ s.master.Ready 2

/-- The controllers deliver an interrupt of the line; one of the slave is in service at both. -/
def deliver (s : Machine) (line : Fin 16) : Machine :=
  if line.val < 8 then { s with master := s.master.deliver line.val }
  else { s with master := s.master.deliver 2, slave := s.slave.deliver (line.val - 8) }

/-- The vector that the processor gets. -/
def vector (s : Machine) (line : Fin 16) : Word :=
  if line.val < 8 then s.master.vector line.val else s.slave.vector (line.val - 8)

/-- A hardware interrupt. -/
structure Irq where
  line : Fin 16
  /-- Where the entry code leaves the interrupted registers. -/
  frame : Word

/-- An interrupt is delivered, whatever is in service, and the dispatcher returns. -/
inductive Step : Machine → Irq → Machine → Prop
  | dispatched {s t : Machine} {irq : Irq} {r : Word}
      (h : isrDispatcher irq.frame (s.vector irq.line) (s.deliver irq.line) = .ok (r, t)) :
      Step s irq t

/-- The controllers as `remap_master_pic_C` sets them up, with nothing in service at the master. -/
structure Configured (s : Machine) : Prop where
  master : s.master = ⟨[], 0x20, 0x04, 0x01, 0, 0⟩
  slave : s.slave = ⟨[], 0x28, 0x02, 0x01, 0, s.slave.inService⟩

theorem remap_configured {s t : Machine} {u : Unit} (h : remapMasterPicC s = .ok (u, t)) :
    t.Configured ∧ t.slave.inService = 0 := by
  obtain rfl : t = ⟨s.kernel, ⟨[], 0x20, 0x04, 0x01, 0, 0⟩, ⟨[], 0x28, 0x02, 0x01, 0, 0⟩⟩ := by
    cases h
    rfl
  exact ⟨⟨rfl, rfl⟩, rfl⟩

/-! ## The handlers -/

/-- The controllers are as before. -/
def SamePics (s t : Machine) : Prop := t.master = s.master ∧ t.slave = s.slave

instance : Std.Refl SamePics := ⟨fun _ => ⟨rfl, rfl⟩⟩

instance : Trans SamePics SamePics SamePics where
  trans h₁ h₂ := ⟨h₂.1.trans h₁.1, h₂.2.trans h₁.2⟩

end Machine

open Machine

theorem keeps_throw {R : Machine → Machine → Prop} {α : Type} (e : Fault) :
    Keeps R (throw e : M α) := by
  intro s a t h
  cases h

theorem onKernel_samePics {α : Type} (m : K α) : Keeps SamePics (onKernel m) := by
  intro s a t h
  unfold onKernel at h
  split at h
  · cases h
    exact ⟨rfl, rfl⟩
  · cases h

/-- The command 0x0B only selects a register to be read: it is no end of interrupt. -/
theorem noIntHandler_samePics (frame : Word) : Keeps SamePics (noIntHandler frame) := by
  refine .bind ?_ fun _ => .pure _
  intro s a t h
  cases h
  exact ⟨rfl, rfl⟩

theorem isrHandlers_samePics (n : Nat) (frame : Word) : Keeps SamePics (isrHandlers n frame) := by
  unfold isrHandlers
  split
  · exact .pure _
  · exact .pure _
  · exact keeps_throw _
  · exact keeps_throw _
  · exact onKernel_samePics _
  · exact .pure _
  · exact keeps_throw _
  · exact noIntHandler_samePics _

/-! ## The acknowledgement -/

/-- The dispatcher passes the line, which is below 16, where `pic_ack` compares with a vector: the
slave never gets an end of interrupt. -/
theorem picAck_line {intNo : Word} (h : intNo.toNat < 72) (hirq : 31 < intNo.toNat) (s : Machine) :
    picAck (intNo - 32) s = .ok ((), { s with master := s.master.endOfInterrupt }) := by
  have hline : (40 : Word).sle (intNo - 32) = false := by
    simp only [BitVec.sle, decide_eq_false_iff_not, BitVec.toInt_eq_toNat_cond, BitVec.toNat_sub]
    have : (32 : Word).toNat = 32 := rfl
    have : (40 : Word).toNat = 40 := rfl
    omega
  simp only [picAck, hline]
  rfl

theorem isrDispatcher_pics {s t : Machine} {frame intNo r : Word} (hirq : 31 < intNo.toNat)
    (hlt : intNo.toNat < 72) (h : isrDispatcher frame intNo s = .ok (r, t)) :
    t.master = s.master.endOfInterrupt ∧ t.slave = s.slave := by
  have hack := picAck_line hlt hirq s
  have hbound : ¬ KERNEL_TOTAL_INTERRUPTS ≤ intNo.toNat := by
    simp only [KERNEL_TOTAL_INTERRUPTS]
    omega
  simp only [isrDispatcher, hirq, if_true, hbound, if_false] at h
  simp only [Bind.bind, StateT.bind, Except.bind, hack] at h
  exact isrHandlers_samePics _ _ h

/-- The only line in service is the one that the command clears. -/
theorem Pic.endOfInterrupt_deliver {p : Pic} {line : Nat} (hp : p.inService = 0) (h : line < 8) :
    (p.deliver line).endOfInterrupt = p := by
  have hclear : BitVec.twoPow 8 line &&& (BitVec.twoPow 8 line - 1) = 0 := by
    revert line
    decide
  obtain ⟨expects, base, cascade, mode, mask, inService⟩ := p
  obtain rfl : inService = 0 := hp
  simp only [Pic.deliver, Pic.endOfInterrupt, BitVec.ofNat_eq_ofNat, BitVec.zero_or] at hclear ⊢
  rw [hclear]

namespace Machine

variable {s t : Machine} {irq : Irq}

theorem Configured.vector_bounds (hs : s.Configured) (line : Fin 16) :
    31 < (s.vector line).toNat ∧ (s.vector line).toNat < 72 := by
  rw [vector, hs.master, hs.slave]
  simp only [Pic.vector]
  revert line
  decide

theorem Configured.deliver_slave (hs : s.Configured) (line : Fin 16) :
    (s.deliver line).slave = ⟨[], 0x28, 0x02, 0x01, 0, (s.deliver line).slave.inService⟩ := by
  unfold deliver
  split
  · exact hs.slave
  · simp only [Pic.deliver]
    rw [hs.slave]

theorem Configured.deliver_master (hs : s.Configured) (line : Fin 16) :
    (s.deliver line).master.endOfInterrupt = s.master := by
  have hclear : s.master.inService = 0 := by rw [hs.master]
  unfold deliver
  split
  · next h => exact Pic.endOfInterrupt_deliver hclear h
  · exact Pic.endOfInterrupt_deliver hclear (by decide)

/-- One interrupt: nothing stays in service at the master, and at the slave everything does. -/
theorem Step.inService (hs : s.Configured) (h : Step s irq t) :
    t.Configured ∧ t.slave.inService = (s.deliver irq.line).slave.inService := by
  obtain ⟨h⟩ := h
  obtain ⟨hirq, hlt⟩ := hs.vector_bounds irq.line
  obtain ⟨hmaster, hslave⟩ := isrDispatcher_pics hirq hlt h
  refine ⟨⟨?_, ?_⟩, by rw [hslave]⟩
  · rw [hmaster, hs.deliver_master, hs.master]
  · rw [hslave]
    exact hs.deliver_slave irq.line

theorem deliver_slave_eq_zero (line : Fin 16) :
    (s.deliver line).slave.inService = 0 ↔ s.slave.inService = 0 ∧ line.val < 8 := by
  unfold deliver
  split
  · next h => exact ⟨fun hs => ⟨hs, h⟩, And.left⟩
  · next h =>
    refine iff_of_false ?_ fun hs => h hs.2
    have hbit : (s.slave.deliver (line.val - 8)).inService.getLsbD (line.val - 8) = true := by
      have : line.val - 8 < 8 := by omega
      simp [Pic.deliver, this]
    intro hzero
    rw [hzero] at hbit
    simp at hbit

/-- With nothing masked or in service at the master, every line is ready if and only if nothing is
in service at the slave: a line that stays in service blocks itself. -/
theorem Configured.ready_iff (hs : s.Configured) :
    (∀ line, s.Ready line) ↔ s.slave.inService = 0 := by
  have hmaster : ∀ line, s.master.Ready line := by
    intro line
    rw [hs.master]
    simp [Pic.Ready]
  refine ⟨fun h => ?_, fun h line => ?_⟩
  · refine BitVec.eq_of_getLsbD_eq fun i hi => ?_
    have hline := h ⟨i + 8, by omega⟩
    rw [Ready, if_neg (by simp)] at hline
    rw [hline.1.2 i (by simp)]
    simp
  · unfold Ready
    split
    · exact hmaster _
    · refine ⟨?_, hmaster _⟩
      rw [hs.slave, h]
      simp [Pic.Ready]

theorem runs_slave {irqs : List Irq} (hs : s.Configured) (hrun : Runs Step s irqs t) :
    t.Configured ∧
      (t.slave.inService = 0 ↔ s.slave.inService = 0 ∧ ∀ irq ∈ irqs, irq.line.val < 8) := by
  induction hrun with
  | nil s => exact ⟨hs, by simp⟩
  | cons hstep _ ih =>
    obtain ⟨hm, hslave⟩ := hstep.inService hs
    obtain ⟨ht, hiff⟩ := ih hm
    refine ⟨ht, ?_⟩
    rw [hiff, hslave, deliver_slave_eq_zero, List.forall_mem_cons, and_assoc]

/-- After `remap_master_pic_C` and any sequence of hardware interrupts nothing is in service, and no
line is blocked, if and only if all of them were interrupts of the master. -/
theorem runs_acknowledged_iff {s₀ : Machine} {u : Unit} {irqs : List Irq}
    (hremap : remapMasterPicC s₀ = .ok (u, s)) (hrun : Runs Step s irqs t) :
    (t.Acknowledged ↔ ∀ irq ∈ irqs, irq.line.val < 8) ∧
      ((∀ line, t.Ready line) ↔ ∀ irq ∈ irqs, irq.line.val < 8) := by
  obtain ⟨hs, hclear⟩ := remap_configured hremap
  obtain ⟨ht, hslave⟩ := runs_slave hs hrun
  have hmaster : t.master.inService = 0 := by rw [ht.master]
  have hiff : t.slave.inService = 0 ↔ ∀ irq ∈ irqs, irq.line.val < 8 := by
    rw [hslave]
    exact and_iff_right hclear
  exact ⟨(and_iff_right hmaster).trans hiff, ht.ready_iff.trans hiff⟩

/-- The kernel with its first two tasks, and controllers that are not set up. -/
def machineExample : Machine :=
  ⟨Session.bootTasks.kernel, ⟨[], 0, 0, 0, 0, 0⟩, ⟨[], 0, 0, 0, 0, 0⟩⟩

theorem runs_acknowledged_iff_timer : ∃ s t, remapMasterPicC machineExample = .ok ((), s) ∧
    Runs Step s [⟨0, 0xC0113F00⟩, ⟨1, 0xC0133F00⟩] t ∧ t.Acknowledged ∧ ∀ line, t.Ready line := by
  have hrun : ∃ s t, remapMasterPicC machineExample = .ok ((), s) ∧
      Runs Step s [⟨0, 0xC0113F00⟩, ⟨1, 0xC0133F00⟩] t :=
    ⟨_, _, rfl, .cons (.dispatched rfl) (.cons (.dispatched rfl) (.nil _))⟩
  obtain ⟨s, t, hremap, hrun⟩ := hrun
  obtain ⟨hack, hready⟩ := runs_acknowledged_iff hremap hrun
  exact ⟨s, t, hremap, hrun, hack.mpr (by simp), hready.mpr (by simp)⟩

/-- One interrupt of line 8 stays in service at the slave, and the line stays blocked. -/
theorem slave_not_acknowledged : ∃ s t, remapMasterPicC machineExample = .ok ((), s) ∧
    Runs Step s [⟨8, 0xC0113F00⟩] t ∧ ¬ t.Acknowledged ∧ ¬ t.Ready 8 := by
  refine ⟨_, _, rfl, .cons (.dispatched rfl) (.nil _), fun h => ?_, fun h => ?_⟩
  · exact absurd h.2 (by decide)
  · exact absurd (h.1.2 0 (Nat.zero_le _)) (by decide)

end Machine

end AvocadOS
