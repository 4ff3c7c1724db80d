import AvocadOS.Kernel.Tasking

/-!
# Interrupt frames (`idt.asm`, `cpu.h`, `task_push_state_to_kstack`)

The entry and exit code of the interrupt routines as lists of instructions, run on a processor in
32-bit protected mode. A segment register that is pushed is zero extended. Selectors are taken to
be usable where they are loaded, and virtual-8086 mode and nested tasks are left out: the kernel
uses neither.

* `Cpu.interrupt`: what the processor pushes, on the same stack or on the one of the TSS, when it
  raises an interrupt itself;
* `isrStub`, `isrEntry`, `isrExit`: the code around the call of `isr_dispatcher`;
* `Holds.pushAll`: the words that were pushed are in memory, the last one first;
* `isrExit_registers`, `Cpu.enter_holds`: the exit code loads the frame at the stack pointer, and
  the entry code leaves one there;
* `frame_encodes`: a pushed frame is loaded as it was stored, and the entry code builds such a frame.
-/

namespace AvocadOS

/-! ## The processor -/

/-- The registers, the memory by words, and the stack of the TSS. Every access is to a word at a
multiple of four from a stack pointer. -/
structure Cpu where
  general : GeneralPurposeRegisters
  gs : BitVec 16
  fs : BitVec 16
  es : BitVec 16
  ds : BitVec 16
  cs : BitVec 16
  ss : BitVec 16
  eflags : Word
  eip : Word
  memory : Word → Word
  esp0 : Word
  ss0 : BitVec 16

inductive Segment where
  | gs
  | fs
  | es
  | ds
  deriving DecidableEq

inductive Instr where
  | cli
  | sti
  | cld
  | pushByte (value : Word)
  | pushad
  | popad
  | push (segment : Segment)
  | pop (segment : Segment)
  | movAx (value : BitVec 16)
  | movFromAx (segment : Segment)
  | addEsp (value : Word)
  | iret
  deriving DecidableEq

namespace Cpu

def setEsp (c : Cpu) (esp : Word) : Cpu := { c with general := { c.general with esp := esp } }

/-- The current privilege level. -/
def ring (c : Cpu) : Nat := c.cs.toNat % 4

/-- The word at `4 * i` above the stack pointer. -/
def word (c : Cpu) (i : Nat) : Word := c.memory (c.general.esp + BitVec.ofNat 32 (4 * i))

def push (c : Cpu) (w : Word) : Cpu :=
  let esp := c.general.esp - 4
  { c.setEsp esp with memory := Function.update c.memory esp w }

/-- The words of the list, one after the other. -/
def pushAll (c : Cpu) (ws : List Word) : Cpu := ws.foldl push c

def segment (c : Cpu) : Segment → BitVec 16
  | .gs => c.gs
  | .fs => c.fs
  | .es => c.es
  | .ds => c.ds

def setSegment (c : Cpu) (selector : BitVec 16) : Segment → Cpu
  | .gs => { c with gs := selector }
  | .fs => { c with fs := selector }
  | .es => { c with es := selector }
  | .ds => { c with ds := selector }

/-- `iret` goes to an outer ring, and takes a stack pointer off the stack too. -/
def Outer (c : Cpu) : Prop := c.ring < (c.word 1).toNat % 4

instance (c : Cpu) : Decidable c.Outer := inferInstanceAs (Decidable (_ < _))

/-- Where the words that `iret` takes off the stack end. -/
def iretEnd (c : Cpu) : Word :=
  c.general.esp + BitVec.ofNat 32 (4 * if c.Outer then 5 else 3)

def iret (c : Cpu) : Cpu :=
  let returned := { c with eip := c.word 0, cs := (c.word 1).setWidth 16, eflags := c.word 2 }
  if c.Outer then { returned.setEsp (c.word 3) with ss := (c.word 4).setWidth 16 }
  else returned.setEsp c.iretEnd

/-- The order of `struct general_purpose_registers`, last one first. -/
def pushad (c : Cpu) : Cpu :=
  let g := c.general
  c.pushAll [g.eax, g.ecx, g.edx, g.ebx, g.esp, g.ebp, g.esi, g.edi]

/-- The stack pointer that was pushed is skipped. -/
def popad (c : Cpu) : Cpu :=
  { c with
    general :=
      { edi := c.word 0, esi := c.word 1, ebp := c.word 2, esp := c.general.esp + 32,
        ebx := c.word 4, edx := c.word 5, ecx := c.word 6, eax := c.word 7 } }

def exec (c : Cpu) : Instr → Cpu
  | .cli => { c with eflags := c.eflags &&& ~~~0x200 }
  | .sti => { c with eflags := c.eflags ||| 0x200 }
  | .cld => { c with eflags := c.eflags &&& ~~~0x400 }
  | .pushByte value => c.push value
  | .pushad => c.pushad
  | .popad => c.popad
  | .push segment => c.push ((c.segment segment).setWidth 32)
  | .pop segment => (c.setSegment ((c.word 0).setWidth 16) segment).setEsp (c.general.esp + 4)
  | .movAx value =>
    { c with general := { c.general with eax := (c.general.eax &&& 0xFFFF0000) ||| value.setWidth 32 } }
  | .movFromAx segment => c.setSegment (c.general.eax.setWidth 16) segment
  | .addEsp value => c.setEsp (c.general.esp + value)
  | .iret => c.iret

def run (c : Cpu) (code : List Instr) : Cpu := code.foldl exec c

end Cpu

/-! ## `idt.asm` -/

/-- The vectors for which the processor pushes an error code, with `ISR_ERROR_CODE` routines. -/
def hasErrorCode (vector : Nat) : Bool :=
  vector ∈ [8, 10, 11, 12, 13, 14, 17, 30]

/-- `idt_init`: the gates of vectors 3 and 4 leave interrupts enabled. -/
def isTrapGate (vector : Nat) : Bool := vector ∈ [3, 4]

/-- The processor takes an exception or a hardware interrupt: it goes to ring 0, on the stack of the
TSS if it was in another ring. `errorCode` is pushed only for the vectors that have one. An `int n` is
this for the other vectors only: the processor never pushes an error code for it, so `int 8` would
leave the routine of vector 8 without the word that it removes. -/
def Cpu.interrupt (c : Cpu) (vector : Nat) (errorCode : Word) : Cpu :=
  let onStack :=
    if c.ring = 0 then c
    else ({ c.setEsp c.esp0 with ss := c.ss0 }).pushAll [c.ss.setWidth 32, c.general.esp]
  let pushed := onStack.pushAll [c.eflags, c.cs.setWidth 32, c.eip]
  let pushed := if hasErrorCode vector then pushed.push errorCode else pushed
  { pushed with
    cs := GDT_KERNEL_CODE_SEGMENT_SELECTOR.setWidth 16
    eflags := c.eflags &&& ~~~(if isTrapGate vector then 0x34100 else 0x34300) }

/-- `isr_%1`: the routine of a vector. -/
def isrStub (vector : Nat) : List Instr :=
  if hasErrorCode vector then [.cli, .pushByte (BitVec.ofNat 32 vector)]
  else [.cli, .pushByte 0, .pushByte (BitVec.ofNat 32 vector)]

/-- What `isr_wrapper` saves. -/
def isrSave : List Instr := [.cld, .pushad, .push .ds, .push .es, .push .fs, .push .gs]

def loadKernelSegments : List Instr :=
  [.movAx 0x10, .movFromAx .ds, .movFromAx .es, .movFromAx .fs, .movFromAx .gs]

/-- `isr_wrapper` up to the call of `isr_dispatcher`. -/
def isrEntry : List Instr := isrSave ++ loadKernelSegments

/-- `isr_wrapper` after the call, up to `iret`. -/
def isrRestore : List Instr :=
  [.pop .gs, .pop .fs, .pop .es, .pop .ds, .popad, .addEsp 8, .sti]

def isrExit : List Instr := isrRestore ++ [.iret]

/-- From the interrupt to the call of `isr_dispatcher`. -/
def Cpu.enter (c : Cpu) (vector : Nat) (errorCode : Word) : Cpu :=
  (c.interrupt vector errorCode).run (isrStub vector ++ isrEntry)

/-! ## `cpu.h` -/

/-- `struct interrupt_frame`. -/
structure InterruptFrame where
  gs : Word
  fs : Word
  es : Word
  ds : Word
  generalRegs : GeneralPurposeRegisters
  intNo : Word
  errorCode : Word
  eip : Word
  cs : Word
  eflags : Word
  /-- Only in a frame from an outer ring, like `ss`. -/
  esp : Word
  ss : Word

/-- The `struct interrupt_frame` at an address, by the offsets of its fields. -/
def readInterruptFrame (memory : Word → Word) (p : Word) : InterruptFrame where
  gs := memory p
  fs := memory (p + 4)
  es := memory (p + 8)
  ds := memory (p + 12)
  generalRegs :=
    { edi := memory (p + 16), esi := memory (p + 20), ebp := memory (p + 24), esp := memory (p + 28),
      ebx := memory (p + 32), edx := memory (p + 36), ecx := memory (p + 40), eax := memory (p + 44) }
  intNo := memory (p + 48)
  errorCode := memory (p + 52)
  eip := memory (p + 56)
  cs := memory (p + 60)
  eflags := memory (p + 64)
  esp := memory (p + 68)
  ss := memory (p + 72)

/-! ## Words on the stack -/

/-- The words of the list are in memory from `p` on. -/
def Holds (memory : Word → Word) : Word → List Word → Prop
  | _, [] => True
  | p, w :: ws => memory p = w ∧ Holds memory (p + 4) ws

instance Holds.decidable (memory : Word → Word) : ∀ p ws, Decidable (Holds memory p ws)
  | _, [] => isTrue trivial
  | p, w :: ws =>
    have := Holds.decidable memory (p + 4) ws
    inferInstanceAs (Decidable (memory p = w ∧ Holds memory (p + 4) ws))

theorem Holds.of_append {m : Word → Word} {p : Word} {ws vs : List Word}
    (h : Holds m p (ws ++ vs)) : Holds m p ws := by
  induction ws generalizing p with
  | nil => trivial
  | cons w ws ih => exact ⟨h.1, ih h.2⟩

/-- A write below the words. -/
theorem Holds.update {m : Word → Word} {a p : Word} {ws : List Word} {w : Word} (n : Nat)
    (h : Holds m p ws) (hp : p = a + BitVec.ofNat 32 (4 * (n + 1)))
    (hlen : 4 * (n + ws.length + 1) ≤ 2 ^ 32) : Holds (Function.update m a w) p ws := by
  induction ws generalizing p n with
  | nil => trivial
  | cons v vs ih =>
    simp only [List.length_cons] at hlen
    have hne : p ≠ a := by
      rintro rfl
      have := congrArg BitVec.toNat hp
      simp only [BitVec.toNat_add, BitVec.toNat_ofNat] at this
      omega
    refine ⟨by rw [Function.update_of_ne hne, h.1], ih (n + 1) h.2 ?_ (by omega)⟩
    rw [hp, BitVec.add_assoc, show 4 * (n + 1 + 1) = 4 * (n + 1) + 4 by omega, BitVec.ofNat_add]
    rfl

theorem Holds.push {c : Cpu} {ws : List Word} {w : Word} (h : Holds c.memory c.general.esp ws)
    (hlen : 4 * (ws.length + 1) ≤ 2 ^ 32) :
    Holds (c.push w).memory (c.push w).general.esp (w :: ws) := by
  have haddr : c.general.esp - 4 + 4 = c.general.esp := BitVec.sub_add_cancel _ _
  refine ⟨Function.update_self _ _ _, ?_⟩
  simp only [Cpu.push, Cpu.setEsp, haddr]
  exact h.update 0 haddr.symm (by omega)

theorem Holds.pushAll {c : Cpu} (ws : List Word) {vs : List Word}
    (h : Holds c.memory c.general.esp vs) (hlen : 4 * (ws.length + vs.length) ≤ 2 ^ 32) :
    Holds (c.pushAll ws).memory (c.pushAll ws).general.esp (ws.reverse ++ vs) := by
  induction ws generalizing c vs with
  | nil => exact h
  | cons w ws ih =>
    simp only [List.length_cons] at hlen
    have := ih (h.push (w := w) (by omega)) (by simp only [List.length_cons]; omega)
    simpa [Cpu.pushAll] using this

/-! ## The exit code -/

/-- The registers of the interrupted code. -/
structure Registers where
  general : GeneralPurposeRegisters
  gs : BitVec 16
  fs : BitVec 16
  es : BitVec 16
  ds : BitVec 16
  cs : BitVec 16
  ss : BitVec 16
  eflags : Word
  eip : Word

def Cpu.registers (c : Cpu) : Registers :=
  ⟨c.general, c.gs, c.fs, c.es, c.ds, c.cs, c.ss, c.eflags, c.eip⟩

/-- The frame is one of an outer ring. -/
def InterruptFrame.Outer (f : InterruptFrame) : Prop := 0 < f.cs.toNat % 4

instance (f : InterruptFrame) : Decidable f.Outer := inferInstanceAs (Decidable (_ < _))

/-- The registers that a frame stands for. One of ring 0 has no stack of its own: `esp` and `ss` are
then those of the kernel. -/
def InterruptFrame.registers (f : InterruptFrame) (esp : Word) (ss : BitVec 16) : Registers where
  general := { f.generalRegs with esp := if f.Outer then f.esp else esp }
  gs := f.gs.setWidth 16
  fs := f.fs.setWidth 16
  es := f.es.setWidth 16
  ds := f.ds.setWidth 16
  cs := f.cs.setWidth 16
  ss := if f.Outer then f.ss.setWidth 16 else ss
  eflags := f.eflags
  eip := f.eip

/-- Everything that `isr_wrapper` restores before `iret`. -/
theorem isrRestore_eq (c : Cpu) : c.run isrRestore =
    { c with
      gs := (c.word 0).setWidth 16
      fs := (c.word 1).setWidth 16
      es := (c.word 2).setWidth 16
      ds := (c.word 3).setWidth 16
      general :=
        { edi := c.word 4, esi := c.word 5, ebp := c.word 6, esp := c.general.esp + 56,
          ebx := c.word 8, edx := c.word 9, ecx := c.word 10, eax := c.word 11 }
      eflags := c.eflags ||| 0x200 } := by
  simp [Cpu.run, isrRestore, Cpu.exec, Cpu.word, Cpu.setSegment, Cpu.setEsp, Cpu.popad,
    BitVec.add_assoc]

variable {c : Cpu}

theorem isrRestore_outer (hring : c.ring = 0) :
    (c.run isrRestore).Outer ↔ (readInterruptFrame c.memory c.general.esp).Outer := by
  have hring' : (c.run isrRestore).ring = 0 := by
    rw [isrRestore_eq]
    exact hring
  rw [Cpu.Outer, hring', isrRestore_eq]
  simp [Cpu.word, InterruptFrame.Outer, readInterruptFrame, BitVec.add_assoc]

/-- The exit code loads the registers that the frame at the stack pointer stands for. -/
theorem isrExit_registers (hring : c.ring = 0) : (c.run isrExit).registers =
    (readInterruptFrame c.memory c.general.esp).registers (c.general.esp + 68) c.ss := by
  have houter := isrRestore_outer hring
  have hexit : c.run isrExit = (c.run isrRestore).iret := by
    simp [Cpu.run, isrExit, Cpu.exec]
  rw [hexit, Cpu.iret, Cpu.iretEnd]
  by_cases h : (readInterruptFrame c.memory c.general.esp).Outer
  · simp only [houter.mpr h, if_true, InterruptFrame.registers, h]
    rw [isrRestore_eq]
    simp [Cpu.registers, Cpu.word, Cpu.setEsp, readInterruptFrame, BitVec.add_assoc]
  · simp only [mt houter.mp h, if_false, InterruptFrame.registers, h]
    rw [isrRestore_eq]
    simp [Cpu.registers, Cpu.word, Cpu.setEsp, readInterruptFrame, BitVec.add_assoc]

/-- Where the frame that the exit code takes off the stack ends. -/
theorem isrRestore_iretEnd (hring : c.ring = 0) : (c.run isrRestore).iretEnd = c.general.esp +
    if (readInterruptFrame c.memory c.general.esp).Outer then 76 else 68 := by
  have houter := isrRestore_outer hring
  rw [Cpu.iretEnd]
  by_cases h : (readInterruptFrame c.memory c.general.esp).Outer
  · simp only [houter.mpr h, h, if_true]
    rw [isrRestore_eq]
    simp [BitVec.add_assoc]
  · simp only [mt houter.mp h, h, if_false]
    rw [isrRestore_eq]
    simp [BitVec.add_assoc]

/-! ## Frames as lists of words -/

namespace InterruptFrame

variable {f : InterruptFrame} {m : Word → Word} {p : Word}

/-- The words of a frame, in the order of their addresses. -/
def words (f : InterruptFrame) : List Word :=
  let g := f.generalRegs
  [f.gs, f.fs, f.es, f.ds, g.edi, g.esi, g.ebp, g.esp, g.ebx, g.edx, g.ecx, g.eax, f.intNo,
    f.errorCode, f.eip, f.cs, f.eflags, f.esp, f.ss]

/-- The words that are on the stack: `struct interrupt_frame`, or `struct interrupt_frame_kernel`. -/
def pushed (f : InterruptFrame) : List Word := if f.Outer then f.words else f.words.take 17

/-- A frame on the stack, read at its address. Beyond a frame of ring 0 there is something else. -/
theorem read_of_holds (h : Holds m p f.pushed) : readInterruptFrame m p =
    if f.Outer then f else { f with esp := m (p + 68), ss := m (p + 72) } := by
  unfold pushed at h
  split at h
  · next houter =>
    simp [words, Holds, BitVec.add_assoc] at h
    simp [houter, readInterruptFrame, h]
  · next houter =>
    simp [words, Holds, BitVec.add_assoc] at h
    simp [houter, readInterruptFrame, h]

theorem registers_of_holds (h : Holds m p f.pushed) (esp : Word) (ss : BitVec 16) :
    (readInterruptFrame m p).registers esp ss = f.registers esp ss := by
  rw [read_of_holds h]
  by_cases houter : f.Outer
  · simp only [houter, if_true]
  · have hcs : ¬ ({ f with esp := m (p + 68), ss := m (p + 72) } : InterruptFrame).Outer := houter
    simp only [houter, if_false, registers, hcs]

theorem outer_of_holds (h : Holds m p f.pushed) : (readInterruptFrame m p).Outer ↔ f.Outer := by
  rw [read_of_holds h]
  split <;> rfl

end InterruptFrame

/-! ## The entry code -/

namespace Cpu

/-- The frame of an interrupt that is taken in state `c`. `pushad` stores the stack pointer that it
finds, which is that of the words before. -/
def frame (c : Cpu) (vector : Nat) (errorCode : Word) : InterruptFrame where
  gs := c.gs.setWidth 32
  fs := c.fs.setWidth 32
  es := c.es.setWidth 32
  ds := c.ds.setWidth 32
  generalRegs := { c.general with esp := (c.enter vector errorCode).general.esp + 48 }
  intNo := BitVec.ofNat 32 vector
  errorCode := if hasErrorCode vector then errorCode else 0
  eip := c.eip
  cs := c.cs.setWidth 32
  eflags := c.eflags
  esp := c.general.esp
  ss := c.ss.setWidth 32

theorem frame_outer {c : Cpu} {vector : Nat} {errorCode : Word} :
    (c.frame vector errorCode).Outer ↔ c.ring ≠ 0 := by
  have hlt := c.cs.isLt
  simp only [frame, InterruptFrame.Outer, ring, BitVec.toNat_setWidth]
  omega

/-- Pushing changes the stack pointer and the memory. -/
theorem pushAll_eq (c : Cpu) (ws : List Word) : c.pushAll ws =
    { c.setEsp (c.general.esp - BitVec.ofNat 32 (4 * ws.length)) with
      memory := (c.pushAll ws).memory } := by
  induction ws generalizing c with
  | nil => simp [pushAll, setEsp]
  | cons w ws ih =>
    have hesp : c.general.esp - 4 - BitVec.ofNat 32 (4 * ws.length) =
        c.general.esp - BitVec.ofNat 32 (4 * (ws.length + 1)) := by
      rw [show 4 * (ws.length + 1) = 4 + 4 * ws.length by omega, BitVec.ofNat_add,
        BitVec.sub_eq_add_neg, BitVec.sub_eq_add_neg, BitVec.sub_eq_add_neg, BitVec.neg_add,
        BitVec.add_assoc, BitVec.sub_eq_add_neg]
      rfl
    rw [show c.pushAll (w :: ws) = (c.push w).pushAll ws from rfl, ih]
    simp only [push, setEsp, List.length_cons, hesp]

/-- The stack on which the frame is built. -/
def frameStack (c : Cpu) : Cpu := if c.ring = 0 then c else c.setEsp c.esp0

/-- What is pushed before `isr_wrapper`. -/
def vectorWords (c : Cpu) (vector : Nat) (errorCode : Word) : List Word :=
  (if c.ring = 0 then [] else [c.ss.setWidth 32, c.general.esp]) ++
    [c.eflags, c.cs.setWidth 32, c.eip, if hasErrorCode vector then errorCode else 0,
      BitVec.ofNat 32 vector]

/-- What `isr_wrapper` pushes. -/
def wrapperWords (c : Cpu) : List Word :=
  [c.general.eax, c.general.ecx, c.general.edx, c.general.ebx, c.general.esp, c.general.ebp,
    c.general.esi, c.general.edi, c.ds.setWidth 32, c.es.setWidth 32, c.fs.setWidth 32,
    c.gs.setWidth 32]

/-- The state in which `isr_wrapper` starts. -/
theorem interrupt_stub (c : Cpu) (vector : Nat) (errorCode : Word) : ∃ ss eflags,
    (c.ring = 0 → ss = c.ss) ∧
    (c.interrupt vector errorCode).run (isrStub vector) =
      { c.frameStack.pushAll (c.vectorWords vector errorCode) with
        cs := GDT_KERNEL_CODE_SEGMENT_SELECTOR.setWidth 16, ss := ss, eflags := eflags } := by
  by_cases hring : c.ring = 0 <;> by_cases herr : hasErrorCode vector
  all_goals
    simp only [interrupt, isrStub, frameStack, vectorWords, hring, herr, if_true, if_false]
  · exact ⟨_, _, fun _ => rfl, rfl⟩
  · exact ⟨_, _, fun _ => rfl, rfl⟩
  · exact ⟨_, _, fun h => absurd h id, rfl⟩
  · exact ⟨_, _, fun h => absurd h id, rfl⟩

theorem pushAll_segment (c : Cpu) (ws : List Word) (r : Segment) :
    (c.pushAll ws).segment r = c.segment r := by
  rw [pushAll_eq]
  cases r <;> rfl

theorem pushAll_push (c : Cpu) (ws : List Word) (w : Word) :
    (c.pushAll ws).push w = c.pushAll (ws ++ [w]) := by
  simp [pushAll]

theorem run_append (c : Cpu) (code code' : List Instr) :
    c.run (code ++ code') = (c.run code).run code' := List.foldl_append

/-- Only the stack pointer and the memory matter for the words on the stack. -/
theorem pushAll_memory_congr {c d : Cpu} (hm : c.memory = d.memory)
    (hesp : c.general.esp = d.general.esp) (ws : List Word) :
    (c.pushAll ws).memory = (d.pushAll ws).memory := by
  induction ws generalizing c d with
  | nil => exact hm
  | cons w ws ih =>
    refine @ih (c.push w) (d.push w) ?_ ?_
    · simp only [push, hm, hesp]
    · simp only [push, setEsp, hesp]

theorem pushAll_esp (c : Cpu) (ws : List Word) :
    (c.pushAll ws).general.esp = c.general.esp - BitVec.ofNat 32 (4 * ws.length) := by
  rw [pushAll_eq]
  rfl

theorem isrSave_eq (c : Cpu) :
    c.run isrSave = { c with eflags := c.eflags &&& ~~~0x400 }.pushAll c.wrapperWords := by
  simp only [run, isrSave, List.foldl_cons, List.foldl_nil, exec, pushad, pushAll_segment,
    pushAll_push]
  rfl

/-- The selectors that `isr_wrapper` loads do not matter for the stack. -/
theorem loadKernelSegments_stack (c : Cpu) :
    (c.run loadKernelSegments).memory = c.memory ∧
      (c.run loadKernelSegments).general.esp = c.general.esp ∧
      (c.run loadKernelSegments).cs = c.cs ∧ (c.run loadKernelSegments).ss = c.ss :=
  ⟨rfl, rfl, rfl, rfl⟩

theorem isrEntry_stack (c : Cpu) :
    (c.run isrEntry).memory = (c.pushAll c.wrapperWords).memory ∧
    (c.run isrEntry).general.esp = c.general.esp - 48 ∧
    (c.run isrEntry).cs = c.cs ∧ (c.run isrEntry).ss = c.ss := by
  obtain ⟨hm, hesp, hcs, hss⟩ := (c.run isrSave).loadKernelSegments_stack
  rw [isrEntry, run_append, hm, hesp, hcs, hss, isrSave_eq, pushAll_esp]
  refine ⟨pushAll_memory_congr rfl rfl _, rfl, ?_, ?_⟩
  · rw [pushAll_eq]
    rfl
  · rw [pushAll_eq]
    rfl

/-- The stack of `isr_dispatcher`. -/
theorem enter_stack {c d : Cpu} {vector : Nat} {errorCode : Word}
    (hd : d = c.frameStack.pushAll (c.vectorWords vector errorCode)) :
    (c.enter vector errorCode).memory = (d.pushAll d.wrapperWords).memory ∧
    (c.enter vector errorCode).general.esp = d.general.esp - 48 ∧
    (c.enter vector errorCode).ring = 0 ∧
    (c.ring = 0 → (c.enter vector errorCode).ss = c.ss) := by
  obtain ⟨ss, eflags, hss, hstub⟩ := c.interrupt_stub vector errorCode
  rw [← hd] at hstub
  obtain ⟨hm, hesp, hcs, hss'⟩ := isrEntry_stack ((c.interrupt vector errorCode).run (isrStub vector))
  rw [enter, run_append, hm, hesp, ring, hcs, hss', hstub]
  exact ⟨pushAll_memory_congr rfl rfl _, rfl, by simp [GDT_KERNEL_CODE_SEGMENT_SELECTOR], hss⟩

/-- The words that the processor and the two routines push are those of the frame. -/
theorem pushed_eq {c d : Cpu} {vector : Nat} {errorCode : Word}
    (hd : d = c.frameStack.pushAll (c.vectorWords vector errorCode)) :
    (c.vectorWords vector errorCode ++ d.wrapperWords).reverse = (c.frame vector errorCode).pushed := by
  have hesp : (c.enter vector errorCode).general.esp + 48 = d.general.esp := by
    rw [(enter_stack hd).2.1]
    exact BitVec.sub_add_cancel _ _
  have hwords : d.wrapperWords = { c.setEsp d.general.esp with memory := d.memory }.wrapperWords := by
    rw [hd, pushAll_eq, frameStack]
    split <;> rfl
  rw [hwords, InterruptFrame.pushed, frame, hesp]
  by_cases hring : c.ring = 0
  · have houter : ¬ (c.frame vector errorCode).Outer := fun h => frame_outer.mp h hring
    rw [frame, hesp] at houter
    rw [if_neg houter, vectorWords, if_pos hring]
    rfl
  · have houter : (c.frame vector errorCode).Outer := frame_outer.mpr hring
    rw [frame, hesp] at houter
    rw [if_pos houter, vectorWords, if_neg hring]
    rfl

theorem pushed_length (f : InterruptFrame) : f.pushed.length ≤ 19 := by
  unfold InterruptFrame.pushed
  split <;> simp [InterruptFrame.words]

/-- The frame of the interrupt is where `isr_dispatcher` gets it. -/
theorem enter_holds (c : Cpu) (vector : Nat) (errorCode : Word) :
    Holds (c.enter vector errorCode).memory (c.enter vector errorCode).general.esp
      (c.frame vector errorCode).pushed := by
  obtain ⟨d, hd⟩ : ∃ d, d = c.frameStack.pushAll (c.vectorWords vector errorCode) := ⟨_, rfl⟩
  obtain ⟨hm, hesp, -⟩ := enter_stack hd
  have hlen := pushed_length (c.frame vector errorCode)
  have hpushed := pushed_eq hd
  have hall : d.pushAll d.wrapperWords =
      c.frameStack.pushAll (c.vectorWords vector errorCode ++ d.wrapperWords) := by
    rw [hd, pushAll, pushAll, pushAll, List.foldl_append]
  have hbelow := @Holds.pushAll c.frameStack
    (c.vectorWords vector errorCode ++ d.wrapperWords) [] trivial (by
      rw [← hpushed, List.length_reverse] at hlen
      simp only [List.length_nil]
      omega)
  rw [List.append_nil, hpushed, ← hall, pushAll_esp] at hbelow
  rw [hm, hesp]
  exact hbelow

end Cpu

/-- Entry, anything that leaves the stack pointer and the frame as they are, and exit: the registers
are those of the interrupted code. -/
theorem exit_enter {c d : Cpu} {vector : Nat} {errorCode : Word} (hring : d.ring = 0)
    (hesp : d.general.esp = (c.enter vector errorCode).general.esp)
    (hss : d.ss = (c.enter vector errorCode).ss)
    (hframe : Holds d.memory d.general.esp (c.frame vector errorCode).pushed) :
    (d.run isrExit).registers = c.registers := by
  have hcs : (c.cs.setWidth 32).setWidth 16 = c.cs := by simp
  obtain ⟨-, hesp', -, hss'⟩ :=
    @Cpu.enter_stack c (c.frameStack.pushAll (c.vectorWords vector errorCode)) _ _ rfl
  rw [isrExit_registers hring, InterruptFrame.registers_of_holds hframe]
  by_cases hc : c.ring = 0
  · have houter : ¬ (c.frame vector errorCode).Outer := fun h => Cpu.frame_outer.mp h hc
    have htop : d.general.esp + 68 = c.general.esp := by
      rw [hesp, hesp', Cpu.pushAll_esp, Cpu.frameStack, Cpu.vectorWords, if_pos hc, if_pos hc]
      simp [BitVec.sub_eq_add_neg, BitVec.add_assoc]
    simp only [InterruptFrame.registers, houter, if_false, htop, hss, hss' hc]
    simp [Cpu.frame, Cpu.registers]
  · have houter : (c.frame vector errorCode).Outer := Cpu.frame_outer.mpr hc
    simp only [InterruptFrame.registers, houter, if_true]
    simp [Cpu.frame, Cpu.registers]

/-! ## Frames of new tasks -/

/-- The frame that `task_push_state_to_kstack` builds. -/
def storedFrame (r : ProcessState) : InterruptFrame where
  gs := r.segments.gs
  fs := r.segments.fs
  es := r.segments.es
  ds := r.segments.ds
  generalRegs := r.generalRegs
  intNo := 0xDEADC0DE
  errorCode := 0xDEADC0DE
  eip := r.eip
  cs := r.segments.cs
  eflags := r.eflags
  esp := r.generalRegs.esp
  ss := r.segments.ss

theorem storedFrame_outer (r : ProcessState) : (storedFrame r).Outer ↔ r.segments.cs &&& 3 ≠ 0 := by
  have hand : (r.segments.cs &&& 3).toNat = r.segments.cs.toNat % 4 :=
    Nat.and_two_pow_sub_one_eq_mod r.segments.cs.toNat 2
  rw [InterruptFrame.Outer, ne_eq, ← BitVec.toNat_inj, hand, Nat.pos_iff_ne_zero]
  rfl

theorem pushedFrame_eq (r : ProcessState) : pushedFrame r = (storedFrame r).pushed := by
  unfold pushedFrame InterruptFrame.pushed
  by_cases h : (storedFrame r).Outer
  · rw [if_pos h, if_pos ((storedFrame_outer r).mp h)]
    rfl
  · rw [if_neg h, if_neg (mt (storedFrame_outer r).mpr h)]
    rfl

/-- The registers with which a task runs that was stored with the registers `r`. One of ring 0 runs
on the stack that it is started from. -/
def ProcessState.loaded (r : ProcessState) (esp : Word) (ss : BitVec 16) : Registers where
  general := { r.generalRegs with esp := if r.segments.cs &&& 3 ≠ 0 then r.generalRegs.esp else esp }
  gs := r.segments.gs.setWidth 16
  fs := r.segments.fs.setWidth 16
  es := r.segments.es.setWidth 16
  ds := r.segments.ds.setWidth 16
  cs := r.segments.cs.setWidth 16
  ss := if r.segments.cs &&& 3 ≠ 0 then r.segments.ss.setWidth 16 else ss
  eflags := r.eflags
  eip := r.eip

theorem storedFrame_registers (r : ProcessState) (esp : Word) (ss : BitVec 16) :
    (storedFrame r).registers esp ss = r.loaded esp ss := by
  simp only [InterruptFrame.registers, ProcessState.loaded, storedFrame_outer]
  rfl

theorem taskPushStateToKstack_eq {s : Kernel} {task : Word} {t : Task} (hne : task ≠ 0)
    (ht : s.tasks task = some t) : taskPushStateToKstack task s =
      .ok ((), { s with
        tasks := Function.update s.tasks task (some (t.push (pushedFrame t.registers))) }) := by
  have hload : tasks.load task s = .ok (t, s) := by
    simp only [Store.load, hne, if_false, tasks_get, ht]
  rw [taskPushStateToKstack, bind_eq hload]
  exact Store.modify_eq hne ht

/-- The exit code on the stack of a task whose registers have just been pushed. -/
theorem exit_pushed {c : Cpu} {t : Task} (hring : c.ring = 0)
    (hesp : c.general.esp = (t.push (pushedFrame t.registers)).kernelStackPointer)
    (hstack : Holds c.memory c.general.esp (t.push (pushedFrame t.registers)).kstack) :
    (c.run isrExit).registers = t.registers.loaded t.kernelStackPointer c.ss ∧
      (c.run isrRestore).iretEnd = t.kernelStackPointer := by
  have hframe : Holds c.memory c.general.esp (storedFrame t.registers).pushed := by
    rw [← pushedFrame_eq]
    exact hstack.of_append
  have htop : c.general.esp +
      (if (storedFrame t.registers).Outer then 76 else 68) = t.kernelStackPointer := by
    rw [hesp, Task.push, pushedFrame_eq, InterruptFrame.pushed]
    by_cases houter : (storedFrame t.registers).Outer
    · simp only [houter, if_true]
      exact BitVec.sub_add_cancel _ _
    · simp only [houter, if_false]
      exact BitVec.sub_add_cancel _ _
  refine ⟨?_, ?_⟩
  · rw [isrExit_registers hring, InterruptFrame.registers_of_holds hframe, ← storedFrame_registers]
    by_cases houter : (storedFrame t.registers).Outer
    · simp only [InterruptFrame.registers, houter, if_true]
    · rw [if_neg houter] at htop
      rw [htop]
  · rw [isrRestore_iretEnd hring, ← htop]
    simp only [InterruptFrame.outer_of_holds hframe]

/-- The frame that `task_push_state_to_kstack` pushes is loaded by the exit code as it was stored and
ends at the end of the stack, and the frame of an interrupt has each register in its field and is
loaded as it was interrupted. -/
theorem frame_encodes :
    (∀ (s : Kernel) (task : Word) (t : Task), task ≠ 0 → s.tasks task = some t →
      t.kernelStackPointer = kstackEnd task →
      ∃ s' t', taskPushStateToKstack task s = .ok ((), s') ∧ s'.tasks task = some t' ∧
        ∀ c : Cpu, c.ring = 0 → c.general.esp = t'.kernelStackPointer →
          Holds c.memory c.general.esp t'.kstack →
          (c.run isrExit).registers = t.registers.loaded (kstackEnd task) c.ss ∧
            (c.run isrRestore).iretEnd = kstackEnd task) ∧
    ∀ (c : Cpu) (vector : Nat) (errorCode : Word),
      let entered := c.enter vector errorCode
      let frame := c.frame vector errorCode
      let read := readInterruptFrame entered.memory entered.general.esp
      (c.ring ≠ 0 → read = frame) ∧
      (c.ring = 0 → read = { frame with esp := read.esp, ss := read.ss }) ∧
      (entered.run isrExit).registers = c.registers ∧
      ∀ d : Cpu, d.ring = 0 → d.general.esp = entered.general.esp → d.ss = entered.ss →
        Holds d.memory d.general.esp frame.pushed → (d.run isrExit).registers = c.registers := by
  refine ⟨fun s task t hne ht hend => ?_, fun c vector errorCode => ?_⟩
  · refine ⟨_, _, taskPushStateToKstack_eq hne ht, Function.update_self _ _ _,
      fun c hring hesp hstack => ?_⟩
    rw [← hend]
    exact exit_pushed hring hesp hstack
  · intro entered frame read
    have hholds := c.enter_holds vector errorCode
    have hread := InterruptFrame.read_of_holds hholds
    obtain ⟨-, -, hring, -⟩ :=
      @Cpu.enter_stack c (c.frameStack.pushAll (c.vectorWords vector errorCode)) _ _ rfl
    refine ⟨fun hc => ?_, fun hc => ?_, exit_enter hring rfl rfl hholds, fun d hd hesp hss hframe =>
      exit_enter hd hesp hss hframe⟩
    · exact hread.trans (if_pos (Cpu.frame_outer.mpr hc))
    · exact hread.trans (if_neg fun h => Cpu.frame_outer.mp h hc)

/-- A new user task, before its registers are pushed. -/
def userTask : Task := initialTask 0xC0150000 0xC0140000 false 0x400000 0x4000000

/-- The processor in the kernel, on the stack of that task. -/
def userTaskCpu : Cpu where
  general := { userTask.registers.generalRegs with esp := 0xC0153FB4 }
  gs := 0x10
  fs := 0x10
  es := 0x10
  ds := 0x10
  cs := 0x8
  ss := 0x10
  eflags := 0x2
  eip := 0xC0100000
  memory := fun a => (pushedFrame userTask.registers).getD ((a - 0xC0153FB4).toNat / 4) 0
  esp0 := 0xC0154000
  ss0 := 0x10

theorem frame_encodes_userTask :
    (userTaskCpu.run isrExit).registers = userTask.registers.loaded 0xC0154000 0x10 ∧
      (userTaskCpu.run isrRestore).iretEnd = 0xC0154000 := by
  obtain ⟨s', t', hpush, ht', h⟩ := frame_encodes.1
    { kernelExample with tasks := fun _ => some userTask } 0xC0150000 userTask (by decide) rfl rfl
  rw [taskPushStateToKstack_eq (by decide) rfl] at hpush
  cases hpush
  obtain rfl : userTask.push (pushedFrame userTask.registers) = t' := Option.some.inj ht'
  exact h userTaskCpu rfl rfl (by decide)

end AvocadOS
