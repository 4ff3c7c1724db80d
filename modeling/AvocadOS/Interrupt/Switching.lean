import AvocadOS.Interrupt.Frame
import AvocadOS.Interrupt.Pic

/-!
# Tasks on one processor

The interrupt routines as a whole, from the interrupt to `iret`, on the registers and the memory of
the processor. Between two interrupts the current task does what it likes to its registers and to
memory, but for the stacks of the suspended tasks.

`push esp` makes the argument of `isr_dispatcher`. Its parameter is that word of the stack (the
kernel is compiled without optimisation), so what the dispatcher assigns to it is what `pop esp`
loads: the interrupt ends on the stack of the task that is then current.

* `Computer.Called`: what the call of `isr_dispatcher` does to the processor;
* `Cpu.enter_esp`, `Cpu.enter_memory`: where the frame of an interrupt is, and what it overwrites;
* `Frozen`: the stack of a suspended task, from which its registers can be loaded;
* `CpuSession.Inv.interrupt`, `CpuSession.Inv.create`: a step keeps the stacks of the suspended tasks;
* `CpuSession.switches_transparent`: a task goes on as if it had not been interrupted.
-/

namespace AvocadOS

open Kernel

/-! ## Stacks -/

/-- `sizeof(struct task_control_block)`, which is at the lower end of the stack. -/
def controlBlockSize : Nat := 92

/-- The address is on the stack of the task, from `bottom` on. -/
def OnStack (task bottom a : Word) : Prop :=
  bottom.toNat ≤ a.toNat ∧ a.toNat < task.toNat + taskSize

/-- The stacks of two tasks. -/
def StacksApart (a b : Word) : Prop :=
  a.toNat + taskSize ≤ b.toNat ∨ b.toNat + taskSize ≤ a.toNat

/-- The stack pointer of code of ring 0 is on the stack of its task, with room for a frame and for
the argument of the dispatcher. -/
structure StackPointer (task esp : Word) : Prop where
  room : task.toNat + controlBlockSize + 72 ≤ esp.toNat
  le : esp.toNat ≤ task.toNat + taskSize
  aligned : esp.toNat % 4 = 0

/-- The selector of the kernel's stack. -/
def kernelStackSelector : BitVec 16 := GDT_KERNEL_DATA_SEGMENT_SELECTOR.setWidth 16

/-- Code of ring 0 runs on the stack of its task. -/
def Cpu.OnTask (c : Cpu) (task : Word) : Prop :=
  c.ring = 0 → c.ss = kernelStackSelector ∧ StackPointer task c.general.esp

/-- The stacks of the suspended tasks, each from its saved pointer on, are as before. -/
def Kernel.KeepsStacks (k : Kernel) (m m' : Word → Word) : Prop :=
  ∀ task p a, task ≠ k.currentTask → k.savedPointer task = some p → OnStack task p a → m' a = m a

/-! ## Interrupts -/

/-- The number of vectors for which `idt_init` makes a gate. -/
def idtGates : Nat := 48

/-- `push esp`. -/
def Cpu.pushEsp (c : Cpu) : Cpu := c.push c.general.esp

/-- `pop esp`. -/
def Cpu.popEsp (c : Cpu) : Cpu := c.setEsp (c.word 0)

/-- The processor, the kernel and the controllers. -/
structure Computer where
  cpu : Cpu
  machine : Machine

namespace Computer

/-- The call of `isr_dispatcher`, from `c` to `d`: it returned `r` and left the kernel `k'`. What is
below its argument is the dispatcher's own stack. -/
structure Called (k k' : Kernel) (r : Word) (c d : Cpu) : Prop where
  esp : d.general.esp = c.general.esp
  cs : d.cs = c.cs
  ss : d.ss = c.ss
  ss0 : d.ss0 = c.ss0
  esp0 : d.esp0 = k'.tssEsp0
  parameter : d.word 0 = r
  own : ∀ a, OnStack k.currentTask (c.general.esp + 4) a → d.memory a = c.memory a
  others : k.KeepsStacks c.memory d.memory

/-- An interrupt, from the gate to the `iret` behind the dispatcher. -/
inductive Interrupted (vector : Nat) (errorCode : Word) : Computer → Computer → Prop
  | returned {c : Computer} {d : Cpu} {machine : Machine} {r : Word}
      (gate : vector < idtGates)
      (call : isrDispatcher (c.cpu.enter vector errorCode).general.esp (BitVec.ofNat 32 vector)
        c.machine = .ok (r, machine))
      (called : Called c.machine.kernel machine.kernel r (c.cpu.enter vector errorCode).pushEsp d) :
      Interrupted vector errorCode c ⟨d.popEsp.run isrExit, machine⟩

/-- What code of the current task does between two interrupts. -/
structure Executes (c : Computer) (d : Cpu) : Prop where
  esp0 : d.esp0 = c.cpu.esp0
  ss0 : d.ss0 = c.cpu.ss0
  others : c.machine.kernel.KeepsStacks c.cpu.memory d.memory
  onTask : d.OnTask c.machine.kernel.currentTask

end Computer

/-- What the kernel does for the current task between two interrupts, other than creating a task. -/
structure Kernel.Works (k k' : Kernel) : Prop where
  tasks : k'.tasks = k.tasks
  current : k'.currentTask = k.currentTask
  esp0 : k'.tssEsp0 = k.tssEsp0
  image : k'.image = k.image
  directories : ∀ p, k.HasDirectory p → k'.HasDirectory p
  blocks : ∀ a, k.tasks a ≠ none → ⟨a, taskSize⟩ ∈ k.blocks → ⟨a, taskSize⟩ ∈ k'.blocks

/-! ## The frame of an interrupt -/

namespace Cpu

/-- A push writes below the stack pointer. -/
theorem pushAll_memory {c : Cpu} {ws : List Word} {a : Word} (hroom : 4 * ws.length ≤ c.general.esp.toNat)
    (ha : c.general.esp.toNat ≤ a.toNat ∨ a.toNat < c.general.esp.toNat - 4 * ws.length) :
    (c.pushAll ws).memory a = c.memory a := by
  induction ws generalizing c with
  | nil => rfl
  | cons w ws ih =>
    simp only [List.length_cons] at hroom ha
    have hfour : (4 : Word).toNat = 4 := rfl
    have hesp : (c.push w).general.esp.toNat = c.general.esp.toNat - 4 :=
      BitVec.toNat_sub_of_le (BitVec.le_def.mpr (by omega))
    have hne : a ≠ c.general.esp - 4 := by
      rintro rfl
      rw [show (c.general.esp - 4).toNat = c.general.esp.toNat - 4 from hesp] at ha
      omega
    have hrest := ih (c := c.push w) (by rw [hesp]; omega) (by rw [hesp]; omega)
    rw [show c.pushAll (w :: ws) = (c.push w).pushAll ws from rfl, hrest]
    exact Function.update_of_ne hne _ _

variable {c : Cpu} {vector : Nat} {errorCode : Word}

theorem vectorWords_length :
    (c.vectorWords vector errorCode).length = if c.ring = 0 then 5 else 7 := by
  unfold vectorWords
  split <;> rfl

theorem frame_length :
    (c.frame vector errorCode).pushed.length = if c.ring = 0 then 17 else 19 := by
  have hpushed := congrArg List.length (@pushed_eq c _ vector errorCode rfl)
  rw [List.length_reverse, List.length_append, vectorWords_length] at hpushed
  rw [← hpushed]
  split <;> rfl

/-- The frame ends where the stack began. -/
theorem enter_esp : (c.enter vector errorCode).general.esp =
    c.frameStack.general.esp - BitVec.ofNat 32 (4 * (c.frame vector errorCode).pushed.length) := by
  rw [(enter_stack rfl).2.1, pushAll_esp, vectorWords_length, frame_length]
  split
  · rw [BitVec.sub_sub]
    rfl
  · rw [BitVec.sub_sub]
    rfl

theorem enter_esp_toNat
    (hroom : 4 * (c.frame vector errorCode).pushed.length ≤ c.frameStack.general.esp.toNat) :
    (c.enter vector errorCode).general.esp.toNat =
      c.frameStack.general.esp.toNat - 4 * (c.frame vector errorCode).pushed.length := by
  have hlen := pushed_length (c.frame vector errorCode)
  have hnat : (BitVec.ofNat 32 (4 * (c.frame vector errorCode).pushed.length)).toNat =
      4 * (c.frame vector errorCode).pushed.length := by
    rw [BitVec.toNat_ofNat, Nat.mod_eq_of_lt (by omega)]
  rw [enter_esp, BitVec.toNat_sub_of_le (BitVec.le_def.mpr (by omega)), hnat]

/-- An interrupt overwrites nothing but the words of its frame. -/
theorem enter_memory {a : Word}
    (hroom : 4 * (c.frame vector errorCode).pushed.length ≤ c.frameStack.general.esp.toNat)
    (ha : c.frameStack.general.esp.toNat ≤ a.toNat ∨
      a.toNat < (c.enter vector errorCode).general.esp.toNat) :
    (c.enter vector errorCode).memory a = c.memory a := by
  obtain ⟨d, hd⟩ : ∃ d, d = c.frameStack.pushAll (c.vectorWords vector errorCode) := ⟨_, rfl⟩
  have hall : d.pushAll d.wrapperWords =
      c.frameStack.pushAll (c.vectorWords vector errorCode ++ d.wrapperWords) := by
    rw [hd, pushAll, pushAll, pushAll, List.foldl_append]
  have hlen : (c.vectorWords vector errorCode ++ d.wrapperWords).length =
      (c.frame vector errorCode).pushed.length := by
    rw [← pushed_eq hd, List.length_reverse]
  rw [enter_esp_toNat hroom] at ha
  rw [(enter_stack hd).1, hall, pushAll_memory (by omega) (by omega), frameStack]
  split <;> rfl

/-- The kernel's stack, if the interrupt came from an outer ring. -/
theorem enter_ss : (c.enter vector errorCode).ss = if c.ring = 0 then c.ss else c.ss0 := by
  have hentry : (c.enter vector errorCode).ss =
      ((c.interrupt vector errorCode).run (isrStub vector)).ss := by
    rw [enter, run_append, (isrEntry_stack _).2.2.2]
  have hstub : ∀ d : Cpu, (d.run (isrStub vector)).ss = d.ss := by
    intro d
    unfold isrStub
    split <;> rfl
  rw [hentry, hstub, interrupt]
  by_cases hring : c.ring = 0
  · by_cases herr : hasErrorCode vector
    · simp only [hring, herr, if_true]
      rfl
    · simp only [hring, herr, if_true]
      rfl
  · by_cases herr : hasErrorCode vector
    · simp only [hring, herr, if_true, if_false]
      rfl
    · simp only [hring, herr, if_false]
      rfl

/-- The stack of the TSS stays as it is. -/
theorem enter_ss0 : (c.enter vector errorCode).ss0 = c.ss0 := by
  have hstub : ∀ d : Cpu, (d.run (isrStub vector)).ss0 = d.ss0 := by
    intro d
    unfold isrStub
    split <;> rfl
  have hentry : ∀ d : Cpu, (d.run isrEntry).ss0 = d.ss0 := by
    intro d
    have hload : ∀ e : Cpu, (e.run loadKernelSegments).ss0 = e.ss0 := fun _ => rfl
    rw [isrEntry, run_append, hload, isrSave_eq, pushAll_eq]
    rfl
  rw [enter, run_append, hentry, hstub, interrupt]
  by_cases hring : c.ring = 0 <;> by_cases herr : hasErrorCode vector
  all_goals
    simp only [hring, herr, if_true, if_false]
    rfl

/-- The frame stands for the registers of the interrupted code. -/
theorem frame_registers (hss : c.ring = 0 → c.ss = kernelStackSelector) :
    (c.frame vector errorCode).registers ((c.enter vector errorCode).general.esp + 68)
      kernelStackSelector = c.registers := by
  by_cases hc : c.ring = 0
  · have houter : ¬ (c.frame vector errorCode).Outer := fun h => frame_outer.mp h hc
    have htop : (c.enter vector errorCode).general.esp + 68 = c.general.esp := by
      rw [enter_esp, frame_length, if_pos hc, frameStack, if_pos hc]
      exact BitVec.sub_add_cancel _ _
    simp only [InterruptFrame.registers, houter, if_false, htop, ← hss hc]
    simp [frame, registers]
  · have houter : (c.frame vector errorCode).Outer := frame_outer.mpr hc
    simp only [InterruptFrame.registers, houter, if_true]
    simp [frame, registers]

end Cpu

/-! ## Words of a stack -/

/-- Words that are the same in another memory. -/
theorem Holds.congr {m m' : Word → Word} {p : Word} {ws : List Word} (h : Holds m p ws)
    (hsame : ∀ a : Word, p.toNat ≤ a.toNat → a.toNat < p.toNat + 4 * ws.length → m' a = m a)
    (hfits : p.toNat + 4 * ws.length < 2 ^ 32) : Holds m' p ws := by
  induction ws generalizing p with
  | nil => trivial
  | cons w ws ih =>
    simp only [List.length_cons] at hsame hfits
    have hnext : (p + 4).toNat = p.toNat + 4 := by
      have hfour : (4 : Word).toNat = 4 := rfl
      rw [BitVec.toNat_add, Nat.mod_eq_of_lt (by omega), hfour]
    refine ⟨by rw [hsame p (by omega) (by omega), h.1], ih h.2 (fun a h₁ h₂ => hsame a ?_ ?_) ?_⟩
    all_goals omega

/-! ## The dispatcher -/

section Dispatcher

variable {s t : Machine} {frame intNo r : Word}

/-- The kernel is as before. -/
def SameKernel (s t : Machine) : Prop := t.kernel = s.kernel

instance : Std.Refl SameKernel := ⟨fun _ => rfl⟩

instance : Trans SameKernel SameKernel SameKernel where
  trans h₁ h₂ := h₂.trans h₁

theorem outb_ok (port : BitVec 16) (value : Byte) (s : Machine) :
    ∃ t, outb port value s = .ok ((), t) ∧ SameKernel s t := by
  unfold outb
  repeat' split
  all_goals exact ⟨_, rfl, rfl⟩

theorem picAck_ok (intno : Word) (s : Machine) :
    ∃ t, picAck intno s = .ok ((), t) ∧ SameKernel s t := by
  obtain ⟨u, hu, hsame⟩ := outb_ok 0xA0 0x20 s
  unfold picAck
  split
  · obtain ⟨t, ht, hsame'⟩ := outb_ok 0x20 0x20 u
    exact ⟨t, (bind_eq hu).trans ht, hsame'.trans hsame⟩
  · exact outb_ok 0x20 0x20 s

/-- A handler other than that of the timer returns the frame that it got. -/
theorem isrHandlers_ok {n : Nat} (hn : n ≠ 0x20) (h : isrHandlers n frame s = .ok (r, t)) :
    r = frame ∧ SameKernel s t := by
  unfold isrHandlers at h
  split at h
  · cases h; exact ⟨rfl, rfl⟩
  · cases h; exact ⟨rfl, rfl⟩
  · cases h
  · cases h
  · exact absurd rfl hn
  · cases h; exact ⟨rfl, rfl⟩
  · cases h
  · cases h; exact ⟨rfl, rfl⟩

theorem isrDispatcher_ack (frame : Word) (hlt : intNo.toNat < KERNEL_TOTAL_INTERRUPTS) (s : Machine) :
    ∃ u, SameKernel s u ∧ isrDispatcher frame intNo s = isrHandlers intNo.toNat frame u := by
  have hbound : ¬ KERNEL_TOTAL_INTERRUPTS ≤ intNo.toNat := by omega
  by_cases hirq : 31 < intNo.toNat
  · obtain ⟨u, hu, hsame⟩ := picAck_ok (intNo - 32) s
    refine ⟨u, hsame, ?_⟩
    simp only [isrDispatcher, hirq, if_true, hbound, if_false]
    exact bind_eq hu
  · refine ⟨s, rfl, ?_⟩
    simp only [isrDispatcher, hirq, hbound, if_false]

/-- The timer interrupt calls the scheduler; the others leave the kernel alone. -/
theorem isrDispatcher_ok (hlt : intNo.toNat < KERNEL_TOTAL_INTERRUPTS)
    (h : isrDispatcher frame intNo s = .ok (r, t)) :
    (intNo.toNat = 0x20 ∧ int0x20Handler frame s.kernel = .ok (r, t.kernel)) ∨
      (intNo.toNat ≠ 0x20 ∧ r = frame ∧ t.kernel = s.kernel) := by
  obtain ⟨u, hsame, heq⟩ := isrDispatcher_ack frame hlt s
  rw [heq] at h
  by_cases htimer : intNo.toNat = 0x20
  · rw [htimer] at h
    simp only [isrHandlers, onKernel] at h
    rw [show u.kernel = s.kernel from hsame] at h
    split at h
    · rename_i hrun
      cases h
      exact .inl ⟨htimer, hrun⟩
    · cases h
  · obtain ⟨rfl, hsame'⟩ := isrHandlers_ok htimer h
    exact .inr ⟨htimer, rfl, hsame'.trans hsame⟩

/-- The vectors whose handler does not return: an invalid opcode spins, a general protection fault and
a page fault panic. -/
def handlerStops (vector : Nat) : Bool := vector ∈ [6, 13, 14]

theorem isrHandlers_returns {n : Nat} (hstop : handlerStops n = false)
    (htimer : ∃ r k, int0x20Handler frame s.kernel = .ok (r, k)) :
    ∃ r t, isrHandlers n frame s = .ok (r, t) := by
  fun_cases isrHandlers n
  · exact ⟨_, _, rfl⟩
  · exact ⟨_, _, rfl⟩
  · cases hstop
  · cases hstop
  · obtain ⟨r, k, hrun⟩ := htimer
    simp only [onKernel, hrun]
    exact ⟨_, _, rfl⟩
  · exact ⟨_, _, rfl⟩
  · cases hstop
  · exact ⟨_, _, rfl⟩

end Dispatcher

/-! ## Suspended tasks -/

/-- What a task has when it is interrupted, or before it runs for the first time. -/
structure Snapshot where
  registers : Registers
  memory : Word → Word

/-- The privilege level of the registers. -/
def Registers.ring (r : Registers) : Nat := r.cs.toNat % 4

/-- The stack of a suspended task: at the saved pointer `p` there is a frame that stands for the
registers of the snapshot, and behind that of a task of ring 0 there is what it had on its stack. -/
structure Frozen (m : Word → Word) (task p : Word) (v : Snapshot) : Prop where
  low : task.toNat + controlBlockSize + 4 ≤ p.toNat
  aligned : p.toNat % 4 = 0
  frame : ∃ f : InterruptFrame, Holds m p f.pushed ∧
    f.registers (p + 68) kernelStackSelector = v.registers ∧
    p.toNat + 4 * f.pushed.length ≤ task.toNat + taskSize
  stack : v.registers.ring = 0 →
    ∀ a, OnStack task v.registers.general.esp a → m a = v.memory a

section Frozen

variable {m m' : Word → Word} {task p : Word} {v : Snapshot}

theorem pushed_length_ge (f : InterruptFrame) : 17 ≤ f.pushed.length := by
  unfold InterruptFrame.pushed
  split <;> simp [InterruptFrame.words]

theorem registers_ring (f : InterruptFrame) (esp : Word) (ss : BitVec 16) :
    (f.registers esp ss).ring = 0 ↔ ¬ f.Outer := by
  simp only [InterruptFrame.registers, Registers.ring, InterruptFrame.Outer, BitVec.toNat_setWidth]
  omega

/-- A task of ring 0 goes on with the stack pointer behind its frame. -/
theorem Frozen.stackPointer (h : Frozen m task p v) (hfits : task.toNat + taskSize < 2 ^ 32)
    (hring : v.registers.ring = 0) : v.registers.general.esp.toNat = p.toNat + 68 ∧
      v.registers.ss = kernelStackSelector ∧ StackPointer task v.registers.general.esp := by
  obtain ⟨f, -, hregs, hle⟩ := h.frame
  have hlen := pushed_length_ge f
  have hlow := h.low
  have haligned := h.aligned
  have houter : ¬ f.Outer := by
    rw [← hregs] at hring
    exact (registers_ring _ _ _).mp hring
  have h68 : (68 : Word).toNat = 68 := rfl
  have hesp : v.registers.general.esp.toNat = p.toNat + 68 := by
    rw [← hregs]
    simp only [InterruptFrame.registers, houter, if_false]
    rw [BitVec.toNat_add, Nat.mod_eq_of_lt (by omega), h68]
  refine ⟨hesp, ?_, by omega, by omega, by omega⟩
  rw [← hregs]
  simp only [InterruptFrame.registers, houter, if_false]

/-- A stack that is kept from its saved pointer on stays frozen. -/
theorem Frozen.congr (h : Frozen m task p v) (hfits : task.toNat + taskSize < 2 ^ 32)
    (hsame : ∀ a, OnStack task p a → m' a = m a) : Frozen m' task p v := by
  obtain ⟨f, hholds, hregs, hle⟩ := h.frame
  refine ⟨h.low, h.aligned, ⟨f, ?_, hregs, hle⟩, fun hring a ha => ?_⟩
  · exact hholds.congr (fun a h₁ h₂ => hsame a ⟨h₁, by omega⟩) (by omega)
  · have hesp := (h.stackPointer hfits hring).1
    rw [hsame a ⟨by have := ha.1; omega, ha.2⟩, h.stack hring a ha]

/-- The exit code on the stack of a suspended task loads its registers. -/
theorem Frozen.exit {d : Cpu} (h : Frozen d.memory task p v) (hring : d.ring = 0)
    (hss : d.ss = kernelStackSelector) (hesp : d.general.esp = p) :
    (d.run isrExit).registers = v.registers := by
  obtain ⟨f, hholds, hregs, -⟩ := h.frame
  rw [isrExit_registers hring, hesp, hss, InterruptFrame.registers_of_holds hholds, hregs]

end Frozen

/-! ## Runs -/

/-- A computer, and what the suspended tasks had when they were interrupted. -/
structure CpuSession where
  computer : Computer
  suspended : Word → Option Snapshot

inductive CpuEvent where
  | execute
  | interrupt (vector : Nat) (errorCode : Word)
  | create (process : Word) (privileged : Bool) (entryPoint esp : Word)

namespace CpuSession

def kernel (s : CpuSession) : Kernel := s.computer.machine.kernel
def cpu (s : CpuSession) : Cpu := s.computer.cpu
def current (s : CpuSession) : Word := s.kernel.currentTask

/-- What the current task has. -/
def snapshot (s : CpuSession) : Snapshot := ⟨s.cpu.registers, s.cpu.memory⟩

/-- What a new task starts with. -/
def newSnapshot (task : Word) (privileged : Bool) (entryPoint esp : Word) (m : Word → Word) :
    Snapshot :=
  ⟨(initialRegisters privileged entryPoint esp).loaded (kstackEnd task) kernelStackSelector, m⟩

inductive Step : CpuSession → CpuEvent → CpuSession → Prop
  | execute {s : CpuSession} {d : Cpu} {k : Kernel} (h : s.computer.Executes d)
      (hwork : s.kernel.Works k) :
      Step s .execute ⟨⟨d, { s.computer.machine with kernel := k }⟩, s.suspended⟩
  | interrupt {s : CpuSession} {c : Computer} {vector : Nat} {errorCode : Word}
      (h : Computer.Interrupted vector errorCode s.computer c) :
      Step s (.interrupt vector errorCode)
        ⟨c, Function.update s.suspended s.current (some s.snapshot)⟩
  /-- The current task runs `task_new`, which writes the frame of the new task to its stack. -/
  | create {s : CpuSession} {d : Cpu} {process task entryPoint esp : Word} {privileged : Bool}
      {k : Kernel} (hdir : s.kernel.HasDirectory process)
      (h : taskNew process privileged entryPoint esp s.kernel = .ok (task, k))
      (hplace : task ≠ 0 →
        task.toNat + taskSize < 2 ^ 32 ∧ StacksApart task s.kernel.image.systemTask)
      (hexec : s.computer.Executes d)
      (hstack : ∀ x, k.tasks task = some x → Holds d.memory x.kernelStackPointer x.kstack) :
      Step s (.create process privileged entryPoint esp)
        ⟨⟨d, { s.computer.machine with kernel := k }⟩, if task = 0 then s.suspended
          else Function.update s.suspended task
            (some (newSnapshot task privileged entryPoint esp d.memory))⟩

end CpuSession

/-- The stacks of the tasks: `system_task` is static, the others are blocks of the heap. -/
structure Kernel.Stacks (k : Kernel) (tasks : List Word) : Prop where
  fits : ∀ a ∈ tasks, a.toNat + taskSize < 2 ^ 32
  aligned : ∀ a ∈ tasks, a.toNat % 4 = 0
  apart : ∀ a ∈ tasks, ∀ b ∈ tasks, a ≠ b → StacksApart a b
  live : ∀ a ∈ tasks, a = k.image.systemTask ∨ ⟨a, taskSize⟩ ∈ k.blocks

/-- What every step keeps: `l` are the suspended tasks. -/
structure CpuSession.Inv (s : CpuSession) (l : List Word) : Prop where
  taskRing : s.kernel.TaskRing l
  placed : s.kernel.Stacks (s.current :: l)
  esp0 : s.cpu.esp0 = s.kernel.tssEsp0
  ss0 : s.cpu.ss0 = kernelStackSelector
  onTask : s.cpu.OnTask s.current
  frozen : ∀ a ∈ l, ∃ p v, s.kernel.savedPointer a = some p ∧ s.suspended a = some v ∧
    Frozen s.cpu.memory a p v

/-! ### The stack of an interrupt -/

namespace CpuSession.Inv

variable {s : CpuSession} {l : List Word} {vector : Nat} {errorCode : Word}

/-- The stack on which the frame is built has room for it. -/
theorem frameStack (hs : s.Inv l) (vector : Nat) (errorCode : Word) :
    s.current.toNat + controlBlockSize + 4 + 4 * (s.cpu.frame vector errorCode).pushed.length ≤
        s.cpu.frameStack.general.esp.toNat ∧
      s.cpu.frameStack.general.esp.toNat ≤ s.current.toNat + taskSize ∧
      s.cpu.frameStack.general.esp.toNat % 4 = 0 := by
  have hfits := hs.placed.fits _ List.mem_cons_self
  have haligned := hs.placed.aligned _ List.mem_cons_self
  rw [Cpu.frame_length, Cpu.frameStack]
  by_cases hring : s.cpu.ring = 0
  · obtain ⟨-, hroom, hle, hal⟩ := hs.onTask hring
    rw [if_pos hring, if_pos hring]
    exact ⟨by omega, hle, hal⟩
  · have htop : s.cpu.esp0.toNat = s.current.toNat + taskSize := by
      have hsize : (BitVec.ofNat 32 taskSize).toNat = taskSize := rfl
      rw [hs.esp0, hs.taskRing.esp0, kstackEnd, BitVec.toNat_add, hsize]
      exact Nat.mod_eq_of_lt hfits
    rw [if_neg hring, if_neg hring]
    simp only [Cpu.setEsp, htop]
    simp only [controlBlockSize, taskSize, TASK_KERNEL_STACK_SIZE]
    omega

/-- The frame of an interrupt in the current task. -/
theorem enter_bounds (hs : s.Inv l) (vector : Nat) (errorCode : Word) :
    s.current.toNat + controlBlockSize + 4 ≤ (s.cpu.enter vector errorCode).general.esp.toNat ∧
      (s.cpu.enter vector errorCode).general.esp.toNat % 4 = 0 ∧
      (s.cpu.enter vector errorCode).general.esp.toNat +
        4 * (s.cpu.frame vector errorCode).pushed.length = s.cpu.frameStack.general.esp.toNat := by
  obtain ⟨hroom, -, hal⟩ := hs.frameStack vector errorCode
  have hesp := @Cpu.enter_esp_toNat s.cpu vector errorCode (by omega)
  omega

theorem pushEsp_esp (hs : s.Inv l) (vector : Nat) (errorCode : Word) :
    (s.cpu.enter vector errorCode).pushEsp.general.esp + 4 =
        (s.cpu.enter vector errorCode).general.esp ∧
      (s.cpu.enter vector errorCode).pushEsp.general.esp.toNat + 4 =
        (s.cpu.enter vector errorCode).general.esp.toNat := by
  obtain ⟨hlow, -⟩ := hs.enter_bounds vector errorCode
  have hfour : (4 : Word).toNat = 4 := rfl
  refine ⟨BitVec.sub_add_cancel _ _, ?_⟩
  change ((s.cpu.enter vector errorCode).general.esp - 4).toNat + 4 = _
  rw [BitVec.toNat_sub_of_le (BitVec.le_def.mpr (by omega)), hfour]
  omega

/-- What the entry code and `push esp` write is on the stack of the current task, below what was
there. -/
theorem pushEsp_memory (hs : s.Inv l) {a : Word}
    (ha : a.toNat < s.current.toNat ∨ s.current.toNat + taskSize ≤ a.toNat ∨
      s.cpu.frameStack.general.esp.toNat ≤ a.toNat) :
    (s.cpu.enter vector errorCode).pushEsp.memory a = s.cpu.memory a := by
  obtain ⟨hroom, htop, -⟩ := hs.frameStack vector errorCode
  obtain ⟨hlow, -, hend⟩ := hs.enter_bounds vector errorCode
  have hslot := (hs.pushEsp_esp vector errorCode).2
  have hne : a ≠ (s.cpu.enter vector errorCode).pushEsp.general.esp := by
    rintro rfl
    omega
  rw [← @Cpu.enter_memory s.cpu vector errorCode a (by omega) (by omega)]
  exact Function.update_of_ne hne _ _

variable {k' : Kernel} {r : Word} {d : Cpu}

/-- Behind the call of the dispatcher, the current task is as frozen as the suspended ones. -/
theorem call_current (hs : s.Inv l)
    (hd : Computer.Called s.kernel k' r (s.cpu.enter vector errorCode).pushEsp d) :
    Frozen d.memory s.current (s.cpu.enter vector errorCode).general.esp s.snapshot := by
  obtain ⟨hroom, htop, -⟩ := hs.frameStack vector errorCode
  obtain ⟨hlow, haligned, hend⟩ := hs.enter_bounds vector errorCode
  obtain ⟨hslot, hslot'⟩ := hs.pushEsp_esp vector errorCode
  have hfits := hs.placed.fits _ List.mem_cons_self
  have hown : ∀ a, OnStack s.current (s.cpu.enter vector errorCode).general.esp a →
      d.memory a = (s.cpu.enter vector errorCode).pushEsp.memory a := hslot ▸ hd.own
  refine ⟨hlow, haligned, ⟨s.cpu.frame vector errorCode, ?_, ?_, by omega⟩, fun hring a ha => ?_⟩
  · refine (s.cpu.enter_holds vector errorCode).congr (fun a h₁ h₂ => ?_) (by omega)
    have hne : a ≠ (s.cpu.enter vector errorCode).pushEsp.general.esp := by
      rintro rfl
      omega
    exact (hown a ⟨h₁, by omega⟩).trans (Function.update_of_ne hne _ _)
  · exact Cpu.frame_registers fun hring => (hs.onTask hring).1
  · have hring' : s.cpu.ring = 0 := hring
    rw [Cpu.frameStack, if_pos hring'] at hend
    have hge : s.cpu.general.esp.toNat ≤ a.toNat := ha.1
    have hlt := ha.2
    rw [hown a ⟨by omega, hlt⟩]
    refine hs.pushEsp_memory (.inr (.inr ?_))
    rwa [Cpu.frameStack, if_pos hring']

/-- The suspended tasks stay frozen. -/
theorem call_suspended (hs : s.Inv l)
    (hd : Computer.Called s.kernel k' r (s.cpu.enter vector errorCode).pushEsp d) {a p : Word}
    {v : Snapshot} (ha : a ∈ l) (hp : s.kernel.savedPointer a = some p)
    (hv : Frozen s.cpu.memory a p v) : Frozen d.memory a p v := by
  have hmem := List.mem_cons_of_mem s.current ha
  have hne : a ≠ s.current := by
    rintro rfl
    exact (List.nodup_cons.mp hs.taskRing.ring.nodup).1 ha
  have hfits := hs.placed.fits a hmem
  have hlow := hv.low
  refine hv.congr hfits fun b hb => ?_
  obtain ⟨h₁, h₂⟩ := hb
  rw [hd.others a p b hne hp ⟨h₁, h₂⟩]
  refine hs.pushEsp_memory ?_
  rcases hs.placed.apart a hmem _ List.mem_cons_self hne with hapart | hapart
  · exact .inl (by omega)
  · exact .inr (.inl (by omega))

/-- The dispatcher returns to ring 0, on the kernel's stack. -/
theorem call_ring (hs : s.Inv l)
    (hd : Computer.Called s.kernel k' r (s.cpu.enter vector errorCode).pushEsp d) :
    d.popEsp.ring = 0 ∧ d.popEsp.ss = kernelStackSelector := by
  refine ⟨?_, ?_⟩
  · have hring : (s.cpu.enter vector errorCode).ring = 0 := (Cpu.enter_stack rfl).2.2.1
    change d.cs.toNat % 4 = 0
    rw [hd.cs]
    exact hring
  · change d.ss = _
    rw [hd.ss]
    change (s.cpu.enter vector errorCode).ss = _
    rw [Cpu.enter_ss]
    split
    · next hring => exact (hs.onTask hring).1
    · exact hs.ss0

end CpuSession.Inv

/-! ### The kernel behind an interrupt -/

/-- What an interrupt of the current task does to the tasks: `p` is its frame, `r` the frame with
which the task goes on that is then current. -/
structure Kernel.Switched (k k' : Kernel) (l l' : List Word) (p r : Word) : Prop where
  taskRing : k'.TaskRing l'
  perm : (k'.currentTask :: l').Perm (k.currentTask :: l)
  image : k'.image = k.image
  blocks : k'.blocks = k.blocks
  saved : ∀ a, a ≠ k.currentTask → k'.savedPointer a = k.savedPointer a
  stays : k'.currentTask = k.currentTask → r = p
  switches : k'.currentTask ≠ k.currentTask →
    k'.savedPointer k.currentTask = some p ∧ k.savedPointer k'.currentTask = some r

theorem Kernel.TaskRing.switched {m m' : Machine} {l : List Word} {vector : Nat} {p r : Word}
    (h : m.kernel.TaskRing l) (hgate : vector < idtGates)
    (hcall : isrDispatcher p (BitVec.ofNat 32 vector) m = .ok (r, m')) :
    ∃ l', m.kernel.Switched m'.kernel l l' p r := by
  have hlt : (BitVec.ofNat 32 vector).toNat < KERNEL_TOTAL_INTERRUPTS := by
    simp only [idtGates] at hgate
    simp only [BitVec.toNat_ofNat, KERNEL_TOTAL_INTERRUPTS]
    omega
  rcases isrDispatcher_ok hlt hcall with ⟨-, htimer⟩ | ⟨-, rfl, hsame⟩
  · have hi := int0x20Handler_ok htimer (h.ne_null _ List.mem_cons_self)
    obtain ⟨l', hl', hperm⟩ := h.interrupted_perm hi
    have hreturned := hi.returned
    refine ⟨l', hl', hperm, by rw [hi.rest], by rw [hi.rest], fun a ha => ?_, fun hself => ?_,
      fun hne => ⟨?_, ?_⟩⟩
    · rw [hi.saved, Function.update_of_ne ha]
    · rw [hi.saved, hself, Function.update_self] at hreturned
      exact (Option.some.inj hreturned).symm
    · rw [hi.saved, Function.update_self]
    · rw [hi.saved, Function.update_of_ne hne] at hreturned
      exact hreturned
  · rw [hsame]
    exact ⟨l, h, .refl _, rfl, rfl, fun _ _ => rfl, fun _ => rfl, fun hne => absurd rfl hne⟩

theorem Kernel.Stacks.of_perm {k k' : Kernel} {tasks tasks' : List Word} (h : k.Stacks tasks)
    (hperm : tasks'.Perm tasks) (himage : k'.image = k.image) (hblocks : k'.blocks = k.blocks) :
    k'.Stacks tasks' := by
  refine ⟨fun a ha => h.fits a (hperm.mem_iff.mp ha), fun a ha => h.aligned a (hperm.mem_iff.mp ha),
    fun a ha b hb => h.apart a (hperm.mem_iff.mp ha) b (hperm.mem_iff.mp hb), fun a ha => ?_⟩
  rw [himage, hblocks]
  exact h.live a (hperm.mem_iff.mp ha)

theorem taskListInsert_blocks {k k' : Kernel} {task : Word} {u : Unit}
    (h : taskListInsert task k = .ok (u, k')) : k'.blocks = k.blocks := by
  obtain ⟨-, _, -, h⟩ := Store.bind_modify_ok (bind_get_ok h)
  obtain ⟨-, _, -, h⟩ := Store.bind_load_ok h
  obtain ⟨-, _, -, h⟩ := Store.bind_modify_ok h
  obtain ⟨-, _, -, h⟩ := Store.bind_modify_ok h
  obtain ⟨-, _, -, h⟩ := Store.bind_load_ok h
  obtain ⟨-, _, -, rfl⟩ := Store.modify_ok h
  rfl

namespace Kernel.TaskRing

variable {k k' : Kernel} {l : List Word}

theorem works (h : k.TaskRing l) (hw : k.Works k') : k'.TaskRing l := by
  obtain ⟨hnext, hprev⟩ := task_links_congr hw.tasks
  refine ⟨?_, ?_, ?_, ?_⟩
  · rw [hnext, hprev, hw.current]
    exact h.ring
  · rw [hw.current]
    exact h.ne_null
  · rw [hw.current]
    intro a ha
    obtain ⟨p, hp, hdir⟩ := h.directory a ha
    exact ⟨p, by rw [processOf, hw.tasks]; exact hp, hw.directories p hdir⟩
  · rw [hw.esp0, hw.current, h.esp0]

theorem works_stacks (h : k.TaskRing l) (hw : k.Works k') (hp : k.Stacks (k.currentTask :: l)) :
    k'.Stacks (k'.currentTask :: l) := by
  rw [hw.current]
  refine ⟨hp.fits, hp.aligned, hp.apart, fun a ha => ?_⟩
  rw [hw.image]
  exact (hp.live a ha).imp_right (hw.blocks a (ring_task_ne_none h.ring ha))

/-- The stack of a new task is a block of its own. -/
theorem new_stacks {task process entryPoint esp : Word} {privileged : Bool}
    (hp : k.Stacks (k.currentTask :: l))
    (h : taskNew process privileged entryPoint esp k = .ok (task, k')) (hne : task ≠ 0)
    (himage : k'.image = k.image) (hcur : k'.currentTask = k.currentTask)
    (hfits : task.toNat + taskSize < 2 ^ 32) (happart : StacksApart task k.image.systemTask) :
    k'.Stacks (k'.currentTask :: task :: l) := by
  obtain ⟨-, hfresh, hinsert⟩ := (taskNew_unlinked h).resolve_left fun h => hne h.1
  have hblocks : k'.blocks = ⟨task, taskSize⟩ :: k.blocks := taskListInsert_blocks hinsert
  have hsplit : ∀ a, a ∈ k'.currentTask :: task :: l ↔ a = task ∨ a ∈ k.currentTask :: l := by
    intro a
    rw [hcur]
    simp only [List.mem_cons]
    tauto
  have hsize : sizeToNblocks taskSize * KERNEL_HEAP_BLOCK_SIZE = taskSize := by decide
  have hnew : ∀ a ∈ k.currentTask :: l, StacksApart task a := by
    intro a ha
    rcases hp.live a ha with rfl | hlive
    · exact happart
    · have hblock := hfresh.2.2.2 _ hlive
      rwa [hsize] at hblock
  refine ⟨fun a ha => ?_, fun a ha => ?_, fun a ha b hb hab => ?_, fun a ha => ?_⟩
  · rcases (hsplit a).mp ha with rfl | ha
    · exact hfits
    · exact hp.fits a ha
  · rcases (hsplit a).mp ha with rfl | ha
    · have hpage : a.toNat % 4096 = 0 := hfresh.1
      omega
    · exact hp.aligned a ha
  · rcases (hsplit a).mp ha with rfl | ha' <;> rcases (hsplit b).mp hb with rfl | hb'
    · exact absurd rfl hab
    · exact hnew b hb'
    · exact (hnew a ha').symm
    · exact hp.apart a ha' b hb' hab
  · rw [himage, hblocks]
    rcases (hsplit a).mp ha with rfl | ha
    · exact .inr List.mem_cons_self
    · exact (hp.live a ha).imp_right (List.mem_cons_of_mem _)

end Kernel.TaskRing

/-! ### The steps -/

/-- The exit code writes nothing. -/
theorem isrExit_rest (c : Cpu) : (c.run isrExit).memory = c.memory ∧
    (c.run isrExit).esp0 = c.esp0 ∧ (c.run isrExit).ss0 = c.ss0 := by
  rw [isrExit, Cpu.run_append, isrRestore_eq]
  simp only [Cpu.run, List.foldl_cons, List.foldl_nil, Cpu.exec, Cpu.iret]
  split <;> exact ⟨rfl, rfl, rfl⟩

namespace CpuSession

/-- The current task is as the snapshot says. -/
structure Resumed (s : CpuSession) (v : Snapshot) : Prop where
  registers : s.cpu.registers = v.registers
  stack : v.registers.ring = 0 →
    ∀ a, OnStack s.current v.registers.general.esp a → s.cpu.memory a = v.memory a

variable {s t : CpuSession} {l : List Word} {vector : Nat} {errorCode : Word}

/-- Behind the call of the dispatcher every task is frozen: the interrupted one at `p`. -/
theorem Inv.call_frozen {k' : Kernel} {r : Word} {d : Cpu} (hs : s.Inv l)
    (hd : Computer.Called s.kernel k' r (s.cpu.enter vector errorCode).pushEsp d) {a : Word}
    (ha : a ∈ s.current :: l) :
    ∃ p v, Function.update s.suspended s.current (some s.snapshot) a = some v ∧
      Frozen d.memory a p v ∧ (a = s.current → p = (s.cpu.enter vector errorCode).general.esp) ∧
      (a ≠ s.current → s.kernel.savedPointer a = some p) := by
  by_cases hcur : a = s.current
  · subst hcur
    exact ⟨_, _, Function.update_self _ _ _, hs.call_current hd, fun _ => rfl,
      fun hne => absurd rfl hne⟩
  · have hl : a ∈ l := (List.mem_cons.mp ha).resolve_left hcur
    obtain ⟨p, v, hp, hv, hfrozen⟩ := hs.frozen a hl
    exact ⟨p, v, (Function.update_of_ne hcur _ _).trans hv, hs.call_suspended hd hl hp hfrozen,
      fun he => absurd he hcur, fun _ => hp⟩

/-- An interrupt suspends the current task and resumes the one that is then current. -/
theorem Inv.interrupt (hs : s.Inv l) (h : Step s (.interrupt vector errorCode) t) :
    (∃ l', t.Inv l') ∧ ∃ v, t.suspended t.current = some v ∧ t.Resumed v := by
  cases h with
  | @interrupt c _ _ h =>
  cases h with
  | @returned d machine r gate call called =>
  obtain ⟨l', hsw⟩ := hs.taskRing.switched gate call
  obtain ⟨hmem, hesp0, hss0⟩ := isrExit_rest d.popEsp
  obtain ⟨hring, hss⟩ := hs.call_ring called
  have hplaced := hs.placed.of_perm hsw.perm hsw.image hsw.blocks
  have hfits := hplaced.fits _ List.mem_cons_self
  -- the task that goes on was frozen at what the dispatcher returned
  obtain ⟨p, v, hv, hfrozen, hstays, hswitches⟩ :=
    hs.call_frozen called (hsw.perm.mem_iff.mp List.mem_cons_self)
  obtain rfl : p = r := by
    by_cases hself : machine.kernel.currentTask = s.current
    · exact (hstays hself).trans (hsw.stays hself).symm
    · exact Option.some.inj ((hswitches hself).symm.trans (hsw.switches hself).2)
  have hregs : (d.popEsp.run isrExit).registers = v.registers :=
    @Frozen.exit _ _ _ d.popEsp hfrozen hring hss called.parameter
  generalize d.popEsp.run isrExit = e at *
  refine ⟨⟨l', hsw.taskRing, hplaced, ?_, ?_, fun hr => ?_, fun a ha => ?_⟩, v, hv, hregs,
    fun hr a ha => ?_⟩
  · exact hesp0.trans called.esp0
  · exact hss0.trans (called.ss0.trans (Cpu.enter_ss0.trans hs.ss0))
  · -- in ring 0 the task runs on its own stack, above its frame
    have hring' : v.registers.ring = 0 := hregs ▸ hr
    obtain ⟨-, hsel, hptr⟩ := hfrozen.stackPointer hfits hring'
    rw [← hregs] at hsel hptr
    exact ⟨hsel, hptr⟩
  · have hne : a ≠ machine.kernel.currentTask := by
      rintro rfl
      exact (List.nodup_cons.mp hsw.taskRing.ring.nodup).1 ha
    obtain ⟨q, w, hw, hfrozen', hcur, hother⟩ :=
      hs.call_frozen called (hsw.perm.mem_iff.mp (List.mem_cons_of_mem _ ha))
    refine ⟨q, w, ?_, hw, hfrozen'.congr (hplaced.fits a (List.mem_cons_of_mem _ ha))
      fun b _ => congrFun hmem b⟩
    by_cases hself : a = s.current
    · rw [hcur hself, hself]
      exact (hsw.switches fun he => hne (hself.trans he.symm)).1
    · exact (hsw.saved a hself).trans (hother hself)
  · exact (congrFun hmem a).trans (hfrozen.stack hr a ha)

/-- What code of the current task does leaves the suspended ones frozen. -/
theorem Inv.executes_frozen {d : Cpu} (hs : s.Inv l) (h : s.computer.Executes d) {a p : Word}
    {v : Snapshot} (ha : a ∈ l) (hp : s.kernel.savedPointer a = some p)
    (hv : Frozen s.cpu.memory a p v) : Frozen d.memory a p v := by
  have hne : a ≠ s.current := by
    rintro rfl
    exact (List.nodup_cons.mp hs.taskRing.ring.nodup).1 ha
  exact hv.congr (hs.placed.fits a (List.mem_cons_of_mem _ ha)) fun b hb => h.others a p b hne hp hb

theorem Inv.execute (hs : s.Inv l) (h : Step s .execute t) : t.Inv l := by
  cases h with
  | @execute d k h hwork =>
  have hsaved : k.savedPointer = s.kernel.savedPointer := by
    funext a
    exact congrArg (Option.map Task.kernelStackPointer) (congrFun hwork.tasks a)
  refine ⟨hs.taskRing.works hwork, hs.taskRing.works_stacks hwork hs.placed, ?_,
    h.ss0.trans hs.ss0, ?_, fun a ha => ?_⟩
  · exact h.esp0.trans (hs.esp0.trans hwork.esp0.symm)
  · rw [current, show CpuSession.kernel _ = k from rfl, hwork.current]
    exact h.onTask
  · obtain ⟨p, v, hp, hv, hfrozen⟩ := hs.frozen a ha
    exact ⟨p, v, (congrFun hsaved a).trans hp, hv, hs.executes_frozen h ha hp hfrozen⟩

/-- The frame of a new task is at the end of its stack. -/
theorem newTask_frozen {m : Word → Word} {task process entryPoint esp : Word} {privileged : Bool}
    (hfits : task.toNat + taskSize < 2 ^ 32) (haligned : task.toNat % 4 = 0)
    (hstack : Holds m (newTask task process privileged entryPoint esp).kernelStackPointer
      (newTask task process privileged entryPoint esp).kstack) :
    Frozen m task (newTask task process privileged entryPoint esp).kernelStackPointer
      (newSnapshot task privileged entryPoint esp m) := by
  have hlen := pushedFrame_length privileged entryPoint esp
  obtain ⟨n, hn⟩ : ∃ n, n = (pushedFrame (initialRegisters privileged entryPoint esp)).length :=
    ⟨_, rfl⟩
  rw [← hn] at hlen
  have hn19 : n ≤ 19 := by
    rw [hlen]
    split <;> decide
  have hsize : taskSize = 16384 := rfl
  have hend : (kstackEnd task).toNat = task.toNat + taskSize := by
    rw [kstackEnd, BitVec.toNat_add, BitVec.toNat_ofNat]
    omega
  have heq : (newTask task process privileged entryPoint esp).kernelStackPointer =
      kstackEnd task - BitVec.ofNat 32 (4 * n) := by rw [hn]; rfl
  have hptr : (newTask task process privileged entryPoint esp).kernelStackPointer.toNat + 4 * n =
      task.toNat + taskSize := by
    have hnat : (BitVec.ofNat 32 (4 * n)).toNat = 4 * n := by
      rw [BitVec.toNat_ofNat]
      omega
    rw [heq, BitVec.toNat_sub_of_le (BitVec.le_def.mpr (by omega)), hnat]
    omega
  have hkstack : (newTask task process privileged entryPoint esp).kstack =
      (storedFrame (initialRegisters privileged entryPoint esp)).pushed := by
    rw [← pushedFrame_eq]
    exact List.append_nil _
  rw [hkstack] at hstack
  refine ⟨?_, by omega, ⟨_, hstack, ?_, ?_⟩, fun _ _ _ => rfl⟩
  · simp only [controlBlockSize]
    omega
  · rw [storedFrame_registers]
    cases privileged with
    | false =>
      have hcs : (initialRegisters false entryPoint esp).segments.cs &&& 3 ≠ 0 := by
        simp [initialRegisters, GDT_USER_CODE_SEGMENT_SELECTOR]
      simp only [newSnapshot, ProcessState.loaded, hcs, ne_eq, not_false_eq_true, if_true]
    | true =>
      have htop : (newTask task process true entryPoint esp).kernelStackPointer + 68 =
          kstackEnd task := by
        rw [heq, hlen, if_pos rfl]
        exact BitVec.sub_add_cancel _ _
      rw [htop, newSnapshot]
  · rw [← pushedFrame_eq, ← hn, hptr]

/-- `task_new` adds a task that is frozen before its first instruction. -/
theorem Inv.create {process entryPoint esp : Word} {privileged : Bool} (hs : s.Inv l)
    (h : Step s (.create process privileged entryPoint esp) t) : ∃ l', t.Inv l' := by
  cases h with
  | create hdir h hplace hexec hstack =>
  rename_i d task k
  rcases taskNew_ok h hs.taskRing.ring with ⟨rfl, rfl⟩ | ⟨hadd, hring⟩
  · -- there was no memory for a task
    refine ⟨l, ⟨hs.taskRing.ring, hs.taskRing.ne_null, hs.taskRing.directory, hs.taskRing.esp0⟩,
      ⟨hs.placed.fits, hs.placed.aligned, hs.placed.apart, hs.placed.live⟩, hexec.esp0.trans hs.esp0,
      hexec.ss0.trans hs.ss0, hexec.onTask, fun a ha => ?_⟩
    obtain ⟨p, v, hp, hv, hfrozen⟩ := hs.frozen a ha
    exact ⟨p, v, hp, hv, hs.executes_frozen hexec ha hp hfrozen⟩
  · have hne := hadd.ne_null
    obtain ⟨hfits, hapart⟩ := hplace hne
    have himage : k.image = s.kernel.image := by rw [hadd.rest]
    have hcur : k.currentTask = s.kernel.currentTask := by rw [hadd.rest]
    have htss : k.tssEsp0 = s.kernel.tssEsp0 := by rw [hadd.rest]
    have hplaced := TaskRing.new_stacks hs.placed h hne himage hcur hfits hapart
    have hnone := hadd.fresh
    have hsaved : k.savedPointer = Function.update s.kernel.savedPointer task
        (some (newTask task process privileged entryPoint esp).kernelStackPointer) :=
      hadd.view fun _ => rfl
    refine ⟨task :: l, hs.taskRing.added hadd hring hdir, hplaced, ?_, hexec.ss0.trans hs.ss0, ?_,
      fun a ha => ?_⟩
    · exact hexec.esp0.trans (hs.esp0.trans htss.symm)
    · rw [current, show CpuSession.kernel _ = k from rfl, hcur]
      exact hexec.onTask
    · change ∃ p v, k.savedPointer a = some p ∧ (if task = 0 then s.suspended
        else Function.update s.suspended task
          (some (newSnapshot task privileged entryPoint esp d.memory))) a = some v ∧
        Frozen d.memory a p v
      rw [hsaved, if_neg hne]
      rcases List.mem_cons.mp ha with rfl | hl
      · obtain ⟨x, hx, hunlinked⟩ := Option.map_eq_some_iff.mp hadd.new
        have hx' := hstack x hx
        rw [show x.kernelStackPointer = x.unlinked.kernelStackPointer from rfl,
          show x.kstack = x.unlinked.kstack from rfl, hunlinked] at hx'
        exact ⟨_, _, Function.update_self _ _ _, Function.update_self _ _ _,
          newTask_frozen hfits (hplaced.aligned a (by simp)) hx'⟩
      · have hne' : a ≠ task := by
          rintro rfl
          exact ring_task_ne_none hs.taskRing.ring (List.mem_cons_of_mem _ hl) hnone
        rw [Function.update_of_ne hne', Function.update_of_ne hne']
        obtain ⟨p, v, hp, hv, hfrozen⟩ := hs.frozen a hl
        exact ⟨p, v, hp, hv, hs.executes_frozen hexec hl hp hfrozen⟩

theorem step_inv {event : CpuEvent} (hs : ∃ l, s.Inv l) (h : Step s event t) : ∃ l, t.Inv l := by
  obtain ⟨l, hs⟩ := hs
  cases event with
  | execute => exact ⟨l, hs.execute h⟩
  | interrupt vector errorCode => exact (hs.interrupt h).1
  | create process privileged entryPoint esp => exact hs.create h

/-- After `init_system_process`: the code that called it is the system task, on its own stack. -/
structure Started (k₀ : Kernel) (s : CpuSession) : Prop where
  boot : initSystemProcess k₀ = .ok ((), s.kernel)
  directory : ∀ p, s.kernel.processOf k₀.image.systemTask = some p → s.kernel.HasDirectory p
  fits : k₀.image.systemTask.toNat + taskSize < 2 ^ 32
  aligned : k₀.image.systemTask.toNat % 4 = 0
  tss : k₀.tssEsp0 = kstackEnd k₀.image.systemTask
  esp0 : s.cpu.esp0 = k₀.tssEsp0
  ss0 : s.cpu.ss0 = kernelStackSelector
  onTask : s.cpu.OnTask k₀.image.systemTask

theorem Started.inv {k₀ : Kernel} (h : Started k₀ s) : s.Inv [] := by
  obtain ⟨process, hsys⟩ := initSystemProcess_ok h.boot
  have hcur : s.kernel.currentTask = k₀.image.systemTask := by rw [hsys.rest]
  have himage : s.kernel.image = k₀.image := by rw [hsys.rest]
  have htss : s.kernel.tssEsp0 = k₀.tssEsp0 := by rw [hsys.rest]
  have hone : ∀ a ∈ [s.kernel.currentTask], a = k₀.image.systemTask := by
    intro a ha
    rw [List.mem_singleton.mp ha, hcur]
  refine ⟨⟨?_, ?_, ?_, ?_⟩, ⟨?_, ?_, ?_, ?_⟩, ?_, h.ss0, ?_, fun a ha => absurd ha (by simp)⟩
  · rw [hcur]
    exact hsys.taskRing
  · intro a ha
    rw [hone a ha]
    exact hsys.system_ne_null
  · intro a ha
    rw [hone a ha]
    exact ⟨process, hsys.systemTask, h.directory process hsys.systemTask⟩
  · rw [htss, h.tss, hcur]
  · intro a ha
    rw [hone a ha]
    exact h.fits
  · intro a ha
    rw [hone a ha]
    exact h.aligned
  · intro a ha b hb hab
    exact absurd ((hone a ha).trans (hone b hb).symm) hab
  · intro a ha
    rw [himage]
    exact .inl (hone a ha)
  · exact h.esp0.trans htss.symm
  · rw [current, hcur]
    exact h.onTask

/-- The dispatcher comes back from an interrupt, but for the handlers that stop. -/
theorem Inv.dispatcher_returns_iff (hs : s.Inv l) (hgate : vector < idtGates) (frame : Word) :
    (∃ r m, isrDispatcher frame (BitVec.ofNat 32 vector) s.computer.machine = .ok (r, m)) ↔
      handlerStops vector = false := by
  have hnat : (BitVec.ofNat 32 vector).toNat = vector := by
    simp only [idtGates] at hgate
    rw [BitVec.toNat_ofNat]
    omega
  have hlt : (BitVec.ofNat 32 vector).toNat < KERNEL_TOTAL_INTERRUPTS := by
    simp only [idtGates] at hgate
    simp only [hnat, KERNEL_TOTAL_INTERRUPTS]
    omega
  obtain ⟨u, hsame, heq⟩ := isrDispatcher_ack frame hlt s.computer.machine
  rw [heq, hnat]
  constructor
  · rintro ⟨r, m, h⟩
    rw [handlerStops, decide_eq_false_iff_not]
    intro hmem
    simp only [List.mem_cons, List.not_mem_nil, or_false] at hmem
    rcases hmem with rfl | rfl | rfl <;> cases h
  · intro hstop
    refine isrHandlers_returns hstop ?_
    rw [show u.kernel = s.kernel from hsame]
    exact hs.taskRing.handler_returns frame

/-- After any run of interrupts, task creations and other work from `init_system_process` on, in which
nobody writes to the stacks of the suspended tasks, an interrupt returns unless its handler stops,
and resumes a task with the registers, and in ring 0 the stack, that it had when it was last
interrupted or with which it was created. -/
theorem switches_transparent {k₀ : Kernel} {s₀ : CpuSession} {events : List CpuEvent}
    (hstart : Started k₀ s₀) (hrun : Runs Step s₀ events s) :
    (∀ vector frame, vector < idtGates →
      ((∃ r m, isrDispatcher frame (BitVec.ofNat 32 vector) s.computer.machine = .ok (r, m)) ↔
        handlerStops vector = false)) ∧
    ∀ vector errorCode t, Step s (.interrupt vector errorCode) t →
      t.suspended s.current = some s.snapshot ∧
      (∀ a, a ≠ s.current → t.suspended a = s.suspended a) ∧
      ∃ v, t.suspended t.current = some v ∧ t.Resumed v := by
  obtain ⟨l, hs⟩ : ∃ l, s.Inv l :=
    hrun.invariant (fun _ _ _ hs hstep => step_inv hs hstep) ⟨[], hstart.inv⟩
  refine ⟨fun vector frame hgate => hs.dispatcher_returns_iff hgate frame,
    fun vector errorCode t h => ⟨?_, fun a ha => ?_, (hs.interrupt h).2⟩⟩
  · cases h
    exact Function.update_self _ _ _
  · cases h
    exact Function.update_of_ne ha _ _

/-- The system task, in memory that holds the first frame of a user task. -/
def startExample : CpuSession where
  computer :=
    { cpu := { userTaskCpu with
        general := { userTaskCpu.general with esp := 0xC0113F00 }
        memory := fun a => (pushedFrame userTask.registers).getD ((a - 0xC0213FB4).toNat / 4) 0
        esp0 := 0xC0114000 }
      machine :=
        { kernel := kernelExample.after initSystemProcess
          master := ⟨[], 0x20, 0x04, 0x01, 0, 0⟩
          slave := ⟨[], 0x28, 0x02, 0x01, 0, 0⟩ } }
  suspended := fun _ => none

theorem startExample_started : Started kernelExample startExample where
  boot := rfl
  directory := by
    intro p hp
    obtain rfl : 0xC0200000 = p := Option.some.inj hp
    exact ⟨by decide, _, rfl, by decide, _, rfl, by decide, nofun⟩
  fits := by decide
  aligned := by decide
  tss := rfl
  esp0 := rfl
  ss0 := rfl
  onTask := fun _ => ⟨rfl, by decide, by decide, by decide⟩

/-- The user task has been created. -/
def createdExample : CpuSession where
  computer :=
    { startExample.computer with
      machine := { startExample.computer.machine with
        kernel := startExample.kernel.after (taskNew 0xC0200000 false 0x400000 0x4000000) } }
  suspended := Function.update (fun _ => none) 0xC0210000
    (some (newSnapshot 0xC0210000 false 0x400000 0x4000000 startExample.cpu.memory))

theorem startExample_create :
    Step startExample (.create 0xC0200000 false 0x400000 0x4000000) createdExample := by
  have hexec : startExample.computer.Executes startExample.cpu :=
    ⟨rfl, rfl, fun _ _ _ _ _ _ => rfl, startExample_started.onTask⟩
  have hrun : taskNew 0xC0200000 false 0x400000 0x4000000 startExample.kernel =
    .ok (0xC0210000, createdExample.kernel) := rfl
  refine .create (startExample_started.directory 0xC0200000 rfl) hrun
    (fun _ => ⟨by decide, .inr (by decide)⟩) hexec fun x hx => ?_
  cases hx
  decide

/-- No other task has a stack. -/
theorem createdExample_tasks {task p : Word} (hne : task ≠ createdExample.current)
    (h : createdExample.kernel.savedPointer task = some p) : task = 0xC0210000 ∧ p = 0xC0213FB4 := by
  have hcur : createdExample.current = 0xC0110000 := rfl
  rw [hcur] at hne
  by_cases htask : task = 0xC0210000
  · subst htask
    exact ⟨rfl, (Option.some.inj h).symm⟩
  · have hrun : taskNew 0xC0200000 false 0x400000 0x4000000 startExample.kernel =
        .ok (0xC0210000, createdExample.kernel) := rfl
    obtain ⟨hadd, -⟩ := (taskNew_ok hrun startExample_started.inv.taskRing.ring).resolve_left
      fun h => absurd h.1 (by decide)
    have hview : createdExample.kernel.savedPointer = Function.update startExample.kernel.savedPointer
        0xC0210000 (some 0xC0213FB4) := hadd.view fun _ => rfl
    have hstart : ∃ x, startExample.kernel.tasks =
        Function.update kernelExample.tasks 0xC0110000 (some x) := ⟨_, rfl⟩
    obtain ⟨x, hx⟩ := hstart
    rw [hview, Function.update_of_ne htask, savedPointer, hx, Function.update_of_ne hne] at h
    simp only [kernelExample, if_neg hne] at h
    cases h

/-- A dispatcher that writes nothing but its parameter and the TSS. -/
theorem called_parameter {k k' : Kernel} {r : Word} {c : Cpu}
    (hroom : c.general.esp.toNat + 4 < 2 ^ 32)
    (hothers : ∀ task p, task ≠ k.currentTask → k.savedPointer task = some p →
      ¬ OnStack task p c.general.esp) :
    Computer.Called k k' r c
      { c with esp0 := k'.tssEsp0, memory := Function.update c.memory c.general.esp r } := by
  refine ⟨rfl, rfl, rfl, rfl, rfl, ?_, fun a ha => ?_, fun task p a hne hp ha => ?_⟩
  · change Function.update c.memory c.general.esp r (c.general.esp + 0#32) = r
    rw [BitVec.add_zero, Function.update_self]
  · refine Function.update_of_ne ?_ _ _
    rintro rfl
    have hlow := ha.1
    have hfour : (4 : Word).toNat = 4 := rfl
    rw [BitVec.toNat_add, hfour, Nat.mod_eq_of_lt hroom] at hlow
    omega
  · refine Function.update_of_ne ?_ _ _
    rintro rfl
    exact hothers task p hne hp ha

/-- The timer interrupts the system task, and the user task starts. -/
theorem switches_transparent_userTask : ∃ t v,
    Runs Step startExample [.create 0xC0200000 false 0x400000 0x4000000] createdExample ∧
    Step createdExample (.interrupt 0x20 0) t ∧ t.suspended t.current = some v ∧ t.Resumed v ∧
    v.registers.eip = 0x400000 := by
  have hrun : Runs Step startExample [.create 0xC0200000 false 0x400000 0x4000000] createdExample :=
    .cons startExample_create (.nil _)
  have hint : ∃ m, isrDispatcher (createdExample.cpu.enter 0x20 0).general.esp (BitVec.ofNat 32 0x20)
      createdExample.computer.machine = .ok (0xC0213FB4, m) ∧
        m.kernel.currentTask = 0xC0210000 := ⟨_, rfl, rfl⟩
  obtain ⟨m, hcall, hcur⟩ := hint
  have hesp : (createdExample.cpu.enter 0x20 0).pushEsp.general.esp = 0xC0113EB8 := by decide
  have hothers : ∀ task p, task ≠ createdExample.current →
      createdExample.kernel.savedPointer task = some p →
      ¬ OnStack task p (createdExample.cpu.enter 0x20 0).pushEsp.general.esp := by
    intro task p hne hp hon
    obtain ⟨rfl, rfl⟩ := createdExample_tasks hne hp
    rw [hesp] at hon
    exact absurd hon.1 (by decide)
  have hroom : (createdExample.cpu.enter 0x20 0).pushEsp.general.esp.toNat + 4 < 2 ^ 32 := by
    rw [hesp]
    decide
  obtain ⟨t, ht, hcur'⟩ : ∃ t, Step createdExample (.interrupt 0x20 0) t ∧ t.current = 0xC0210000 :=
    ⟨_, .interrupt (.returned (by decide) hcall (called_parameter hroom hothers)), hcur⟩
  obtain ⟨-, hkeep, v, hv, hresumed⟩ := (switches_transparent startExample_started hrun).2 0x20 0 t ht
  have hnew : createdExample.suspended 0xC0210000 =
    some (newSnapshot 0xC0210000 false 0x400000 0x4000000 startExample.cpu.memory) := rfl
  refine ⟨t, v, hrun, ht, hv, hresumed, ?_⟩
  rw [hcur', hkeep _ (by decide), hnew] at hv
  rw [← Option.some.inj hv]
  rfl

end CpuSession

end AvocadOS
