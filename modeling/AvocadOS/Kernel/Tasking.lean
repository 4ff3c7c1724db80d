import AvocadOS.Kernel.Paging

/-!
# Tasks and processes (`task.c`, `process.c`, the timer interrupt of `idt.c`)

A task is a node of the ring through `current_task`, a process one of the ring through the system
process. `process_init` is called with `&processes[slot]` for its last argument and writes there.
What these functions print is left out, and so is `raise_int_20`: vector 20 has the handler that
returns to where it came from.
-/

namespace AvocadOS

/-! ## `config.h` -/

def GDT_KERNEL_CODE_SEGMENT_SELECTOR : Word := 8
def GDT_KERNEL_DATA_SEGMENT_SELECTOR : Word := 16
def GDT_USER_CODE_SEGMENT_SELECTOR : Word := 24
def GDT_USER_DATA_SEGMENT_SELECTOR : Word := 32

/-- `sizeof(union task)`. -/
def taskSize : Nat := 4 * TASK_KERNEL_STACK_SIZE

/-- `sizeof(struct process)`: the name is padded to a multiple of four bytes. -/
def processSize : Nat := 4 + (MAX_PATH_LEN + 2) + 7 * 4

/-! ## `task.c` -/

/-- `&task->kstack[TASK_KERNEL_STACK_SIZE]`. -/
def kstackEnd (task : Word) : Word := task + BitVec.ofNat 32 taskSize

/-- `tss_set_kernel_stack`. -/
def tssSetKernelStack (kernelStackPointer : Word) : K Unit :=
  assign fun s => { s with tssEsp0 := kernelStackPointer }

def taskNext : K Word := do
  pure (← tasks.load (← get).currentTask).next

def taskListInsert (task : Word) : K Unit := do
  let current := (← get).currentTask
  tasks.modify task (Task.setPrevious current)
  let next := (← tasks.load current).next
  tasks.modify task (Task.setNext next)
  tasks.modify current (Task.setNext task)
  let next := (← tasks.load task).next
  tasks.modify next (Task.setPrevious task)

/-- The words of `struct interrupt_frame`, in the order of their addresses. -/
def interruptFrame (r : ProcessState) : List Word :=
  [r.segments.gs, r.segments.fs, r.segments.es, r.segments.ds, r.generalRegs.edi, r.generalRegs.esi,
    r.generalRegs.ebp, r.generalRegs.esp, r.generalRegs.ebx, r.generalRegs.edx, r.generalRegs.ecx,
    r.generalRegs.eax, 0xDEADC0DE, 0xDEADC0DE, r.eip, r.segments.cs, r.eflags, r.generalRegs.esp,
    r.segments.ss]

/-- The words of the frame that `task_push_state_to_kstack` pushes: all of them for a user task,
all but `esp` and `ss` (`struct interrupt_frame_kernel`) for a kernel task. -/
def pushedFrame (r : ProcessState) : List Word :=
  if r.segments.cs &&& 3 ≠ 0 then interruptFrame r else (interruptFrame r).take 17

def Task.push (data : List Word) (t : Task) : Task :=
  { t with
    kernelStackPointer := t.kernelStackPointer - BitVec.ofNat 32 (4 * data.length)
    kstack := data ++ t.kstack }

/-- `task_push_data_to_kstack`, of whole words. -/
def taskPushDataToKstack (task : Word) (data : List Word) : K Unit :=
  tasks.modify task (Task.push data)

def taskPushStateToKstack (task : Word) : K Unit := do
  let t ← tasks.load task
  taskPushDataToKstack task (pushedFrame t.registers)

/-- The registers with which a new task starts. -/
def initialRegisters (privileged : Bool) (entryPoint esp : Word) : ProcessState :=
  let cs := if privileged then GDT_KERNEL_CODE_SEGMENT_SELECTOR
    else GDT_USER_CODE_SEGMENT_SELECTOR ||| 3
  let ss := if privileged then GDT_KERNEL_DATA_SEGMENT_SELECTOR
    else GDT_USER_DATA_SEGMENT_SELECTOR ||| 3
  { segments := { gs := ss, fs := ss, es := ss, ds := ss, cs := cs, ss := ss }
    eflags := 0x202
    eip := entryPoint
    generalRegs :=
      { edi := 0, esi := 0, ebp := 0, esp := esp, ebx := 0, edx := 0, ecx := 0, eax := 0xDEADC0DE } }

/-- What `task_new` writes to the new task before it pushes a frame. -/
def initialTask (task process : Word) (privileged : Bool) (entryPoint esp : Word) : Task :=
  { registers := initialRegisters privileged entryPoint esp
    nSwitches := 0
    sp := kstackEnd task
    ip := entryPoint
    process := process
    kernelStackPointer := kstackEnd task
    next := 0
    previous := 0
    kstack := [] }

def taskNew (process : Word) (privileged : Bool) (entryPoint esp : Word) : K Word := do
  let task ← tasks.alloc taskSize (initialTask 0 0 false 0 0)
  if task = 0 then pure 0
  else
    tasks.modify task fun _ => initialTask task process privileged entryPoint esp
    taskPushStateToKstack task
    taskListInsert task
    pure task

def taskStore (task frame : Word) : K Unit := do
  if (← get).currentTask = 0 then panic "NO CURRENT TASK!"
  else tasks.modify task (Task.setKernelStackPointer frame)

/-- The end of `schedule`, with a task to switch to. -/
def scheduleNext (next : Word) : K Word := do
  tasks.modify (← get).currentTask Task.countSwitch
  assign fun s => { s with currentTask := next }
  tssSetKernelStack (kstackEnd next)
  let t ← tasks.load next
  let process ← procs.load t.process
  pagingLoadDirectory (← directoryPhysicalAddr process.pageDirectory)
  pure (← tasks.load (← get).currentTask).kernelStackPointer

def schedule (interruptFrame : Word) : K Word := do
  let current := (← get).currentTask
  if current = 0 then pure interruptFrame
  else
    taskStore current interruptFrame
    let next ← taskNext
    if next = current then pure interruptFrame
    else scheduleNext next

/-- The timer interrupt. What is returned becomes the stack pointer. -/
def int0x20Handler (interruptFrame : Word) : K Word := do
  let _ ← schedule interruptFrame
  pure (← tasks.load (← get).currentTask).kernelStackPointer

/-! ## `process.c` -/

def processListInsert (process : Word) : K Unit := do
  let systemProcess := (← tasks.load (← get).image.systemTask).process
  procs.modify process (Process.setNext systemProcess)
  let last := (← procs.load systemProcess).previous
  procs.modify process (Process.setPrevious last)
  procs.modify systemProcess (Process.setPrevious process)
  let last := (← procs.load process).previous
  procs.modify last (Process.setNext process)

/-- `processes[pid] = process`. -/
def setProcess (pid : Nat) (process : Word) : K Unit :=
  assign fun s => { s with processes := Function.update s.processes pid process }

/-- One of the two mappings of `process_map_memory`. -/
def mapUserRange (directory virtAddr ptr : Word) (size : Nat) : K Int := do
  let physBegin ← virtualToPhysicalAddr (← get).currentDirectory ptr
  let physEnd := pagingAlignAddress (physBegin + BitVec.ofNat 32 size)
  pagingMapFromTo directory virtAddr physBegin physEnd
    (PAGING_WRITABLE_PAGE ||| PAGING_ACCESS_FROM_ALL ||| PAGING_PRESENT)

def processMapMemory (process : Word) : K Int := do
  if (← procs.load process).memory = 0 then panic "PROCESS MEMORY NOT LOADED"
  else
    let directory ← pagingCloneDirectory (← get).image.kernelPageDirectory
    procs.modify process (Process.setPageDirectory directory)
    let p ← procs.load process
    let res ← mapUserRange p.pageDirectory PROGRAM_BASE_VIRT_ADDR p.memory p.memorySize
    if res ≠ 0 then pure res
    else mapUserRange p.pageDirectory PROGRAM_STACK_TOP_VIRT_ADDR p.stack PROGRAM_STACK_SIZE

def initSystemProcess : K Unit := do
  let systemTask := (← get).image.systemTask
  let kernel := (← get).image.kernelPageDirectory
  let process ← procs.alloc processSize Process.zero
  procs.modify process fun p =>
    { p with
      pid := 0
      memorySize := 0
      memory := KERNEL_VIRTUAL_BASE
      name := strncpy (ascii "System Process") MAX_PATH_LEN
      pageDirectory := kernel
      task := systemTask
      next := process
      previous := process }
  tasks.modify systemTask fun t =>
    { t with
      registers := { t.registers with
        segments := { t.registers.segments with ss := GDT_KERNEL_DATA_SEGMENT_SELECTOR } }
      process := process
      next := systemTask
      previous := systemTask }
  assign fun s => { s with currentProcess := process, currentTask := systemTask }
  setProcess 0 process

def initIdleProcess : K Unit := do
  let kernel := (← get).image.kernelPageDirectory
  let process ← procs.alloc processSize Process.zero
  procs.modify process fun p =>
    { p with
      pid := 1
      memorySize := 0
      memory := KERNEL_VIRTUAL_BASE
      name := strncpy (ascii "Idle Process") MAX_PATH_LEN
      pageDirectory := kernel }
  let stack ← kzalloc PROGRAM_STACK_SIZE
  procs.modify process (Process.setStack stack)
  -- the stack pointer is the byte behind the stack, not its address
  let esp := ((← get).raw (stack + BitVec.ofNat 32 PROGRAM_STACK_SIZE)).signExtend 32
  let task ← taskNew process true (← get).image.idleFunction esp
  procs.modify process (Process.setTask task)
  setProcess 1 process
  processListInsert process

def taskingInit : K Unit := do
  initSystemProcess
  initIdleProcess

/-- `process_init` from the task on. -/
def processInitTask (process : Word) (name : List Byte) (privileged : Bool) : K Int := do
  procs.modify process fun p => { p with name := strncpy name MAX_PATH_LEN }
  let task ← taskNew process privileged PROGRAM_BASE_VIRT_ADDR
    (PROGRAM_STACK_TOP_VIRT_ADDR + BitVec.ofNat 32 PROGRAM_STACK_SIZE)
  procs.modify process (Process.setTask task)
  if task = 0 then pure (-ENOMEM)
  else
    processListInsert process
    pure 0

/-- `process_init` from the stack on, up to `out`. -/
def processInitStack (process : Word) (name : List Byte) (privileged : Bool) : K Int := do
  let stack ← kzalloc PROGRAM_STACK_SIZE
  procs.modify process (Process.setStack stack)
  if stack = 0 then pure (-EINVAL)
  else
    let res ← processMapMemory process
    if res ≠ 0 then pure res
    else processInitTask process name privileged

/-- `if (ptr) kfree(ptr)`. -/
def kfreeNonNull (ptr : Word) : K Unit := if ptr ≠ 0 then kfree ptr else pure ()

/-- What `process_init` frees when it fails. `task_free` does nothing. -/
def processInitUndo (process : Word) : K Unit := do
  kfreeNonNull (← procs.load process).stack
  kfreeNonNull (← procs.load process).memory
  kfree process

/-- `process_init` from `out` on. -/
def processInitOut (process : Word) (res : Int) : K Int :=
  if res < 0 then do
    processInitUndo process
    pure res
  else pure res

def processInit (name : List Byte) (memory : Word) (memorySize : Nat) (privileged : Bool)
    (slot : Nat) : K Int := do
  let process ← procs.alloc processSize Process.zero
  setProcess slot process
  if process = 0 then pure (-ENOMEM)
  else
    procs.modify process fun p => { p with pid := slot, memorySize := memorySize, memory := memory }
    let res ← processInitStack process name privileged
    processInitOut process res

/-! ## A kernel to run this on -/

/-- A kernel on its own directory, which maps the first four megabytes twice. -/
def kernelExample : Kernel :=
  { Kernel.blank ⟨0xC0110000, 0xC0120000, 0xC0101000, 0xC0130000, 0xC0100000, 0xC0140000⟩
      (fun n => 0xC0200000 + BitVec.ofNat 32 (0x10000 * n))
      (fun a => if a = 0xC0144000 then some fun i =>
          if i = 0 then 0x145003 else if i = 768 then 0x146003 else if i = 1023 then 0x144003 else 0
        else if a = 0xC0145000 ∨ a = 0xC0146000 then some fun i => BitVec.ofNat 32 (4096 * i + 3)
        else none)
      (fun a => if a = 0xC0120000 then some ⟨0xC0144000, fun i =>
          if i = 0 then 0xC0145000 else if i = 768 then 0xC0146000
          else if i = 1023 then 0xC0144000 else 0⟩
        else none) with
    tasks := fun a => if a = 0xC0110000 then some (initialTask 0 0 false 0 0) else none
    currentDirectory := 0xC0120000
    cr3 := 0x144000
    tssEsp0 := kstackEnd 0xC0110000 }

/-- It has the system process and the idle process. -/
def twoTasks : Kernel := kernelExample.after taskingInit

end AvocadOS
