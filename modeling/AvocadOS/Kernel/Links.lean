import AvocadOS.Kernel.Frame
import AvocadOS.Lib.Ring

/-!
# What the operations on tasks and processes do

For each function of `task.c` and `process.c` that writes a ring: the links afterwards, as a
`Splice` of the links before, and that all else in the nodes is as before.

* `taskListInsert_ok`, `processListInsert_ok`: one insertion;
* `taskNew_ok`: a new task is linked in behind the current one, with the frame that it starts from;
* `schedule_ok`, `int0x20Handler_ok`: what a timer interrupt saves, and what it switches to.
-/

namespace AvocadOS

namespace Kernel

def nextTask (s : Kernel) (a : Word) : Option Word := (s.tasks a).map Task.next
def prevTask (s : Kernel) (a : Word) : Option Word := (s.tasks a).map Task.previous
def nextProc (s : Kernel) (a : Word) : Option Word := (s.procs a).map Process.next
def prevProc (s : Kernel) (a : Word) : Option Word := (s.procs a).map Process.previous

theorem task_links_congr {s t : Kernel} (h : t.tasks = s.tasks) :
    t.nextTask = s.nextTask ∧ t.prevTask = s.prevTask := by
  constructor <;> funext a <;> simp [nextTask, prevTask, h]

theorem proc_links_congr {s t : Kernel} (h : t.procs = s.procs) :
    t.nextProc = s.nextProc ∧ t.prevProc = s.prevProc := by
  constructor <;> funext a <;> simp [nextProc, prevProc, h]

end Kernel

/-- A task without its links. -/
def Task.unlinked (t : Task) : Task := { t with next := 0, previous := 0 }

/-- A process without its links. -/
def Process.unlinked (p : Process) : Process := { p with next := 0, previous := 0 }

/-- `t` differs from `s` at most in the links of tasks. -/
structure Kernel.TaskLinksOnly (s t : Kernel) : Prop where
  rest : t = { s with tasks := t.tasks }
  unlinked : ∀ a, (t.tasks a).map Task.unlinked = (s.tasks a).map Task.unlinked

/-- `t` differs from `s` at most in the links of processes. -/
structure Kernel.ProcLinksOnly (s t : Kernel) : Prop where
  rest : t = { s with procs := t.procs }
  unlinked : ∀ a, (t.procs a).map Process.unlinked = (s.procs a).map Process.unlinked

open Kernel

theorem map_update_some {α β : Type} (m : Word → Option α) (g : α → β) (p : Word) (x : α) :
    (fun a => (Function.update m p (some x) a).map g) =
      Function.update (fun a => (m a).map g) p (some (g x)) := by
  funext a
  by_cases h : a = p
  · subst h; simp
  · simp [h]

/-- A write that `g` does not see. -/
theorem map_update_same {α β : Type} {m : Word → Option α} {g : α → β} {p : Word} {x y : α}
    (hx : m p = some x) (hy : g y = g x) :
    (fun a => (Function.update m p (some y) a).map g) = fun a => (m a).map g := by
  rw [map_update_some, hy]
  exact Function.update_eq_self_iff.mpr (by simp [hx])

section

variable {s t u : Kernel} {v : Unit} {task process frame r p n : Word}

theorem Kernel.TaskLinksOnly.trans (h₁ : TaskLinksOnly s t) (h₂ : TaskLinksOnly t u) :
    TaskLinksOnly s u :=
  ⟨by rw [h₂.rest, h₁.rest], fun a => (h₂.unlinked a).trans (h₁.unlinked a)⟩

theorem Kernel.ProcLinksOnly.trans (h₁ : ProcLinksOnly s t) (h₂ : ProcLinksOnly t u) :
    ProcLinksOnly s u :=
  ⟨by rw [h₂.rest, h₁.rest], fun a => (h₂.unlinked a).trans (h₁.unlinked a)⟩

/-! ## Insertion -/

theorem task_setNext_ok (h : tasks.modify p (Task.setNext n) s = .ok (v, t)) :
    t.nextTask = Function.update s.nextTask p (some n) ∧ t.prevTask = s.prevTask ∧
      TaskLinksOnly s t := by
  obtain ⟨-, x, hx, rfl⟩ := Store.modify_ok h
  refine ⟨map_update_some _ _ _ _, map_update_same hx rfl, rfl, congrFun (map_update_same hx rfl)⟩

theorem task_setPrevious_ok (h : tasks.modify p (Task.setPrevious n) s = .ok (v, t)) :
    t.nextTask = s.nextTask ∧ t.prevTask = Function.update s.prevTask p (some n) ∧
      TaskLinksOnly s t := by
  obtain ⟨-, x, hx, rfl⟩ := Store.modify_ok h
  exact ⟨map_update_same hx rfl, map_update_some _ _ _ _, rfl, congrFun (map_update_same hx rfl)⟩

theorem proc_setNext_ok (h : procs.modify p (Process.setNext n) s = .ok (v, t)) :
    t.nextProc = Function.update s.nextProc p (some n) ∧ t.prevProc = s.prevProc ∧
      ProcLinksOnly s t := by
  obtain ⟨-, x, hx, rfl⟩ := Store.modify_ok h
  exact ⟨map_update_some _ _ _ _, map_update_same hx rfl, rfl, congrFun (map_update_same hx rfl)⟩

theorem proc_setPrevious_ok (h : procs.modify p (Process.setPrevious n) s = .ok (v, t)) :
    t.nextProc = s.nextProc ∧ t.prevProc = Function.update s.prevProc p (some n) ∧
      ProcLinksOnly s t := by
  obtain ⟨-, x, hx, rfl⟩ := Store.modify_ok h
  exact ⟨map_update_same hx rfl, map_update_some _ _ _ _, rfl, congrFun (map_update_same hx rfl)⟩

theorem taskListInsert_ok (h : taskListInsert task s = .ok (v, t)) (hne : task ≠ s.currentTask)
    (hnext : s.nextTask s.currentTask ≠ some task) :
    (∃ d, s.nextTask s.currentTask = some d ∧
      Splice s.nextTask s.prevTask t.nextTask t.prevTask s.currentTask task d) ∧
    TaskLinksOnly s t := by
  obtain ⟨_, s₁, h₁, h⟩ := bind_ok (bind_get_ok h)
  obtain ⟨hn₁, hp₁, ho₁⟩ := task_setPrevious_ok h₁
  obtain ⟨-, c, hc, h⟩ := Store.bind_load_ok h
  obtain ⟨_, s₂, h₂, h⟩ := bind_ok h
  obtain ⟨hn₂, hp₂, ho₂⟩ := task_setNext_ok h₂
  obtain ⟨_, s₃, h₃, h⟩ := bind_ok h
  obtain ⟨hn₃, hp₃, ho₃⟩ := task_setNext_ok h₃
  obtain ⟨-, x, hx, h⟩ := Store.bind_load_ok h
  obtain ⟨hn₄, hp₄, ho₄⟩ := task_setPrevious_ok h
  have hc' : s.nextTask s.currentTask = some c.next := by
    rw [← hn₁]
    exact congrArg (Option.map Task.next) hc
  have hx' : x.next = c.next := by
    have : s₃.nextTask task = some x.next := congrArg (Option.map Task.next) hx
    rw [hn₃, hn₂, Function.update_of_ne hne, Function.update_self] at this
    exact (Option.some.inj this).symm
  have hd : c.next ≠ task := fun he => hnext (by rw [hc', he])
  rw [hx', hp₃, hp₂, hp₁] at hp₄
  rw [hn₃, hn₂, hn₁] at hn₄
  refine ⟨⟨c.next, hc', ?_⟩, ho₁.trans (ho₂.trans (ho₃.trans ho₄))⟩
  rw [hn₄, hp₄]
  exact .of_updates hne.symm hd

/-- The system process, the anchor of the ring of processes. -/
def Kernel.systemProcess (s : Kernel) : Option Word := (s.tasks s.image.systemTask).map Task.process

theorem processListInsert_ok {sys : Word} (h : processListInsert process s = .ok (v, t))
    (hsys : s.systemProcess = some sys) (hne : process ≠ sys) (hprev : s.prevProc sys ≠ some process) :
    (∃ z, s.prevProc sys = some z ∧
      Splice s.nextProc s.prevProc t.nextProc t.prevProc z process sys) ∧
    ProcLinksOnly s t := by
  obtain ⟨-, st, hst, h⟩ := Store.bind_load_ok (bind_get_ok h)
  obtain rfl : st.process = sys := by
    rw [Kernel.systemProcess, show s.tasks s.image.systemTask = some st from hst] at hsys
    exact Option.some.inj hsys
  obtain ⟨_, s₁, h₁, h⟩ := bind_ok h
  obtain ⟨hn₁, hp₁, ho₁⟩ := proc_setNext_ok h₁
  obtain ⟨-, c, hc, h⟩ := Store.bind_load_ok h
  obtain ⟨_, s₂, h₂, h⟩ := bind_ok h
  obtain ⟨hn₂, hp₂, ho₂⟩ := proc_setPrevious_ok h₂
  obtain ⟨_, s₃, h₃, h⟩ := bind_ok h
  obtain ⟨hn₃, hp₃, ho₃⟩ := proc_setPrevious_ok h₃
  obtain ⟨-, x, hx, h⟩ := Store.bind_load_ok h
  obtain ⟨hn₄, hp₄, ho₄⟩ := proc_setNext_ok h
  have hc' : s.prevProc st.process = some c.previous := by
    rw [← hp₁]
    exact congrArg (Option.map Process.previous) hc
  have hx' : x.previous = c.previous := by
    have : s₃.prevProc process = some x.previous := congrArg (Option.map Process.previous) hx
    rw [hp₃, hp₂, Function.update_of_ne hne, Function.update_self] at this
    exact (Option.some.inj this).symm
  have hz : c.previous ≠ process := fun he => hprev (by rw [hc', he])
  rw [hp₃, hp₂, hp₁] at hp₄
  rw [hx', hn₃, hn₂, hn₁] at hn₄
  refine ⟨⟨c.previous, hc', ?_⟩, ho₁.trans (ho₂.trans (ho₃.trans ho₄))⟩
  rw [hn₄, hp₄]
  exact .of_updates hz hne.symm

/-! ## A new task -/

/-- Nodes of a ring of tasks are tasks. -/
theorem ring_task_ne_none {a : Word} {l : List Word} (h : LinkRing s.nextTask s.prevTask a l) {b : Word}
    (hb : b ∈ a :: l) : s.tasks b ≠ none := by
  obtain ⟨c, -, hc, -⟩ := h.next_mem hb
  intro hnone
  simp [Kernel.nextTask, hnone] at hc

/-- Nodes of a ring of processes are processes. -/
theorem ring_proc_ne_none {a : Word} {l : List Word} (h : LinkRing s.nextProc s.prevProc a l) {b : Word}
    (hb : b ∈ a :: l) : s.procs b ≠ none := by
  obtain ⟨c, -, hc, -⟩ := h.next_mem hb
  intro hnone
  simp [Kernel.nextProc, hnone] at hc

/-- A task as `task_new` leaves it, apart from its links: the frame is at the end of its stack. -/
def newTask (task process : Word) (privileged : Bool) (entryPoint esp : Word) : Task :=
  (initialTask task process privileged entryPoint esp).push
    (pushedFrame (initialRegisters privileged entryPoint esp))

/-- `t` has one task more than `s`; of the others only links differ. -/
structure Kernel.TaskAdded (s t : Kernel) (task : Word) (x : Task) : Prop where
  ne_null : task ≠ 0
  fresh : s.tasks task = none
  rest : t = { s with requests := t.requests, blocks := t.blocks, tasks := t.tasks }
  blocks : s.blocks <:+ t.blocks
  new : (t.tasks task).map Task.unlinked = some x
  old : ∀ a, a ≠ task → (t.tasks a).map Task.unlinked = (s.tasks a).map Task.unlinked

/-- `task_new` up to the insertion. -/
theorem taskNew_unlinked {privileged : Bool} {entryPoint esp : Word}
    (h : taskNew process privileged entryPoint esp s = .ok (task, t)) :
    (task = 0 ∧ t = s.asked) ∨ (task ≠ 0 ∧ s.Fresh task taskSize ∧
      taskListInsert task { s.asked.withBlock task taskSize with
        tasks := Function.update s.tasks task
          (some (newTask task process privileged entryPoint esp)) } = .ok ((), t)) := by
  obtain ⟨a, s₁, ha, h⟩ := bind_ok h
  rcases Store.alloc_ok ha with ⟨rfl, rfl⟩ | ⟨hne, hfresh, rfl⟩
  · obtain ⟨rfl, rfl⟩ := pure_ok h
    exact .inl ⟨rfl, rfl⟩
  rw [if_neg hne] at h
  obtain ⟨-, x, hx, h⟩ := Store.bind_modify_ok h
  obtain ⟨_, s₂, h₂, h⟩ := bind_ok h
  obtain ⟨-, y, hy, h₂⟩ := Store.bind_load_ok h₂
  obtain ⟨-, y', hy', rfl⟩ := Store.modify_ok h₂
  obtain ⟨_, s₃, h₃, h⟩ := bind_ok h
  obtain ⟨rfl, rfl⟩ := pure_ok h
  simp only [tasks_get, tasks_put, Function.update_self, Option.some.injEq, Function.update_idem]
    at hy hy' h₃
  subst hy
  subst hy'
  exact .inr ⟨hne, hfresh, h₃⟩

theorem taskNew_ok {privileged : Bool} {entryPoint esp : Word} {l : List Word}
    (h : taskNew process privileged entryPoint esp s = .ok (task, t))
    (hring : LinkRing s.nextTask s.prevTask s.currentTask l) :
    (task = 0 ∧ t = s.asked) ∨
      (TaskAdded s t task (newTask task process privileged entryPoint esp) ∧
        LinkRing t.nextTask t.prevTask s.currentTask (task :: l)) := by
  rcases taskNew_unlinked h with h | ⟨hne, hfresh, h⟩
  · exact .inl h
  -- the ring does not reach the new task
  have hnone : s.tasks task = none := hfresh.vacant.2.2.1
  have hmem : task ∉ s.currentTask :: l := fun hm => ring_task_ne_none hring hm hnone
  have hcur : task ≠ s.currentTask := fun he => hmem (by simp [he])
  obtain ⟨d, hdmem, hd, -⟩ := hring.next_mem List.mem_cons_self
  have hdne : d ≠ task := fun he => hmem (he ▸ hdmem)
  generalize hm : ({ s.asked.withBlock task taskSize with
    tasks := Function.update s.tasks task
      (some (newTask task process privileged entryPoint esp)) } : Kernel) = m at h
  have hold : ∀ u, u ≠ task → m.tasks u = s.tasks u := by
    intro u hu
    rw [← hm]
    exact Function.update_of_ne hu _ _
  have hcur' : m.currentTask = s.currentTask := by rw [← hm]; rfl
  have hmd : m.nextTask m.currentTask = some d := by
    rw [hcur', ← hd, Kernel.nextTask, hold _ hcur.symm, Kernel.nextTask]
  obtain ⟨⟨d', hd', hsplice⟩, hlinks⟩ := taskListInsert_ok h (by rwa [hcur']) (by
    rw [hmd]
    simpa using hdne)
  obtain rfl : d' = d := Option.some.inj (hd'.symm.trans hmd)
  rw [hcur'] at hsplice
  refine .inr ⟨⟨hne, hnone, ?_, ?_, ?_, fun u hu => ?_⟩, hring.insert hd hmem (hsplice.of_eq ?_ ?_)⟩
  · rw [hlinks.rest, ← hm]
    rfl
  · rw [hlinks.rest, ← hm]
    exact List.suffix_cons _ _
  · rw [hlinks.unlinked task, ← hm]
    change Option.map Task.unlinked (Function.update s.tasks task _ task) = _
    rw [Function.update_self]
    rfl
  · rw [hlinks.unlinked u, hold u hu]
  · intro u hu
    exact congrArg (Option.map Task.next) (hold u hu)
  · intro u hu
    exact congrArg (Option.map Task.previous) (hold u hu)

/-! ## The timer interrupt -/

/-- `task->kernel_stack_pointer`. -/
def Kernel.savedPointer (s : Kernel) (a : Word) : Option Word :=
  (s.tasks a).map Task.kernelStackPointer

/-- `task->process`. -/
def Kernel.processOf (s : Kernel) (a : Word) : Option Word := (s.tasks a).map Task.process

/-- `task->process->page_directory`. -/
def Kernel.pageDirectoryOf (s : Kernel) (a : Word) : Option Word :=
  (s.processOf a).bind fun p => (s.procs p).map Process.pageDirectory

/-- The physical address of a directory, as CR3 has it. -/
def Kernel.directoryAddr (s : Kernel) (handle : Word) : Option Word :=
  (s.handles handle).bind fun h => (s.tables h.directory).map fun d => pageEntryAddr (d 1023)

theorem directoryPhysicalAddr_ok {handle a : Word}
    (h : directoryPhysicalAddr handle s = .ok (a, t)) : s.directoryAddr handle = some a ∧ t = s := by
  obtain ⟨-, x, hx, h⟩ := Store.bind_load_ok h
  obtain ⟨-, d, hd, h⟩ := Store.bind_load_ok h
  obtain ⟨rfl, rfl⟩ := pure_ok h
  rw [handles_get] at hx
  rw [tables_get] at hd
  simp [Kernel.directoryAddr, hx, hd]

/-- What `schedule` and `int_0x20_handler` do when there is a current task. -/
structure Kernel.Interrupted (s t : Kernel) (frame r : Word) : Prop where
  rest : t = { s with
    tasks := t.tasks, currentTask := t.currentTask, tssEsp0 := t.tssEsp0, cr3 := t.cr3 }
  next : s.nextTask s.currentTask = some t.currentTask
  nextTask : t.nextTask = s.nextTask
  prevTask : t.prevTask = s.prevTask
  processOf : t.processOf = s.processOf
  saved : t.savedPointer = Function.update s.savedPointer s.currentTask (some frame)
  returned : t.savedPointer t.currentTask = some r
  ne_null : t.currentTask ≠ 0
  stays : t.currentTask = s.currentTask → t.tssEsp0 = s.tssEsp0 ∧ t.cr3 = s.cr3
  switches : t.currentTask ≠ s.currentTask → t.tssEsp0 = kstackEnd t.currentTask ∧
    ∃ dir, s.pageDirectoryOf t.currentTask = some dir ∧ s.directoryAddr dir = some t.cr3

theorem scheduleNext_ok (h : scheduleNext n s = .ok (r, t)) :
    ∃ x dir a, s.tasks s.currentTask = some x ∧
      (Function.update s.tasks s.currentTask (some x.countSwitch) n).bind
        (fun y => (s.procs y.process).map Process.pageDirectory) = some dir ∧
      s.directoryAddr dir = some a ∧ n ≠ 0 ∧
      (Function.update s.tasks s.currentTask (some x.countSwitch) n).map Task.kernelStackPointer =
        some r ∧
      t = { s with
        tasks := Function.update s.tasks s.currentTask (some x.countSwitch)
        currentTask := n
        tssEsp0 := kstackEnd n
        cr3 := a } := by
  obtain ⟨-, x, hx, h⟩ := Store.bind_modify_ok (bind_get_ok h)
  obtain ⟨_, _, h₁, h⟩ := bind_ok h
  cases h₁
  obtain ⟨_, _, h₂, h⟩ := bind_ok h
  cases h₂
  obtain ⟨hn, y, hy, h⟩ := Store.bind_load_ok h
  obtain ⟨-, p, hp, h⟩ := Store.bind_load_ok h
  obtain ⟨a, _, ha, h⟩ := bind_ok h
  obtain ⟨haddr, rfl⟩ := directoryPhysicalAddr_ok ha
  obtain ⟨_, _, h₃, h⟩ := bind_ok h
  cases h₃
  obtain ⟨-, z, hz, h⟩ := Store.bind_load_ok (bind_get_ok h)
  obtain ⟨rfl, rfl⟩ := pure_ok h
  rw [tasks_get] at hx hy hz
  rw [procs_get] at hp
  refine ⟨x, p.pageDirectory, a, hx, ?_, haddr, hn,
    congrArg (Option.map Task.kernelStackPointer) hz, rfl⟩
  rw [show Function.update s.tasks s.currentTask (some x.countSwitch) n = some y from hy]
  exact congrArg (Option.map Process.pageDirectory) hp

theorem schedule_ok (h : schedule frame s = .ok (r, t)) (hcur : s.currentTask ≠ 0) :
    Interrupted s t frame r := by
  replace h := bind_get_ok h
  rw [if_neg hcur] at h
  obtain ⟨_, s₁, h₁, h⟩ := bind_ok h
  replace h₁ := bind_get_ok h₁
  rw [if_neg hcur] at h₁
  obtain ⟨-, x, hx, rfl⟩ := Store.modify_ok h₁
  obtain ⟨n, s₂, h₂, h⟩ := bind_ok h
  obtain ⟨-, x', hx', h₂⟩ := Store.bind_load_ok (bind_get_ok h₂)
  obtain ⟨rfl, rfl⟩ := pure_ok h₂
  simp only [tasks_get, tasks_put] at hx hx' h
  obtain rfl : x.setKernelStackPointer frame = x' := by simpa using hx'
  have hnext : s.nextTask s.currentTask = some x.next := congrArg (Option.map Task.next) hx
  split at h
  · rename_i hself
    obtain ⟨rfl, rfl⟩ := pure_ok h
    exact {
      rest := rfl
      next := hnext.trans (congrArg some hself)
      nextTask := map_update_same hx rfl
      prevTask := map_update_same hx rfl
      processOf := map_update_same hx rfl
      saved := map_update_some _ _ _ _
      returned := congrArg (Option.map Task.kernelStackPointer) hx'
      ne_null := hcur
      stays := fun _ => ⟨rfl, rfl⟩
      switches := fun h => absurd rfl h }
  · rename_i hother
    obtain ⟨x', dir, a, hx', hdir, ha, hn, hr, rfl⟩ := scheduleNext_ok h
    obtain rfl : x.setKernelStackPointer frame = x' := by simpa using hx'
    simp only [Function.update_idem] at hdir hr ⊢
    exact {
      rest := rfl
      next := hnext
      nextTask := map_update_same hx rfl
      prevTask := map_update_same hx rfl
      processOf := map_update_same hx rfl
      saved := map_update_some _ _ _ _
      returned := hr
      ne_null := hn
      stays := fun h => absurd h hother
      switches := fun _ => ⟨rfl, dir, by
        rw [Function.update_of_ne hother] at hdir
        rw [Kernel.pageDirectoryOf, Kernel.processOf, Option.bind_map]
        exact hdir, ha⟩ }

/-- Without a current task `schedule` does nothing. -/
theorem schedule_null (h : schedule frame s = .ok (r, t)) (hcur : s.currentTask = 0) : t = s := by
  replace h := bind_get_ok h
  rw [if_pos hcur] at h
  exact (pure_ok h).2

/-- The handler returns what `schedule` returns. -/
theorem int0x20Handler_ok (h : int0x20Handler frame s = .ok (r, t)) (hcur : s.currentTask ≠ 0) :
    Interrupted s t frame r := by
  obtain ⟨r', u, h', h⟩ := bind_ok h
  have hi := schedule_ok h' hcur
  obtain ⟨-, y, hy, h⟩ := Store.bind_load_ok (bind_get_ok h)
  obtain ⟨rfl, rfl⟩ := pure_ok h
  have hr : t.savedPointer t.currentTask = some y.kernelStackPointer :=
    congrArg (Option.map Task.kernelStackPointer) hy
  exact { hi with returned := hr }

/-- The ring is the same from the task that is then current. -/
theorem Kernel.Interrupted.ring {l : List Word} (hi : Interrupted s t frame r)
    (h : LinkRing s.nextTask s.prevTask s.currentTask l) :
    ∃ l', LinkRing t.nextTask t.prevTask t.currentTask l' ∧
      (t.currentTask :: l').Perm (s.currentTask :: l) := by
  rw [hi.nextTask, hi.prevTask]
  cases l with
  | nil =>
    have hself : t.currentTask = s.currentTask := Option.some.inj (hi.next.symm.trans h.next_nil)
    rw [hself]
    exact ⟨[], h, .refl _⟩
  | cons b l =>
    obtain rfl : t.currentTask = b := Option.some.inj (hi.next.symm.trans h.next_cons)
    refine ⟨l ++ [s.currentTask], h.rotate, ?_⟩
    exact (List.Perm.cons _ List.perm_append_comm).trans (List.Perm.swap _ _ _)

/-- The process has a directory that can be loaded. -/
def Kernel.HasDirectory (s : Kernel) (process : Word) : Prop :=
  process ≠ 0 ∧ ∃ p, s.procs process = some p ∧ p.pageDirectory ≠ 0 ∧
    ∃ h, s.handles p.pageDirectory = some h ∧ h.directory ≠ 0 ∧ s.tables h.directory ≠ none

theorem directoryPhysicalAddr_returns {handle : Word} {h : PageDirectoryHandle} (hne : handle ≠ 0)
    (hh : s.handles handle = some h) (hd : h.directory ≠ 0) (ht : s.tables h.directory ≠ none) :
    ∃ a, directoryPhysicalAddr handle s = .ok (a, s) := by
  obtain ⟨d, hd'⟩ := Option.ne_none_iff_exists'.mp ht
  refine ⟨pageEntryAddr (d 1023), ?_⟩
  rw [directoryPhysicalAddr, bind_eq (Store.load_eq hne hh), bind_eq (Store.load_eq hd hd')]
  rfl

theorem scheduleNext_returns {x y : Task} (hcur : s.currentTask ≠ 0)
    (hx : s.tasks s.currentTask = some x) (hn : n ≠ 0) (hne : n ≠ s.currentTask)
    (hy : s.tasks n = some y) (hdir : s.HasDirectory y.process) :
    ∃ r t, scheduleNext n s = .ok (r, t) ∧ t.currentTask ≠ 0 ∧ t.tasks t.currentTask ≠ none := by
  obtain ⟨hp, p, hpget, hpd, d, hd, hd₀, ht⟩ := hdir
  have hy' : Function.update s.tasks s.currentTask (some x.countSwitch) n = some y := by
    rw [Function.update_of_ne hne, hy]
  obtain ⟨a, ha⟩ := directoryPhysicalAddr_returns (s := { s with
    tasks := Function.update s.tasks s.currentTask (some x.countSwitch)
    currentTask := n
    tssEsp0 := kstackEnd n }) hpd hd hd₀ ht
  refine ⟨y.kernelStackPointer, { s with
    tasks := Function.update s.tasks s.currentTask (some x.countSwitch)
    currentTask := n
    tssEsp0 := kstackEnd n
    cr3 := a }, bind_get_eq.trans ((bind_eq (Store.modify_eq hcur hx)).trans ?_), hn, ?_⟩
  · refine bind_assign_eq.trans (bind_assign_eq.trans ((bind_eq (Store.load_eq hn hy')).trans ?_))
    refine (bind_eq (Store.load_eq hp hpget)).trans ((bind_eq ha).trans (bind_assign_eq.trans ?_))
    exact bind_get_eq.trans ((bind_eq (Store.load_eq hn hy')).trans rfl)
  · simp [hy']

/-- With a next task that has a directory to load, `schedule` returns. -/
theorem schedule_returns {x y : Task} (hcur : s.currentTask ≠ 0)
    (hx : s.tasks s.currentTask = some x) (hn : x.next ≠ 0) (hy : s.tasks x.next = some y)
    (hdir : s.HasDirectory y.process) :
    ∃ r t, schedule frame s = .ok (r, t) ∧ t.currentTask ≠ 0 ∧ t.tasks t.currentTask ≠ none := by
  obtain ⟨m, hm⟩ : ∃ m : Kernel, m = { s with
      tasks := Function.update s.tasks s.currentTask (some (x.setKernelStackPointer frame)) } :=
    ⟨_, rfl⟩
  have hmcur : m.currentTask = s.currentTask := by rw [hm]
  have hmx : m.tasks m.currentTask = some (x.setKernelStackPointer frame) := by
    rw [hm]
    exact Function.update_self _ _ _
  have hstore : taskStore s.currentTask frame s = .ok ((), m) := by
    rw [taskStore, bind_get_eq, if_neg hcur, hm]
    exact Store.modify_eq hcur hx
  have hload : tasks.load m.currentTask m = .ok (x.setKernelStackPointer frame, m) :=
    Store.load_eq (hmcur ▸ hcur) hmx
  have hnext : taskNext m = .ok (x.next, m) := bind_get_eq.trans ((bind_eq hload).trans rfl)
  rw [schedule, bind_get_eq, if_neg hcur, bind_eq hstore, bind_eq hnext]
  by_cases hself : x.next = s.currentTask
  · rw [if_pos hself]
    exact ⟨frame, m, rfl, hmcur ▸ hcur, by simp [hmx]⟩
  · rw [if_neg hself]
    refine scheduleNext_returns (hmcur ▸ hcur) hmx hn (hmcur ▸ hself) (y := y) ?_ ?_
    · rw [hm, ← hy]
      exact Function.update_of_ne hself _ _
    · rw [hm]
      exact hdir

/-- So does the handler. -/
theorem int0x20Handler_returns {x y : Task} (hcur : s.currentTask ≠ 0)
    (hx : s.tasks s.currentTask = some x) (hn : x.next ≠ 0) (hy : s.tasks x.next = some y)
    (hdir : s.HasDirectory y.process) : ∃ r t, int0x20Handler frame s = .ok (r, t) := by
  obtain ⟨r, t, hr, hc, ht⟩ := @schedule_returns s frame x y hcur hx hn hy hdir
  obtain ⟨z, hz⟩ := Option.ne_none_iff_exists'.mp ht
  exact ⟨z.kernelStackPointer, t, (bind_eq hr).trans
    (bind_get_eq.trans ((bind_eq (Store.load_eq hc hz)).trans rfl))⟩

/-- The current task of a ring and the next one. -/
theorem next_task {l : List Word} (hring : LinkRing s.nextTask s.prevTask s.currentTask l)
    (hdir : ∀ a ∈ s.currentTask :: l, ∃ p, s.processOf a = some p ∧ s.HasDirectory p) :
    ∃ x y, s.tasks s.currentTask = some x ∧ x.next ∈ s.currentTask :: l ∧
      s.tasks x.next = some y ∧ s.HasDirectory y.process := by
  obtain ⟨d, hd, hnext, -⟩ := hring.next_mem List.mem_cons_self
  obtain ⟨x, hx, rfl⟩ := Option.map_eq_some_iff.mp hnext
  obtain ⟨p, hp, hdir⟩ := hdir _ hd
  obtain ⟨y, hy, rfl⟩ := Option.map_eq_some_iff.mp hp
  exact ⟨x, y, hx, hd, hy, hdir⟩

end

end AvocadOS
