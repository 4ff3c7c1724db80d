import AvocadOS.Kernel.Links
import AvocadOS.Lib.Run

/-!
# Context switches

A session is a run of timer interrupts, each with the frame of the task that it interrupts, and of
task creations. `frames` keeps, for each task, the frame with which it was last interrupted, or the
initial one.

* `TaskRing`: a well-formed ring, with `tss.esp0` at the end of the current task's stack;
* `TaskSession.step_inv`: a step keeps it, and the saved pointers are `frames`;
* `TaskSession.interrupts_resume`: what the handler returns after any run.
-/

namespace AvocadOS

open Kernel

/-- The task ring from `current_task`: its tasks have processes with a directory to load. -/
structure Kernel.TaskRing (s : Kernel) (l : List Word) : Prop where
  ring : LinkRing s.nextTask s.prevTask s.currentTask l
  ne_null : ∀ a ∈ s.currentTask :: l, a ≠ 0
  directory : ∀ a ∈ s.currentTask :: l, ∃ p, s.processOf a = some p ∧ s.HasDirectory p
  esp0 : s.tssEsp0 = kstackEnd s.currentTask

/-- The frame that `task_push_state_to_kstack` builds is at the end of the stack. -/
def initialFrame (task : Word) (privileged : Bool) (entryPoint esp : Word) : Word :=
  kstackEnd task -
    BitVec.ofNat 32 (4 * (pushedFrame (initialRegisters privileged entryPoint esp)).length)

/-- It has 17 words in a kernel task, 19 in a user task. -/
theorem pushedFrame_length (privileged : Bool) (entryPoint esp : Word) :
    (pushedFrame (initialRegisters privileged entryPoint esp)).length =
      if privileged then 17 else 19 := by
  cases privileged <;>
    simp [pushedFrame, interruptFrame, initialRegisters, GDT_KERNEL_CODE_SEGMENT_SELECTOR,
      GDT_USER_CODE_SEGMENT_SELECTOR]

structure TaskSession where
  kernel : Kernel
  frames : Word → Option Word

inductive TaskCall where
  | timer (frame : Word)
  | create (process : Word) (privileged : Bool) (entryPoint esp : Word)

namespace TaskSession

inductive Step : TaskSession → TaskCall → TaskSession → Prop
  | timer {s : TaskSession} {frame r : Word} {k : Kernel}
      (h : int0x20Handler frame s.kernel = .ok (r, k)) :
      Step s (.timer frame) ⟨k, Function.update s.frames s.kernel.currentTask (some frame)⟩
  | create {s : TaskSession} {process task entryPoint esp : Word} {privileged : Bool} {k : Kernel}
      (hdir : s.kernel.HasDirectory process)
      (h : taskNew process privileged entryPoint esp s.kernel = .ok (task, k)) :
      Step s (.create process privileged entryPoint esp)
        ⟨k, if task = 0 then s.frames
          else Function.update s.frames task (some (initialFrame task privileged entryPoint esp))⟩

/-- What every step keeps. -/
structure Inv (s : TaskSession) : Prop where
  taskRing : ∃ l, s.kernel.TaskRing l
  frames : s.frames = s.kernel.savedPointer

end TaskSession

/-! ## The two calls -/

section

variable {s t : Kernel} {l : List Word} {frame r task process entryPoint esp : Word}
  {privileged : Bool}

/-- What can be seen of tasks without their links, after a task was added. -/
theorem Kernel.TaskAdded.view {β : Type} {x : Task} (h : TaskAdded s t task x) {f : Task → β}
    (hf : ∀ y, f y.unlinked = f y) :
    (fun a => (t.tasks a).map f) = Function.update (fun a => (s.tasks a).map f) task (some (f x)) := by
  have hmap : ∀ o : Option Task, o.map f = (o.map Task.unlinked).map f := by
    intro o
    cases o <;> simp [hf]
  funext a
  by_cases ha : a = task
  · subst ha
    rw [hmap, h.new, Function.update_self]
    rfl
  · rw [hmap, h.old a ha, ← hmap, Function.update_of_ne ha]

theorem Kernel.HasDirectory.congr (h : s.HasDirectory process) (hp : t.procs = s.procs)
    (hh : t.handles = s.handles) (ht : t.tables = s.tables) : t.HasDirectory process := by
  rw [Kernel.HasDirectory] at *
  rwa [hp, hh, ht]

/-- The next task is on the ring, and the handler returns. -/
theorem Kernel.TaskRing.handler_returns (h : s.TaskRing l) (frame : Word) :
    ∃ r t, int0x20Handler frame s = .ok (r, t) := by
  obtain ⟨x, y, hx, hnext, hy, hdir⟩ := next_task h.ring h.directory
  exact int0x20Handler_returns (h.ne_null _ List.mem_cons_self) hx (h.ne_null _ hnext) hy hdir

/-- The same tasks, from the one that is then current. -/
theorem Kernel.TaskRing.interrupted_perm (h : s.TaskRing l) (hi : Interrupted s t frame r) :
    ∃ l', t.TaskRing l' ∧ (t.currentTask :: l').Perm (s.currentTask :: l) := by
  obtain ⟨l', hring, hperm⟩ := hi.ring h.ring
  refine ⟨l', ⟨hring, fun a ha => h.ne_null a (hperm.mem_iff.mp ha), fun a ha => ?_, ?_⟩, hperm⟩
  · obtain ⟨p, hp, hdir⟩ := h.directory a (hperm.mem_iff.mp ha)
    exact ⟨p, by rw [hi.processOf, hp], hdir.congr (by rw [hi.rest]) (by rw [hi.rest])
      (by rw [hi.rest])⟩
  · by_cases hself : t.currentTask = s.currentTask
    · rw [(hi.stays hself).1, hself, h.esp0]
    · exact (hi.switches hself).1

theorem Kernel.TaskRing.interrupted (h : s.TaskRing l) (hi : Interrupted s t frame r) :
    ∃ l', t.TaskRing l' := by
  obtain ⟨l', hl', -⟩ := h.interrupted_perm hi
  exact ⟨l', hl'⟩

theorem Kernel.TaskRing.added (h : s.TaskRing l)
    (ha : TaskAdded s t task (newTask task process privileged entryPoint esp))
    (hring : LinkRing t.nextTask t.prevTask s.currentTask (task :: l)) (hdir : s.HasDirectory process) :
    t.TaskRing (task :: l) := by
  have hcur : t.currentTask = s.currentTask := by rw [ha.rest]
  have hprocs : t.procs = s.procs := by rw [ha.rest]
  have hhandles : t.handles = s.handles := by rw [ha.rest]
  have htables : t.tables = s.tables := by rw [ha.rest]
  have hprocess : t.processOf = Function.update s.processOf task (some process) :=
    ha.view fun _ => rfl
  refine ⟨by rwa [hcur], ?_, ?_, ?_⟩
  · rw [hcur]
    intro a ha'
    rcases List.mem_cons.mp ha' with rfl | ha'
    · exact h.ne_null _ List.mem_cons_self
    rcases List.mem_cons.mp ha' with rfl | ha'
    · exact ha.ne_null
    · exact h.ne_null a (List.mem_cons_of_mem _ ha')
  · rw [hcur]
    intro a ha'
    by_cases hat : a = task
    · subst hat
      exact ⟨process, by rw [hprocess, Function.update_self], hdir.congr hprocs hhandles htables⟩
    · obtain ⟨p, hp, hdir'⟩ := h.directory a (by simpa [hat] using ha')
      exact ⟨p, by rw [hprocess, Function.update_of_ne hat, hp],
        hdir'.congr hprocs hhandles htables⟩
  · rw [hcur, ← h.esp0, ha.rest]

end

/-! ## Runs -/

namespace TaskSession

variable {s t : TaskSession} {call : TaskCall}

theorem step_inv (hs : s.Inv) (h : Step s call t) : t.Inv := by
  obtain ⟨⟨l, hring⟩, hframes⟩ := hs
  cases h with
  | timer h =>
    have hi := int0x20Handler_ok h (hring.ne_null _ List.mem_cons_self)
    obtain ⟨l', hl'⟩ := hring.interrupted hi
    exact ⟨⟨l', hl'⟩, by rw [hi.saved, hframes]⟩
  | @create process task entryPoint esp privileged k hdir h =>
    rcases taskNew_ok h hring.ring with ⟨rfl, rfl⟩ | ⟨ha, hring'⟩
    · exact ⟨⟨l, hring.ring, hring.ne_null, hring.directory, hring.esp0⟩, hframes⟩
    · refine ⟨⟨task :: l, hring.added ha hring' hdir⟩, ?_⟩
      rw [if_neg ha.ne_null, hframes]
      exact (ha.view fun _ => rfl).symm

/-- After any run of timer interrupts and task creations, the handler returns the frame pointer of
the task that is then current. It writes no other task's, and neither does a creation. -/
theorem interrupts_resume {k : Kernel} {l : List Word} {calls : List TaskCall} (hk : k.TaskRing l)
    (hrun : Runs Step ⟨k, k.savedPointer⟩ calls s) :
    s.kernel.tssEsp0 = kstackEnd s.kernel.currentTask ∧
    (∀ frame, ∃ r k', int0x20Handler frame s.kernel = .ok (r, k') ∧
      Function.update s.frames s.kernel.currentTask (some frame) k'.currentTask = some r ∧
      (∀ a, a ≠ s.kernel.currentTask → k'.savedPointer a = s.kernel.savedPointer a) ∧
      k'.tssEsp0 = kstackEnd k'.currentTask) ∧
    (∀ process privileged entryPoint esp task k',
      taskNew process privileged entryPoint esp s.kernel = .ok (task, k') → task ≠ 0 →
        k'.savedPointer task = some (initialFrame task privileged entryPoint esp) ∧
        (k'.tasks task).map Task.kstack =
          some (pushedFrame (initialRegisters privileged entryPoint esp)) ∧
        ∀ a, a ≠ task → k'.savedPointer a = s.kernel.savedPointer a) := by
  have hstart : Inv ⟨k, k.savedPointer⟩ := ⟨⟨l, hk⟩, rfl⟩
  obtain ⟨⟨l, hring⟩, hframes⟩ : s.Inv :=
    hrun.invariant (fun _ _ _ hs hstep => step_inv hs hstep) hstart
  refine ⟨hring.esp0, fun frame => ?_, ?_⟩
  · obtain ⟨r, k', h⟩ := hring.handler_returns frame
    have hi := int0x20Handler_ok h (hring.ne_null _ List.mem_cons_self)
    obtain ⟨l', hl'⟩ := hring.interrupted hi
    refine ⟨r, k', h, ?_, fun a ha => ?_, hl'.esp0⟩
    · rw [hframes, ← hi.saved, hi.returned]
    · rw [hi.saved, Function.update_of_ne ha]
  · intro process privileged entryPoint esp task k' h hne
    obtain ⟨ha, -⟩ := (taskNew_ok h hring.ring).resolve_left fun h => hne h.1
    have hsaved : k'.savedPointer = Function.update s.kernel.savedPointer task
      (some (initialFrame task privileged entryPoint esp)) := ha.view fun _ => rfl
    refine ⟨by rw [hsaved, Function.update_self], ?_, fun a hne => ?_⟩
    · have hk : (fun a => (k'.tasks a).map Task.kstack) = _ := ha.view fun _ => rfl
      rw [show (k'.tasks task).map Task.kstack = _ from congrFun hk task, Function.update_self]
      simp [newTask, Task.push, initialTask]
    · rw [hsaved, Function.update_of_ne hne]

end TaskSession

theorem twoTasks_taskRing : twoTasks.TaskRing [0xC0230000] := by
  have hdir : ∀ p, p = 0xC0200000 ∨ p = 0xC0210000 → twoTasks.HasDirectory p := by
    rintro p (rfl | rfl)
    · exact ⟨by decide, _, rfl, by decide, _, rfl, by decide, nofun⟩
    · exact ⟨by decide, _, rfl, by decide, _, rfl, by decide, nofun⟩
  have hcur : twoTasks.currentTask = 0xC0110000 := rfl
  refine ⟨⟨by decide, ?_⟩, by rw [hcur]; simp, ?_, rfl⟩
  · exact .cons_cons ⟨rfl, rfl⟩ (.cons_cons ⟨rfl, rfl⟩ (.singleton _))
  · rw [hcur]
    intro a ha
    rcases List.mem_pair.mp ha with rfl | rfl
    · exact ⟨0xC0200000, rfl, hdir _ (.inl rfl)⟩
    · exact ⟨0xC0210000, rfl, hdir _ (.inr rfl)⟩

theorem TaskSession.interrupts_resume_twoTasks : ∃ s,
    Runs Step ⟨twoTasks, twoTasks.savedPointer⟩ [.timer 0xC0113F00] s ∧
    s.kernel.tssEsp0 = kstackEnd s.kernel.currentTask ∧
    ∃ r k', int0x20Handler 0xC0233F00 s.kernel = .ok (r, k') ∧
      k'.tssEsp0 = kstackEnd k'.currentTask := by
  obtain ⟨r, k, h⟩ := twoTasks_taskRing.handler_returns 0xC0113F00
  have hrun : Runs Step ⟨twoTasks, twoTasks.savedPointer⟩ [.timer 0xC0113F00] _ :=
    .cons (.timer h) (.nil _)
  obtain ⟨hesp, hnext, -⟩ := interrupts_resume twoTasks_taskRing hrun
  obtain ⟨r', k', h', -, -, hesp'⟩ := hnext 0xC0233F00
  exact ⟨_, hrun, hesp, r', k', h', hesp'⟩

end AvocadOS
