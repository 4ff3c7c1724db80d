import AvocadOS.Kernel.Isolation

/-!
# What is current

`current_task`, `current_process`, `current_directory` and CR3 are four variables. `schedule` writes
the first and the last of them, `paging_switch_directory` and `__switch_task` would write the others.

* `Kernel.Consistent`: they agree;
* `Session.Tasking.step_consistent`: a creation keeps that, a timer interrupt breaks it;
* `Session.consistent_iff`: they agree along a run if and only if it has no timer interrupt.
-/

namespace AvocadOS

open Kernel

structure Kernel.Consistent (s : Kernel) : Prop where
  process : s.processOf s.currentTask = some s.currentProcess
  directory : s.pageDirectoryOf s.currentTask = some s.currentDirectory
  cr3 : s.directoryAddr s.currentDirectory = some s.cr3

inductive TaskingCall where
  | create (name : List Byte) (memory : Word) (memorySize : Nat) (privileged : Bool) (slot : Nat)
  | timer (frame : Word)
  | schedule (frame : Word)
  | other

/-- A call of `schedule`, by the timer interrupt or not. -/
def TaskingCall.Schedules : TaskingCall → Prop
  | .timer _ | .schedule _ => True
  | _ => False

namespace Session

/-- The steps after `tasking_init`. The image of a process is a block of the heap. -/
inductive TaskingStep : Session → TaskingCall → Session → Prop
  | create {s t : Session} {name : List Byte} {memory : Word} {memorySize slot : Nat}
      {privileged : Bool} (h : FitStep s (.create name memory memorySize privileged slot) t) :
      TaskingStep s (.create name memory memorySize privileged slot) t
  | timer {s : Session} {frame r : Word} {k : Kernel}
      (h : int0x20Handler frame s.kernel = .ok (r, k)) : TaskingStep s (.timer frame) ⟨k, s.created⟩
  | schedule {s : Session} {frame r : Word} {k : Kernel}
      (h : schedule frame s.kernel = .ok (r, k)) : TaskingStep s (.schedule frame) ⟨k, s.created⟩
  | other {s : Session} {k : Kernel} (h : OtherWork s.kernel k) : TaskingStep s .other ⟨k, s.created⟩

/-- After `tasking_init` there are two processes or more. -/
structure Tasking (s : Session) : Prop where
  spaces : s.Spaces
  two : 2 ≤ s.created.length

variable {s t : Session} {call : TaskingCall}

theorem Tasking.ne_nil (h : s.Tasking) : s.created ≠ [] :=
  List.ne_nil_of_length_pos (Nat.lt_of_lt_of_le (by decide) h.two)

/-- Every step is one of a session, where the timer interrupt is a call of `schedule`. -/
theorem TaskingStep.fitStep (h : TaskingStep s call t) : ∃ call', FitStep s call' t := by
  cases h with
  | create h => exact ⟨_, h⟩
  | timer h =>
    obtain ⟨r', u, h', h⟩ := bind_ok h
    obtain ⟨-, y, -, h⟩ := Store.bind_load_ok (bind_get_ok h)
    obtain ⟨-, rfl⟩ := pure_ok h
    exact ⟨_, .schedule h', trivial⟩
  | schedule h => exact ⟨_, .schedule h, trivial⟩
  | other h => exact ⟨_, .other h, trivial⟩

theorem step_tasking (hs : s.Tasking) (h : TaskingStep s call t) : t.Tasking := by
  obtain ⟨call', h'⟩ := h.fitStep
  refine ⟨step_spaces hs.spaces h', ?_⟩
  have htwo := hs.two
  cases h with
  | create h =>
    obtain ⟨h, -⟩ := h
    cases h
    simp only [List.length_append]
    omega
  | timer h => exact htwo
  | schedule h => exact htwo
  | other h => exact htwo

/-! ## The steps -/

/-- With two tasks or more, `schedule` goes to another task, of another process. -/
theorem Tasking.interrupted_ne {k : Kernel} {frame r : Word} (hs : s.Tasking)
    (hi : Interrupted s.kernel k frame r) :
    s.kernel.processOf k.currentTask ≠ s.kernel.processOf s.kernel.currentTask := by
  have hrings := hs.spaces.inv.rings hs.ne_nil
  obtain ⟨l, hring, hperm⟩ := hrings.tasks
  have htwo := hs.two
  have hlen : l.length + 1 = s.created.length := by
    have := hperm.length_eq
    rwa [List.length_cons, List.length_map] at this
  obtain ⟨b, l, rfl⟩ := List.exists_cons_of_ne_nil (List.ne_nil_of_length_pos (l := l) (by omega))
  obtain rfl : b = k.currentTask := Option.some.inj (hring.next_cons.symm.trans hi.next)
  have hne : s.kernel.currentTask ≠ k.currentTask := by
    intro he
    exact (List.nodup_cons.mp hring.nodup).1 (by simp [he])
  obtain ⟨p, hp, hpt⟩ := List.mem_map.mp (hperm.mem_iff.mp List.mem_cons_self)
  obtain ⟨q, hq, hqt⟩ := List.mem_map.mp
    (hperm.mem_iff.mp (List.mem_cons_of_mem _ List.mem_cons_self))
  intro he
  rw [← hpt, ← hqt, hrings.back p hp, hrings.back q hq] at he
  obtain rfl : q = p := Option.some.inj he
  exact hne (hpt.symm.trans hqt)

theorem Tasking.not_consistent {k : Kernel} {frame r : Word} (hs : s.Tasking)
    (hc : s.kernel.Consistent) (hi : Interrupted s.kernel k frame r) : ¬ k.Consistent := by
  intro hk
  refine hs.interrupted_ne hi ?_
  have hprocess : k.currentProcess = s.kernel.currentProcess := by rw [hi.rest]
  rw [← hi.processOf, hk.process, hi.processOf, hc.process, hprocess]

end Session

/-- A directory that stays is at the same address. -/
theorem Extends.directoryAddr {s t : Kernel} {h a : Word} (hkept : Extends s t)
    (ha : s.directoryAddr h = some a) : t.directoryAddr h = some a := by
  obtain ⟨hd, hhd, ha⟩ := Option.bind_eq_some_iff.mp ha
  obtain ⟨d, hd', rfl⟩ := Option.map_eq_some_iff.mp ha
  simp [Kernel.directoryAddr, hkept.handles _ _ hhd, hkept.tables _ _ hd']

/-- A process that is linked in is not the current one. -/
theorem ProcessAdded.consistent {s t : Kernel} {process task : Word} {x : Process}
    (h : ProcessAdded s t process task x) (hkept : Extends s t) (hs : s.Consistent) :
    t.Consistent := by
  have hcur : t.currentTask = s.currentTask := by rw [h.rest]
  have hprocess : t.currentProcess = s.currentProcess := by rw [h.rest]
  have hdir : t.currentDirectory = s.currentDirectory := by rw [h.rest]
  have hcr3 : t.cr3 = s.cr3 := by rw [h.rest]
  have hne : s.currentTask ≠ task := by
    intro he
    have := hs.process
    rw [he, Kernel.processOf, h.task_fresh] at this
    simp at this
  have hof : t.processOf s.currentTask = some s.currentProcess := by
    rw [h.processOf, Function.update_of_ne hne, hs.process]
  have hdirOf := hs.directory
  rw [Kernel.pageDirectoryOf, hs.process, Option.bind_some] at hdirOf
  have hne' : s.currentProcess ≠ process := by
    intro he
    rw [he, h.fresh] at hdirOf
    simp at hdirOf
  have hmap : ∀ o : Option Process,
      o.map Process.pageDirectory = (o.map Process.unlinked).map Process.pageDirectory := by
    intro o
    cases o <;> rfl
  refine ⟨by rw [hcur, hprocess, hof], ?_, by rw [hdir, hcr3]; exact hkept.directoryAddr hs.cr3⟩
  rw [hcur, hdir, Kernel.pageDirectoryOf, hof, Option.bind_some, hmap, h.old _ hne', ← hmap, hdirOf]

namespace Session

variable {s t : Session} {call : TaskingCall}

theorem step_consistent (hs : s.Tasking) (hc : s.kernel.Consistent) (h : TaskingStep s call t) :
    t.kernel.Consistent ↔ ¬ call.Schedules := by
  have hcur := hs.spaces.inv.current hs.ne_nil
  cases h with
  | create h =>
    refine iff_of_true ?_ id
    obtain ⟨h, hfits⟩ := h
    cases h with
    | @create k _ _ _ _ _ _ _ _ h =>
      obtain ⟨sys, l, ps, process, task, x, hcreated, -, -, hspace⟩ :=
        hs.spaces.create hs.ne_nil hfits h
      exact hcreated.toProcessAdded.consistent hspace.kept hc
  | timer h => exact iff_of_false (hs.not_consistent hc (int0x20Handler_ok h hcur)) fun h => h trivial
  | schedule h => exact iff_of_false (hs.not_consistent hc (schedule_ok h hcur)) fun h => h trivial
  | other h =>
    refine iff_of_true ?_ id
    rw [OtherWork] at h
    rw [h]
    exact ⟨hc.process, hc.directory, hc.cr3⟩

/-! ## Runs -/

theorem runs_consistent (hs : s.Tasking) (hc : s.kernel.Consistent) {calls : List TaskingCall}
    (hrun : Runs TaskingStep s calls t) (hcalls : ∀ c ∈ calls, ¬ c.Schedules) :
    t.Tasking ∧ t.kernel.Consistent := by
  induction hrun with
  | nil s => exact ⟨hs, hc⟩
  | cons hstep _ ih =>
    exact ih (step_tasking hs hstep) ((step_consistent hs hc hstep).mpr (hcalls _ List.mem_cons_self))
      fun c hc => hcalls c (List.mem_cons_of_mem _ hc)

/-- All states of a run are consistent. -/
def AllConsistent (s : Session) (calls : List TaskingCall) (t : Session) : Prop :=
  ∀ pre post m, calls = pre ++ post → Runs TaskingStep s pre m → Runs TaskingStep m post t →
    m.kernel.Consistent

theorem Tasking.allConsistent_iff (hs : s.Tasking) (hc : s.kernel.Consistent)
    {calls : List TaskingCall} (hrun : Runs TaskingStep s calls t) :
    AllConsistent s calls t ↔ ∀ c ∈ calls, ¬ c.Schedules := by
  refine ⟨fun hall => ?_, fun hcalls pre post m hcat hpre _ => ?_⟩
  · induction hrun with
    | nil s => simp
    | @cons s m t call calls hstep hrest ih =>
      have hm : m.kernel.Consistent :=
        hall [call] calls m rfl (.cons hstep (.nil m)) hrest
      intro c hmem
      rcases List.mem_cons.mp hmem with rfl | hmem
      · exact (step_consistent hs hc hstep).mp hm
      · refine ih (step_tasking hs hstep) hm (fun pre post m' hcat hpre hpost => ?_) c hmem
        exact hall (call :: pre) post m' (by rw [hcat]; rfl) (.cons hstep hpre) hpost
  · refine (runs_consistent hs hc hpre fun c hmem => hcalls c ?_).2
    rw [hcat]
    exact List.mem_append_left _ hmem

end Session

/-! ## From the boot on -/

section

variable {k₀ k k' m : Kernel} {x y : Unit}

theorem SystemCreated.consistent {process : Word} (hp : Paged k₀ k) (hother : OtherWork k k')
    (h : SystemCreated k' m process) : m.Consistent := by
  rw [OtherWork] at hother
  obtain ⟨hd, dir, hker, hcr3⟩ := hp.directory
  have himage : k'.image = k₀.image := by rw [hother, hp.rest]
  have hcur : m.currentTask = k'.image.systemTask := by rw [h.rest]
  have hdir : m.currentDirectory = k₀.image.kernelPageDirectory := by rw [h.rest, hother, hp.rest]
  obtain ⟨z, hz, -, -, hzdir⟩ := h.process
  refine ⟨?_, ?_, ?_⟩
  · rw [hcur, h.systemTask, h.rest]
  · rw [hcur, hdir, Kernel.pageDirectoryOf, h.systemTask, Option.bind_some, hz, Option.map_some, hzdir,
      himage]
  · have hkept : Extends k m :=
      .of_eq (by rw [h.rest, hother]) (by rw [h.rest, hother])
    have hcr3' : m.cr3 = k.cr3 := by rw [h.rest, hother]
    rw [hdir, hcr3', hcr3]
    exact hkept.directoryAddr hker.directoryAddr

/-- The state after `tasking_init`, when there was memory for the task of the idle process. -/
theorem taskingInit_ok (hp : Paged k₀ k) (hcur : k₀.currentTask = 0)
    (hslots : ∀ pid, k₀.processes pid = 0) (hother : OtherWork k k')
    (h : taskingInit k' = .ok (x, m)) (htask : (m.procs (m.processes 1)).map Process.task ≠ some 0) :
    Session.Tasking ⟨m, [m.processes 0, m.processes 1]⟩ ∧ m.Consistent := by
  obtain ⟨_, u, hsystem, hidle⟩ := bind_ok h
  have hs₀ : Session.Spaces ⟨k', []⟩ :=
    Session.step_spaces (.start hp hcur hslots) ⟨.other hother, trivial⟩
  have hs₁ : Session.Spaces ⟨u, [u.processes 0]⟩ :=
    Session.step_spaces hs₀ ⟨.system rfl hsystem, trivial⟩
  have hs₂ : Session.Spaces ⟨m, [u.processes 0] ++ [m.processes 1]⟩ :=
    Session.step_spaces hs₁ ⟨.idle rfl hidle htask, trivial⟩
  obtain ⟨process, hc⟩ := initSystemProcess_ok hsystem
  obtain ⟨l, hring, -⟩ := (hs₁.inv.rings (List.cons_ne_nil _ _)).tasks
  obtain ⟨sys, ps, -, hsys, hprocs⟩ := (hs₁.inv.rings (List.cons_ne_nil _ _)).procs
  obtain ⟨htables, hhandles, process', task, z, hc', -⟩ :=
    initIdleProcess_ok hring hsys hprocs hidle htask
  have hzero : m.processes 0 = u.processes 0 := by
    rw [hc'.processes, Function.update_of_ne (by decide)]
  rw [hzero]
  exact ⟨⟨hs₂, Nat.le_refl 2⟩,
    hc'.toProcessAdded.consistent (.of_eq htables hhandles) (hc.consistent hp hother)⟩

end

namespace Session

/-- Along a run from `tasking_init` on, the four variables agree in all states if and only if the run
has no call of `schedule`. -/
theorem consistent_iff {k₀ k k' m : Kernel} {x y : Unit} {calls : List TaskingCall} {t : Session}
    (hboot : k₀.Boot) (hpaging : pagingInit k₀ = .ok (x, k)) (hcur : k₀.currentTask = 0)
    (hslots : ∀ pid, k₀.processes pid = 0) (hother : OtherWork k k')
    (htasking : taskingInit k' = .ok (y, m))
    (htask : (m.procs (m.processes 1)).map Process.task ≠ some 0)
    (hrun : Runs TaskingStep ⟨m, [m.processes 0, m.processes 1]⟩ calls t) :
    AllConsistent ⟨m, [m.processes 0, m.processes 1]⟩ calls t ↔ ∀ c ∈ calls, ¬ c.Schedules := by
  obtain ⟨hs, hc⟩ := taskingInit_ok (pagingInit_ok hboot hpaging) hcur hslots hother htasking htask
  exact hs.allConsistent_iff hc hrun

theorem taskingInit_bootTasks : taskingInit bootDone = .ok ((), bootTasks.kernel) := by
  have hsystem : initSystemProcess bootDone = .ok ((), bootDone.after initSystemProcess) := rfl
  have hidle : initIdleProcess (bootDone.after initSystemProcess) = .ok ((), bootTasks.kernel) := rfl
  rw [taskingInit, bind_eq hsystem, hidle]

theorem bootTasks_task :
    (bootTasks.kernel.procs (bootTasks.kernel.processes 1)).map Process.task ≠ some 0 := by
  decide +kernel

theorem bootTasks_created :
    [bootTasks.kernel.processes 0, bootTasks.kernel.processes 1] = bootTasks.created := by
  decide +kernel

theorem consistent_iff_bootTasks : ∃ t,
    Runs TaskingStep bootTasks [.create [] 0xC0150000 4096 false 2] t ∧
    AllConsistent bootTasks [.create [] 0xC0150000 4096 false 2] t := by
  obtain ⟨t, hstep⟩ := bootTasks_create
  have hrun : Runs TaskingStep bootTasks [.create [] 0xC0150000 4096 false 2] t :=
    .cons (.create hstep) (.nil t)
  have h := @consistent_iff bootExample bootDone bootDone bootTasks.kernel () ()
    [.create [] 0xC0150000 4096 false 2] t bootExample_boot pagingInit_bootExample rfl
    (fun _ => rfl) rfl taskingInit_bootTasks bootTasks_task
  rw [bootTasks_created] at h
  exact ⟨t, hrun, (h hrun).mpr (by simp [TaskingCall.Schedules])⟩

/-- After the first timer interrupt the idle task is current, and still the system process. -/
theorem timer_not_consistent : bootTasks.kernel.Consistent ∧
    ∃ r k, int0x20Handler 0xC0113F00 bootTasks.kernel = .ok (r, k) ∧ ¬ k.Consistent := by
  have hother : OtherWork bootDone bootDone := rfl
  obtain ⟨hs, hc⟩ := taskingInit_ok (pagingInit_ok bootExample_boot pagingInit_bootExample) rfl
    (fun _ => rfl) hother taskingInit_bootTasks bootTasks_task
  obtain ⟨r, k, h⟩ : ∃ r k, int0x20Handler 0xC0113F00 bootTasks.kernel = .ok (r, k) := ⟨_, _, rfl⟩
  exact ⟨hc, r, k, h, hs.not_consistent hc (int0x20Handler_ok h (hs.spaces.inv.current hs.ne_nil))⟩

end Session

end AvocadOS
