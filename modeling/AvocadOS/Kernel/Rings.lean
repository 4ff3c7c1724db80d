import AvocadOS.Kernel.Creation
import Mathlib.Tactic.ByContra

/-!
# The rings of tasks and processes

A session is a run of creations and of calls of `schedule`, from a state with no task; `created`
are the processes in the order of their creation. Between them the kernel may do other work, such as
reading files and allocating, that touches neither tasks, processes nor page tables.

* `Rings`: what the rings, `process->task` and `processes[]` are, in terms of `created`;
* `Session.step_rings`: every step keeps it;
* `Session.runs_rings`: it holds after every run.
-/

namespace AvocadOS

open Kernel

namespace Kernel

/-- `process->task`. -/
def taskOf (s : Kernel) (process : Word) : Word := (s.procs process).elim 0 Process.task

/-- `process->pid`. -/
def pidOf (s : Kernel) (process : Word) : Nat := (s.procs process).elim 0 Process.pid

structure Rings (s : Kernel) (created : List Word) : Prop where
  /-- From `current_task`, `next` visits the task of every process once and comes back. -/
  tasks : ∃ l, LinkRing s.nextTask s.prevTask s.currentTask l ∧
    (s.currentTask :: l).Perm (created.map s.taskOf)
  /-- From the system process, `next` visits the processes in order and comes back. -/
  procs : ∃ sys ps, created = sys :: ps ∧ s.systemProcess = some sys ∧
    LinkRing s.nextProc s.prevProc sys ps
  ne_null : ∀ p ∈ created, p ≠ 0
  back : ∀ p ∈ created, s.processOf (s.taskOf p) = some p
  slot : ∀ p ∈ created, s.processes (s.pidOf p) = p
  used : ∀ pid, s.processes pid ≠ 0 →
    s.processes pid ∈ created ∧ s.pidOf (s.processes pid) = pid
  pids : (created.map s.pidOf).Nodup

/-- Work that touches neither tasks, processes nor page tables. -/
def OtherWork (s t : Kernel) : Prop :=
  t = { s with
    requests := t.requests
    blocks := t.blocks
    raw := t.raw
    files := t.files
    roots := t.roots
    parts := t.parts
    strings := t.strings
    items := t.items
    descriptors := t.descriptors
    fileTable := t.fileTable
    fsPrivate := t.fsPrivate
    dev := t.dev }

end Kernel

structure Session where
  kernel : Kernel
  created : List Word

inductive KernelCall where
  | system
  | idle
  | create (name : List Byte) (memory : Word) (memorySize : Nat) (privileged : Bool) (slot : Nat)
  | schedule (frame : Word)
  | other

namespace Session

/-- The two processes of `tasking_init` come first, then others at free slots. A creation is
successful: `process_init` returns `0`, the idle process has a task. -/
inductive Step : Session → KernelCall → Session → Prop
  | system {s : Session} {k : Kernel} (hfirst : s.created = [])
      (h : initSystemProcess s.kernel = .ok ((), k)) : Step s .system ⟨k, [k.processes 0]⟩
  | idle {s : Session} {k : Kernel} (hsecond : s.created.length = 1)
      (h : initIdleProcess s.kernel = .ok ((), k))
      (htask : (k.procs (k.processes 1)).map Process.task ≠ some 0) :
      Step s .idle ⟨k, s.created ++ [k.processes 1]⟩
  | create {s : Session} {k : Kernel} {name : List Byte} {memory : Word} {memorySize slot : Nat}
      {privileged : Bool} (hlater : 2 ≤ s.created.length) (hslot : slot < MAX_PROCESSES)
      (hfree : s.kernel.processes slot = 0)
      (h : processInit name memory memorySize privileged slot s.kernel = .ok (0, k)) :
      Step s (.create name memory memorySize privileged slot)
        ⟨k, s.created ++ [k.processes slot]⟩
  | schedule {s : Session} {k : Kernel} {frame r : Word}
      (h : schedule frame s.kernel = .ok (r, k)) : Step s (.schedule frame) ⟨k, s.created⟩
  | other {s : Session} {k : Kernel} (h : OtherWork s.kernel k) : Step s .other ⟨k, s.created⟩

/-- Before the first creation there is no task and no process; afterwards there are the rings. -/
structure Inv (s : Session) : Prop where
  before : s.created = [] → s.kernel.currentTask = 0 ∧ ∀ pid, s.kernel.processes pid = 0
  current : s.created ≠ [] → s.kernel.currentTask ≠ 0
  rings : s.created ≠ [] → s.kernel.Rings s.created
  first : ∀ p, s.created = [p] → s.kernel.pidOf p = 0

end Session

/-! ## The steps -/

section

variable {s t : Kernel} {created l ps : List Word} {process task sys frame r : Word} {slot : Nat}
  {x : Process}

theorem SystemCreated.rings (h : SystemCreated s t process) (hnone : ∀ pid, s.processes pid = 0) :
    t.Rings [process] := by
  obtain ⟨y, hy, hpid, htask, -⟩ := h.process
  have hcur : t.currentTask = s.image.systemTask := by rw [h.rest]
  have himage : t.image = s.image := by rw [h.rest]
  have hslots : t.processes = Function.update s.processes 0 process := by rw [h.rest]
  have htaskOf : t.taskOf process = s.image.systemTask := by simp [Kernel.taskOf, hy, htask]
  have hpidOf : t.pidOf process = 0 := by simp [Kernel.pidOf, hy, hpid]
  refine ⟨⟨[], by rw [hcur]; exact h.taskRing, ?_⟩, ⟨process, [], rfl, ?_, h.procRing⟩, ?_, ?_, ?_, ?_, ?_⟩
  · rw [hcur, List.map_singleton, htaskOf]
  · rw [Kernel.systemProcess, himage]
    exact h.systemTask
  · intro p hp
    obtain rfl := List.mem_singleton.mp hp
    exact h.ne_null
  · intro p hp
    obtain rfl := List.mem_singleton.mp hp
    rw [htaskOf, h.systemTask]
  · intro p hp
    obtain rfl := List.mem_singleton.mp hp
    rw [hpidOf, hslots, Function.update_self]
  · intro pid hne
    by_cases h0 : pid = 0
    · subst h0
      rw [hslots, Function.update_self]
      exact ⟨List.mem_singleton.mpr rfl, hpidOf⟩
    · rw [hslots, Function.update_of_ne h0, hnone] at hne
      exact absurd rfl hne
  · simp

/-- The created processes are processes. -/
theorem Kernel.Rings.ne_none (h : s.Rings created) {p : Word} (hp : p ∈ created) :
    s.procs p ≠ none := by
  obtain ⟨sys, ps, rfl, -, hring⟩ := h.procs
  exact ring_proc_ne_none hring hp

/-- What can be seen of processes without their links, after one was added. -/
theorem ProcessAdded.elim_eq {β : Type} (h : ProcessAdded s t process task x) (b : β) {f : Process → β}
    (hf : ∀ y, f y.unlinked = f y) :
    (t.procs process).elim b f = f (x.setTask task) ∧
      ∀ a, a ≠ process → (t.procs a).elim b f = (s.procs a).elim b f := by
  have hmap : ∀ o : Option Process, o.elim b f = (o.map Process.unlinked).elim b f := by
    intro o
    cases o <;> simp [hf]
  refine ⟨?_, fun a ha => ?_⟩
  · rw [hmap, h.new]
    exact hf _
  · rw [hmap, h.old a ha, ← hmap]

theorem Created.rings (hrings : s.Rings created) (hcreated : created = sys :: ps)
    (hl : (s.currentTask :: l).Perm (created.map s.taskOf)) (hfree : s.processes slot = 0)
    (h : Created s t slot sys l ps process task x) (hsys : s.systemProcess = some sys) :
    t.Rings (created ++ [process]) := by
  have hadd := h.toProcessAdded
  have hnew : process ∉ created := fun hp => hrings.ne_none hp hadd.fresh
  have hne : ∀ p ∈ created, p ≠ process := fun p hp he => hnew (he ▸ hp)
  have hcur : t.currentTask = s.currentTask := by rw [hadd.rest]
  have himage : t.image = s.image := by rw [hadd.rest]
  have htaskOf : t.taskOf process = task ∧ ∀ a, a ≠ process → t.taskOf a = s.taskOf a :=
    hadd.elim_eq 0 (f := Process.task) fun _ => rfl
  have hpidOf : t.pidOf process = x.pid ∧ ∀ a, a ≠ process → t.pidOf a = s.pidOf a :=
    hadd.elim_eq 0 (f := Process.pid) fun _ => rfl
  rw [h.pid] at hpidOf
  have htasks : (created ++ [process]).map t.taskOf = created.map s.taskOf ++ [task] := by
    rw [List.map_append, List.map_singleton, htaskOf.1]
    congr 1
    exact List.map_congr_left fun p hp => htaskOf.2 p (hne p hp)
  have hpids : (created ++ [process]).map t.pidOf = created.map s.pidOf ++ [slot] := by
    rw [List.map_append, List.map_singleton, hpidOf.1]
    congr 1
    exact List.map_congr_left fun p hp => hpidOf.2 p (hne p hp)
  -- the slot was free, so no process has its number
  have hslotne : ∀ p ∈ created, s.pidOf p ≠ slot := by
    intro p hp he
    have := hrings.slot p hp
    rw [he, hfree] at this
    exact hrings.ne_null p hp this.symm
  -- the task is new, so no process has it
  have htaskne : ∀ p ∈ created, s.taskOf p ≠ task := by
    intro p hp he
    have := hrings.back p hp
    rw [he, Kernel.processOf, hadd.task_fresh] at this
    simp at this
  refine ⟨⟨task :: l, by rw [hcur]; exact h.taskRing, ?_⟩,
    ⟨sys, ps ++ [process], by rw [hcreated]; rfl, ?_, h.procRing⟩, ?_, ?_, ?_, ?_, ?_⟩
  · rw [hcur, htasks]
    exact (List.Perm.swap _ _ _).trans ((hl.cons task).trans (List.perm_append_singleton _ _).symm)
  · have hne' : s.image.systemTask ≠ task := by
      intro he
      rw [Kernel.systemProcess, he, hadd.task_fresh] at hsys
      simp at hsys
    have := congrFun hadd.processOf s.image.systemTask
    rw [Function.update_of_ne hne'] at this
    rw [Kernel.systemProcess, himage]
    exact this.trans hsys
  · intro p hp
    rcases List.mem_append.mp hp with hp | hp
    · exact hrings.ne_null p hp
    · obtain rfl := List.mem_singleton.mp hp
      exact hadd.ne_null
  · intro p hp
    rcases List.mem_append.mp hp with hp | hp
    · rw [htaskOf.2 p (hne p hp), hadd.processOf, Function.update_of_ne (htaskne p hp),
        hrings.back p hp]
    · obtain rfl := List.mem_singleton.mp hp
      rw [htaskOf.1, hadd.processOf, Function.update_self]
  · intro p hp
    rcases List.mem_append.mp hp with hp | hp
    · rw [hpidOf.2 p (hne p hp), h.processes, Function.update_of_ne (hslotne p hp),
        hrings.slot p hp]
    · obtain rfl := List.mem_singleton.mp hp
      rw [hpidOf.1, h.processes, Function.update_self]
  · intro pid hpid
    by_cases he : pid = slot
    · subst he
      rw [h.processes, Function.update_self]
      exact ⟨by simp, hpidOf.1⟩
    · rw [h.processes, Function.update_of_ne he] at hpid ⊢
      obtain ⟨hmem, hpid'⟩ := hrings.used pid hpid
      exact ⟨List.mem_append_left _ hmem, by rw [hpidOf.2 _ (hne _ hmem), hpid']⟩
  · rw [hpids, List.nodup_append]
    refine ⟨hrings.pids, by simp, ?_⟩
    intro a ha b hb
    obtain ⟨p, hp, rfl⟩ := List.mem_map.mp ha
    obtain rfl := List.mem_singleton.mp hb
    exact hslotne p hp

theorem Kernel.Interrupted.rings (hi : Interrupted s t frame r) (h : s.Rings created) :
    t.Rings created := by
  obtain ⟨l, hring, hperm⟩ := h.tasks
  obtain ⟨l', hring', hperm'⟩ := hi.ring hring
  have hprocs : t.procs = s.procs := by rw [hi.rest]
  have hslots : t.processes = s.processes := by rw [hi.rest]
  have himage : t.image = s.image := by rw [hi.rest]
  have htaskOf : t.taskOf = s.taskOf := by funext p; rw [Kernel.taskOf, hprocs, Kernel.taskOf]
  have hpidOf : t.pidOf = s.pidOf := by funext p; rw [Kernel.pidOf, hprocs, Kernel.pidOf]
  obtain ⟨sys, ps, hcreated, hsys, hprocRing⟩ := h.procs
  refine ⟨⟨l', hring', by rw [htaskOf]; exact hperm'.trans hperm⟩, ⟨sys, ps, hcreated, ?_, ?_⟩,
    h.ne_null, ?_, ?_, ?_, by rw [hpidOf]; exact h.pids⟩
  · rw [← hsys, Kernel.systemProcess, himage]
    exact congrFun hi.processOf _
  · rwa [(proc_links_congr hprocs).1, (proc_links_congr hprocs).2]
  · rw [htaskOf, hi.processOf]
    exact h.back
  · rw [hpidOf, hslots]
    exact h.slot
  · rw [hpidOf, hslots]
    exact h.used

/-- The rings depend on tasks, processes and `processes[]` only. -/
theorem Kernel.Rings.congr (h : s.Rings created) (hw : OtherWork s t) : t.Rings created := by
  rw [OtherWork] at hw
  rw [hw]
  exact ⟨h.tasks, h.procs, h.ne_null, h.back, h.slot, h.used, h.pids⟩

end

namespace Session

variable {s t : Session} {call : KernelCall}

/-- A creation at a free slot. -/
theorem Inv.created {k : Kernel} {slot : Nat} (hs : s.Inv) (hne : s.created ≠ [])
    (hfree : s.kernel.processes slot = 0)
    (h : ∀ l sys ps, LinkRing s.kernel.nextTask s.kernel.prevTask s.kernel.currentTask l →
      s.kernel.systemProcess = some sys → LinkRing s.kernel.nextProc s.kernel.prevProc sys ps →
      ∃ process task x, Created s.kernel k slot sys l ps process task x) :
    Inv ⟨k, s.created ++ [k.processes slot]⟩ := by
  have hrings := hs.rings hne
  obtain ⟨l, hring, hperm⟩ := hrings.tasks
  obtain ⟨sys, ps, hcreated, hsys, hprocs⟩ := hrings.procs
  obtain ⟨process, task, x, hc⟩ := h l sys ps hring hsys hprocs
  have hslot : k.processes slot = process := by rw [hc.processes, Function.update_self]
  have hcur : k.currentTask = s.kernel.currentTask := by rw [hc.rest]
  rw [hslot]
  refine ⟨fun h => by simp at h, fun _ => by rw [hcur]; exact hs.current hne,
    fun _ => hc.rings hrings hcreated hperm hfree hsys, fun p hp => ?_⟩
  rw [hcreated] at hp
  simp at hp

theorem step_inv (hs : s.Inv) (h : Step s call t) : t.Inv := by
  cases h with
  | @system k hfirst h =>
    obtain ⟨hcur, hslots⟩ := hs.before hfirst
    obtain ⟨process, hc⟩ := initSystemProcess_ok h
    have hcur' : k.currentTask = s.kernel.image.systemTask := by rw [hc.rest]
    have hslot : k.processes 0 = process := by
      rw [hc.rest]
      exact Function.update_self 0 process s.kernel.processes
    obtain ⟨x, hx, hpid, -⟩ := hc.process
    rw [hslot]
    refine ⟨fun h => by simp at h, fun _ => hcur' ▸ hc.system_ne_null, fun _ => hc.rings hslots, ?_⟩
    intro p hp
    obtain rfl : process = p := by simpa using hp
    simp [Kernel.pidOf, hx, hpid]
  | @idle k hsecond h htask =>
    obtain ⟨p, hp⟩ := List.length_eq_one_iff.mp hsecond
    have hne : s.created ≠ [] := by simp [hp]
    refine hs.created hne ?_ fun l sys ps hring hsys hprocs => ?_
    swap
    · obtain ⟨-, -, process, task, x, hc, -⟩ := initIdleProcess_ok hring hsys hprocs h htask
      exact ⟨process, task, x, hc⟩
    -- the only process so far has the pid 0
    by_contra hused
    obtain ⟨hmem, hpid⟩ := (hs.rings hne).used 1 hused
    rw [hp, List.mem_singleton] at hmem
    rw [hmem, hs.first p hp] at hpid
    exact absurd hpid (by decide)
  | @create k name memory memorySize slot privileged hlater hslot hfree h =>
    exact hs.created (List.ne_nil_of_length_pos (by omega)) hfree
      fun l sys ps hring hsys hprocs => processInit_ok hring hsys hprocs h
  | @schedule k frame r h =>
    by_cases hne : s.created = []
    · rw [schedule_null h (hs.before hne).1]
      exact hs
    · have hi := schedule_ok h (hs.current hne)
      refine ⟨fun h => absurd h hne, fun _ => hi.ne_null, fun _ => hi.rings (hs.rings hne), ?_⟩
      intro p hp
      rw [← hs.first p hp, Kernel.pidOf, hi.rest, Kernel.pidOf]
  | @other k h =>
    have hw := h
    rw [OtherWork] at h
    refine ⟨fun hne => ?_, fun hne => ?_, fun hne => (hs.rings hne).congr hw, fun p hp => ?_⟩
    · rw [h]
      exact hs.before hne
    · rw [h]
      exact hs.current hne
    · rw [← hs.first p hp, h]
      rfl

theorem Inv.start {k : Kernel} (hcur : k.currentTask = 0) (hslots : ∀ pid, k.processes pid = 0) :
    Inv ⟨k, []⟩ :=
  ⟨fun _ => ⟨hcur, hslots⟩, fun h => absurd rfl h, fun h => absurd rfl h, fun p hp => by simp at hp⟩

/-- After every run of creations and calls of `schedule` the rings are well formed. -/
theorem runs_rings {k : Kernel} {calls : List KernelCall} (hcur : k.currentTask = 0)
    (hslots : ∀ pid, k.processes pid = 0) (hrun : Runs Step ⟨k, []⟩ calls s)
    (hne : s.created ≠ []) : s.kernel.Rings s.created := by
  exact (hrun.invariant (fun _ _ _ hs hstep => step_inv hs hstep) (.start hcur hslots)).rings hne

theorem runs_rings_twoTasks : ∃ s,
    Runs Step ⟨kernelExample, []⟩ [.system, .idle, .schedule 0xC0113F00] s ∧
    s.created = [0xC0200000, 0xC0210000] ∧ s.kernel.Rings s.created := by
  obtain ⟨k₁, h₁, hk₁⟩ : ∃ k, initSystemProcess kernelExample = .ok ((), k) ∧
    k = kernelExample.after initSystemProcess := ⟨_, rfl, rfl⟩
  obtain ⟨k₂, h₂, hk₂⟩ : ∃ k, initIdleProcess k₁ = .ok ((), k) ∧ k = k₁.after initIdleProcess := by
    subst hk₁
    exact ⟨_, rfl, rfl⟩
  obtain ⟨r, k₃, h₃⟩ : ∃ r k, schedule 0xC0113F00 k₂ = .ok (r, k) := by
    subst hk₁ hk₂
    exact ⟨_, _, rfl⟩
  have htask : (k₂.procs (k₂.processes 1)).map Process.task ≠ some 0 := by
    subst hk₁ hk₂
    decide
  have hrun := Runs.cons (Step.system (s := ⟨kernelExample, []⟩) rfl h₁)
    (.cons (.idle rfl h₂ htask) (.cons (.schedule h₃) (.nil _)))
  refine ⟨_, hrun, ?_, runs_rings rfl (fun _ => rfl) hrun (by simp)⟩
  subst hk₁ hk₂
  rfl

end Session

end AvocadOS
