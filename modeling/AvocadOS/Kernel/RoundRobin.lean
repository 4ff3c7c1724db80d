import AvocadOS.Kernel.Creation
import AvocadOS.Kernel.Switch
import Mathlib.Data.List.Rotate

/-!
# Round robin

A session starts with the system task alone in the ring. `task_list_insert` adds tasks behind the
current one, and `schedule` moves on; `tasks` keeps what was inserted. Between these calls anything
may happen that leaves the tasks of the ring alone.

* `Kernel.Cycle`: the ring as a list, from the current task on;
* `Cycle.schedule`: one call turns the list by one place;
* `Cycle.schedules`: what a number of calls does, by induction on the tasks that they leave;
* `RingSession.round_robin`: once around the ring, after every run.
-/

namespace AvocadOS

open Kernel

/-- `task->n_switches`. -/
def Kernel.switches (s : Kernel) (a : Word) : Option Word := (s.tasks a).map Task.nSwitches

/-- The tasks of the ring, from `current_task` on: each has a process with a directory to load. -/
structure Kernel.Cycle (s : Kernel) (ring : List Word) : Prop where
  links : ∃ l, ring = s.currentTask :: l ∧ LinkRing s.nextTask s.prevTask s.currentTask l
  ne_null : ∀ a ∈ ring, a ≠ 0
  directory : ∀ a ∈ ring, ∃ p, s.processOf a = some p ∧ s.HasDirectory p

/-- Calls of `schedule`, one after the other: the task that is current behind each. -/
def schedules : List Word → K (List Word)
  | [] => pure []
  | frame :: frames => do
    let _ ← schedule frame
    let current := (← get).currentTask
    let rest ← schedules frames
    pure (current :: rest)

/-- Work that leaves the tasks of the ring alone, and the directories that they load. -/
structure Kernel.LeavesRing (s t : Kernel) (ring : List Word) : Prop where
  current : t.currentTask = s.currentTask
  tasks : ∀ a ∈ ring, t.tasks a = s.tasks a
  directory : ∀ p, s.HasDirectory p → t.HasDirectory p

structure RingSession where
  kernel : Kernel
  tasks : List Word

inductive RingCall where
  | schedule (frame : Word)
  | insert (task : Word)
  | other

namespace RingSession

/-- A task is inserted once, when its process has a directory. -/
inductive Step : RingSession → RingCall → RingSession → Prop
  | schedule {s : RingSession} {frame r : Word} {k : Kernel}
      (h : AvocadOS.schedule frame s.kernel = .ok (r, k)) : Step s (.schedule frame) ⟨k, s.tasks⟩
  | insert {s : RingSession} {task p : Word} {k : Kernel} (hnew : task ∉ s.tasks)
      (hprocess : s.kernel.processOf task = some p) (hdir : s.kernel.HasDirectory p)
      (h : taskListInsert task s.kernel = .ok ((), k)) : Step s (.insert task) ⟨k, task :: s.tasks⟩
  | other {s : RingSession} {k : Kernel} (h : s.kernel.LeavesRing k s.tasks) :
      Step s .other ⟨k, s.tasks⟩

end RingSession

/-! ## One call -/

section

variable {s t : Kernel} {ring l : List Word} {c d frame r task : Word}

/-- A switch is counted for the task that it leaves. -/
theorem schedule_switches (h : schedule frame s = .ok (r, t)) (hcur : s.currentTask ≠ 0)
    (hother : t.currentTask ≠ s.currentTask) :
    t.switches = Function.update s.switches s.currentTask
      ((s.switches s.currentTask).map (· + 1)) := by
  replace h := bind_get_ok h
  rw [if_neg hcur] at h
  obtain ⟨_, s₁, h₁, h⟩ := bind_ok h
  replace h₁ := bind_get_ok h₁
  rw [if_neg hcur] at h₁
  obtain ⟨-, x, hx, rfl⟩ := Store.modify_ok h₁
  obtain ⟨n, s₂, h₂, h⟩ := bind_ok h
  obtain ⟨-, x', hx', h₂⟩ := Store.bind_load_ok (bind_get_ok h₂)
  obtain ⟨rfl, rfl⟩ := pure_ok h₂
  simp only [tasks_get, tasks_put] at hx hx' h
  obtain rfl : x.setKernelStackPointer frame = x' := by simpa using hx'
  split at h
  · obtain ⟨rfl, rfl⟩ := pure_ok h
    exact absurd rfl hother
  · obtain ⟨x', dir, a, hx', -, -, -, -, rfl⟩ := scheduleNext_ok h
    obtain rfl : x.setKernelStackPointer frame = x' := by simpa using hx'
    have hold : s.switches s.currentTask = some x.nSwitches := congrArg (Option.map Task.nSwitches) hx
    rw [hold]
    simp only [Function.update_idem]
    exact map_update_some _ _ _ _

theorem Kernel.Cycle.returns (h : s.Cycle ring) (frame : Word) :
    ∃ r t, schedule frame s = .ok (r, t) := by
  obtain ⟨l, rfl, hring⟩ := h.links
  obtain ⟨x, y, hx, hnext, hy, hdir⟩ := next_task hring h.directory
  obtain ⟨r, t, hrun, -⟩ := @schedule_returns s frame x y (h.ne_null _ List.mem_cons_self) hx
    (h.ne_null _ hnext) hy hdir
  exact ⟨r, t, hrun⟩

/-- One call turns the ring by one place. -/
theorem Kernel.Cycle.interrupted (h : s.Cycle ring) (hi : Interrupted s t frame r) :
    t.Cycle (ring.rotate 1) := by
  obtain ⟨l, rfl, hring⟩ := h.links
  have hmem : ∀ a, a ∈ (s.currentTask :: l).rotate 1 ↔ a ∈ s.currentTask :: l := fun a =>
    List.mem_rotate
  refine ⟨?_, fun a ha => h.ne_null a ((hmem a).mp ha), fun a ha => ?_⟩
  · rw [hi.nextTask, hi.prevTask]
    cases l with
    | nil =>
      have hself : t.currentTask = s.currentTask := Option.some.inj (hi.next.symm.trans hring.next_nil)
      rw [hself]
      exact ⟨[], List.rotate_singleton _ _, hring⟩
    | cons b l =>
      obtain rfl : t.currentTask = b := Option.some.inj (hi.next.symm.trans hring.next_cons)
      exact ⟨l ++ [s.currentTask], rfl, hring.rotate⟩
  · obtain ⟨p, hp, hdir⟩ := h.directory a ((hmem a).mp ha)
    exact ⟨p, by rw [hi.processOf, hp], hdir.congr (by rw [hi.rest]) (by rw [hi.rest])
      (by rw [hi.rest])⟩

/-- The task that the current one leaves to, in a ring of at least two. -/
theorem Kernel.Cycle.schedule (h : s.Cycle (c :: d :: l)) (frame : Word) :
    ∃ r t, AvocadOS.schedule frame s = .ok (r, t) ∧ t.Cycle (d :: l ++ [c]) ∧ t.currentTask = d ∧
      t.switches = Function.update s.switches c ((s.switches c).map (· + 1)) := by
  obtain ⟨r, t, hrun⟩ := h.returns frame
  obtain ⟨l', heq, hring⟩ := h.links
  obtain ⟨rfl, rfl⟩ := List.cons.inj heq
  have hcur : s.currentTask ≠ 0 := h.ne_null _ List.mem_cons_self
  have hi := schedule_ok hrun hcur
  have hd : t.currentTask = d := Option.some.inj (hi.next.symm.trans hring.next_cons)
  have hne : t.currentTask ≠ s.currentTask := by
    rw [hd]
    rintro rfl
    exact (List.nodup_cons.mp hring.nodup).1 List.mem_cons_self
  exact ⟨r, t, hrun, h.interrupted hi, hd, schedule_switches hrun hcur hne⟩

/-- An inserted task is the next one. -/
theorem Kernel.Cycle.insert {p : Word} (h : s.Cycle ring) (hnew : task ∉ ring)
    (hprocess : s.processOf task = some p) (hdir : s.HasDirectory p)
    (hrun : taskListInsert task s = .ok ((), t)) :
    ∃ l, ring = s.currentTask :: l ∧ t.Cycle (s.currentTask :: task :: l) := by
  obtain ⟨l, rfl, hring⟩ := h.links
  have hcur : task ≠ s.currentTask := fun he => hnew (he ▸ List.mem_cons_self)
  obtain ⟨e, he, hnext, -⟩ := hring.next_mem List.mem_cons_self
  have hne : task ≠ 0 := (Store.modify_ok (bind_ok (bind_get_ok hrun)).choose_spec.choose_spec.1).1
  obtain ⟨⟨e', he', hsplice⟩, hlinks⟩ := taskListInsert_ok hrun hcur (by
    rw [hnext]
    exact fun h => hnew (Option.some.inj h ▸ he))
  have hcur' : t.currentTask = s.currentTask := by rw [hlinks.rest]
  have hprocs : t.processOf = s.processOf := by
    funext a
    have hmap : ∀ o : Option Task, o.map Task.process = (o.map Task.unlinked).map Task.process := by
      intro o
      cases o <;> rfl
    rw [Kernel.processOf, hmap, hlinks.unlinked a, ← hmap, Kernel.processOf]
  refine ⟨l, rfl, ⟨task :: l, by rw [hcur'], ?_⟩, fun a ha => ?_, fun a ha => ?_⟩
  · rw [hcur']
    exact hring.insert he' hnew hsplice
  · rcases List.mem_cons.mp ha with rfl | ha
    · exact h.ne_null _ List.mem_cons_self
    · rcases List.mem_cons.mp ha with rfl | ha
      · exact hne
      · exact h.ne_null a (List.mem_cons_of_mem _ ha)
  · have hkeep : ∀ q, s.HasDirectory q → t.HasDirectory q := fun q hq =>
      hq.congr (by rw [hlinks.rest]) (by rw [hlinks.rest]) (by rw [hlinks.rest])
    rw [hprocs]
    by_cases hat : a = task
    · subst hat
      exact ⟨p, hprocess, hkeep p hdir⟩
    · obtain ⟨q, hq, hqdir⟩ := h.directory a (by simpa [hat] using ha)
      exact ⟨q, hq, hkeep q hqdir⟩

theorem Kernel.LeavesRing.cycle (h : s.LeavesRing t ring) (hs : s.Cycle ring) : t.Cycle ring := by
  obtain ⟨l, rfl, hring⟩ := hs.links
  refine ⟨⟨l, by rw [h.current], ?_⟩, hs.ne_null, fun a ha => ?_⟩
  · rw [h.current]
    refine hring.transport (fun a ha => ?_) fun a ha => ?_
    · exact congrArg (Option.map Task.next) (h.tasks a ha)
    · exact congrArg (Option.map Task.previous) (h.tasks a ha)
  · obtain ⟨p, hp, hdir⟩ := hs.directory a ha
    exact ⟨p, by rw [← hp, Kernel.processOf, h.tasks a ha, Kernel.processOf], h.directory p hdir⟩

/-! ## Around the ring -/

/-- Calls that leave the tasks `pre`, in this order: `pre` goes to the end of the list, and each of its
tasks has one more switch. -/
theorem Kernel.Cycle.schedules {pre : List Word} : ∀ {s : Kernel} {post frames : List Word},
    s.Cycle (pre ++ post) → 2 ≤ (pre ++ post).length → frames.length = pre.length →
    ∃ currents t, AvocadOS.schedules frames s = .ok (currents, t) ∧ t.Cycle (post ++ pre) ∧
      s.currentTask :: currents = pre ++ [t.currentTask] ∧
      ∀ a, t.switches a = if a ∈ pre then (s.switches a).map (· + 1) else s.switches a := by
  induction pre with
  | nil =>
    intro s post frames h _ hframes
    obtain rfl := List.length_eq_zero_iff.mp hframes
    exact ⟨[], s, rfl, by simpa using h, rfl, fun a => by simp⟩
  | cons c pre ih =>
    intro s post frames h hlen hframes
    obtain ⟨frame, frames, rfl⟩ := List.exists_cons_of_length_eq_add_one hframes
    obtain ⟨d, l, hl⟩ : ∃ d l, pre ++ post = d :: l := by
      refine List.exists_cons_of_ne_nil fun hnil => ?_
      rw [List.cons_append, hnil] at hlen
      simp at hlen
    rw [List.cons_append, hl] at h
    obtain ⟨l', hl', hring⟩ := h.links
    obtain ⟨rfl, -⟩ := List.cons.inj hl'
    obtain ⟨r, s₁, hrun, hs₁, hcur, hcount⟩ := h.schedule frame
    rw [← hl, List.append_assoc] at hs₁
    obtain ⟨currents, t, hrest, ht, hcurrents, hswitches⟩ := ih hs₁ (by simp at hlen ⊢; omega)
      (by simpa using hframes)
    refine ⟨s₁.currentTask :: currents, t, ?_, by simpa using ht, by rw [hcurrents]; rfl, fun a => ?_⟩
    · rw [AvocadOS.schedules, bind_eq hrun, bind_get_eq, bind_eq hrest]
      rfl
    · rw [hswitches a, hcount]
      by_cases ha : a = s.currentTask
      · subst ha
        have hnotin : s.currentTask ∉ pre := fun hm => by
          have hnodup := (List.nodup_cons.mp hring.nodup).1
          rw [← (List.cons.inj hl').2, ← hl] at hnodup
          exact hnodup (List.mem_append_left _ hm)
        rw [if_neg hnotin, if_pos List.mem_cons_self, Function.update_self]
      · rw [Function.update_of_ne ha]
        exact if_congr (by simp [ha]) rfl rfl

end

namespace RingSession

variable {s t : RingSession} {call : RingCall}

/-- The tasks of the ring are those that were inserted. -/
def Inv (s : RingSession) : Prop := ∃ ring, s.kernel.Cycle ring ∧ ring.Perm s.tasks

theorem step_inv (hs : s.Inv) (h : Step s call t) : t.Inv := by
  obtain ⟨ring, hring, hperm⟩ := hs
  cases h with
  | schedule h =>
    have hi := schedule_ok h (by
      obtain ⟨l, rfl, -⟩ := hring.links
      exact hring.ne_null _ List.mem_cons_self)
    exact ⟨_, hring.interrupted hi, (List.rotate_perm ring 1).trans hperm⟩
  | insert hnew hprocess hdir h =>
    obtain ⟨l, rfl, ht⟩ :=
      hring.insert (fun hm => hnew (hperm.mem_iff.mp hm)) hprocess hdir h
    exact ⟨_, ht, (List.Perm.swap _ _ _).trans (hperm.cons _)⟩
  | other h =>
    have hleaves : s.kernel.LeavesRing _ ring :=
      ⟨h.current, fun a ha => h.tasks a (hperm.mem_iff.mp ha), h.directory⟩
    exact ⟨ring, hleaves.cycle hring, hperm⟩

/-- The ring of `init_system_process`, after `paging_init`. -/
theorem Inv.start {k k₁ : Kernel} {h : PageDirectoryHandle}
    (hkernel : k.image.kernelPageDirectory ≠ 0)
    (hhandle : k.handles k.image.kernelPageDirectory = some h) (hdir : h.directory ≠ 0)
    (htable : k.tables h.directory ≠ none) (hinit : initSystemProcess k = .ok ((), k₁)) :
    Inv ⟨k₁, [k.image.systemTask]⟩ := by
  obtain ⟨process, hc⟩ := initSystemProcess_ok hinit
  obtain ⟨x, hx, -, -, hxdir⟩ := hc.process
  have hcur : k₁.currentTask = k.image.systemTask := by rw [hc.rest]
  have hhandles : k₁.handles = k.handles := by rw [hc.rest]
  have htables : k₁.tables = k.tables := by rw [hc.rest]
  refine ⟨_, ⟨⟨[], by rw [hcur], by rw [hcur]; exact hc.taskRing⟩, fun a ha => ?_, fun a ha => ?_⟩,
    .refl _⟩
  · obtain rfl := List.mem_singleton.mp ha
    exact hc.system_ne_null
  · obtain rfl := List.mem_singleton.mp ha
    refine ⟨process, hc.systemTask, hc.ne_null, x, hx, hxdir ▸ hkernel, h, ?_, hdir, htables ▸ htable⟩
    rw [hxdir, hhandles, hhandle]

/-- `task_new` is such an insertion. -/
theorem taskNew_steps {k k' : Kernel} {tasks : List Word} {process task entryPoint esp : Word}
    {privileged : Bool} (htasks : ∀ a ∈ tasks, k.tasks a ≠ none) (hdir : k.HasDirectory process)
    (h : taskNew process privileged entryPoint esp k = .ok (task, k')) (hne : task ≠ 0) :
    Runs Step ⟨k, tasks⟩ [.other, .insert task] ⟨k', task :: tasks⟩ := by
  obtain ⟨-, hfresh, hinsert⟩ := (taskNew_unlinked h).resolve_left fun h => hne h.1
  have hnone : k.tasks task = none := hfresh.vacant.2.2.1
  have hnew : task ∉ tasks := fun hm => htasks task hm hnone
  obtain ⟨m, hm⟩ : ∃ m : Kernel, m = { k.asked.withBlock task taskSize with
    tasks := Function.update k.tasks task
      (some (newTask task process privileged entryPoint esp)) } := ⟨_, rfl⟩
  rw [← hm] at hinsert
  have hleaves : k.LeavesRing m tasks := by
    rw [hm]
    refine ⟨rfl, fun a ha => ?_, fun p hp => hp⟩
    have hat : a ≠ task := fun he => hnew (he ▸ ha)
    exact Function.update_of_ne hat _ _
  have hprocess : m.processOf task = some process := by
    rw [hm]
    exact congrArg (Option.map Task.process) (Function.update_self task _ k.tasks)
  exact .cons (.other hleaves)
    (.cons (.insert hnew hprocess (hleaves.directory _ hdir) hinsert) (.nil _))

/-- In every ring of at least two tasks that is reached by insertions and calls of `schedule`, as many
calls as there are tasks make each task current once, the first one last, and count one switch for
each. An inserted task is the next one. -/
theorem round_robin {k k₁ : Kernel} {h : PageDirectoryHandle} {calls : List RingCall}
    (hkernel : k.image.kernelPageDirectory ≠ 0)
    (hhandle : k.handles k.image.kernelPageDirectory = some h) (hdir : h.directory ≠ 0)
    (htable : k.tables h.directory ≠ none) (hinit : initSystemProcess k = .ok ((), k₁))
    (hrun : Runs Step ⟨k₁, [k.image.systemTask]⟩ calls s) :
    (2 ≤ s.tasks.length → ∀ frames : List Word, frames.length = s.tasks.length →
      ∃ currents t, schedules frames s.kernel = .ok (currents, t) ∧
        currents.Nodup ∧ currents.Perm s.tasks ∧ t.currentTask = s.kernel.currentTask ∧
        currents.getLast? = some s.kernel.currentTask ∧
        ∀ a ∈ s.tasks, ∃ n, s.kernel.switches a = some n ∧ t.switches a = some (n + 1)) ∧
    ∀ task t, Step s (.insert task) t → ∀ frame, ∃ r k', schedule frame t.kernel = .ok (r, k') ∧
      k'.currentTask = task := by
  obtain ⟨ring, hring, hperm⟩ : s.Inv := hrun.invariant (fun _ _ _ hs hstep => step_inv hs hstep)
    (.start hkernel hhandle hdir htable hinit)
  refine ⟨fun hlen frames hframes => ?_, fun task t hstep frame => ?_⟩
  · obtain ⟨currents, t, hschedules, ht, hcurrents, hswitches⟩ :=
      @Cycle.schedules ring s.kernel [] frames (by simpa using hring)
        (by rw [List.append_nil, hperm.length_eq]; exact hlen) (by rw [hframes, hperm.length_eq])
    obtain ⟨l, rfl, hlinks⟩ := hring.links
    obtain ⟨l', hl', -⟩ := ht.links
    have hcur : t.currentTask = s.kernel.currentTask := (List.cons.inj hl').1.symm
    obtain rfl : currents = l ++ [s.kernel.currentTask] := by
      rw [hcur] at hcurrents
      exact (List.cons.inj hcurrents).2
    have hperm' : (l ++ [s.kernel.currentTask]).Perm (s.kernel.currentTask :: l) :=
      List.perm_append_singleton _ _
    refine ⟨_, t, hschedules, hperm'.nodup_iff.mpr hlinks.nodup, hperm'.trans hperm, hcur,
      List.getLast?_concat, fun a ha => ?_⟩
    obtain ⟨p, hp, -⟩ := hring.directory a (hperm.mem_iff.mpr ha)
    obtain ⟨x, hx, -⟩ := Option.map_eq_some_iff.mp hp
    have hn : s.kernel.switches a = some x.nSwitches := congrArg (Option.map Task.nSwitches) hx
    refine ⟨x.nSwitches, hn, ?_⟩
    rw [hswitches a, if_pos (hperm.mem_iff.mpr ha), hn]
    rfl
  · cases hstep with
    | insert hnew hprocess hdir h =>
      obtain ⟨l, rfl, ht⟩ := hring.insert (fun hm => hnew (hperm.mem_iff.mp hm)) hprocess hdir h
      obtain ⟨r, k', hrun', -, hcur, -⟩ := ht.schedule frame
      exact ⟨r, k', hrun', hcur⟩

/-- The system task and one more. -/
theorem round_robin_twoTasks : ∃ s,
    Runs Step ⟨kernelExample.after initSystemProcess, [0xC0110000]⟩ [.other, .insert 0xC0210000] s ∧
    s.tasks = [0xC0210000, 0xC0110000] ∧
    ∃ currents t, schedules [0xC0113F00, 0xC0213F00] s.kernel = .ok (currents, t) ∧
      currents.Perm s.tasks ∧ t.currentTask = s.kernel.currentTask := by
  have hinit : initSystemProcess kernelExample =
      .ok ((), kernelExample.after initSystemProcess) := rfl
  obtain ⟨k, hnew⟩ : ∃ k, taskNew 0xC0200000 true 0xC0101000 0
      (kernelExample.after initSystemProcess) = .ok (0xC0210000, k) := ⟨_, rfl⟩
  have hdir : (kernelExample.after initSystemProcess).HasDirectory 0xC0200000 :=
    ⟨by decide, _, rfl, by decide, _, rfl, by decide, nofun⟩
  have hsteps := @taskNew_steps _ k [0xC0110000] _ _ _ _ _ (by simp; nofun) hdir hnew (by decide)
  obtain ⟨hround, -⟩ := @round_robin _ kernelExample _ _ _ (by decide) rfl (by decide) nofun hinit hsteps
  obtain ⟨currents, t, hrun, -, hperm, hcur, -⟩ := hround (Nat.le_refl 2) [0xC0113F00, 0xC0213F00] rfl
  exact ⟨_, hsteps, rfl, currents, t, hrun, hperm, hcur⟩

end RingSession

end AvocadOS
