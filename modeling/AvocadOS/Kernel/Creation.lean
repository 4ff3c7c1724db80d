import AvocadOS.Kernel.Switch

/-!
# What the creation of a process does

`Preparing s u process x`: on the way from `s` to `u` a process was allocated, and written up to
`x`; tasks and the other processes are as in `s`. `ProcessAdded s t slot process task x`: the process
and its task are linked in, at the end of the ring of processes and behind the current task.

* `processInit_ok`, `initIdleProcess_ok`: both end so;
* `initSystemProcess_ok`: the two rings of one node.
-/

namespace AvocadOS

open Kernel

structure Preparing (s u : Kernel) (process : Word) (x : Process) : Prop where
  ne_null : process ≠ 0
  fresh : s.procs process = none
  rest : u = { s with
    requests := u.requests
    blocks := u.blocks
    tables := u.tables
    handles := u.handles
    processes := u.processes
    procs := Function.update s.procs process (some x) }
  blocks : s.blocks <:+ u.blocks

namespace Preparing

variable {s t u : Kernel} {process : Word} {x : Process}

theorem of_alloc {size : Nat} (h : procs.alloc size x s = .ok (process, u)) (hne : process ≠ 0) :
    Preparing s u process x := by
  rcases Store.alloc_ok h with ⟨h, -⟩ | ⟨-, hfresh, rfl⟩
  · exact absurd h hne
  · exact ⟨hne, hfresh.vacant.2.2.2, rfl, List.suffix_cons _ _⟩

theorem procs_eq (h : Preparing s u process x) : u.procs process = some x := by
  rw [h.rest]
  exact Function.update_self _ _ _

theorem of_modify (h : Preparing s u process x) {f : Process → Process} {v : Unit}
    (hm : procs.modify process f u = .ok (v, t)) : Preparing s t process (f x) := by
  obtain ⟨-, y, hy, rfl⟩ := Store.modify_ok hm
  obtain rfl : x = y := Option.some.inj (h.procs_eq.symm.trans hy)
  have hrest := h.rest
  refine ⟨h.ne_null, h.fresh, ?_, h.blocks⟩
  rw [procs_get, procs_put, hrest]
  simp only [Function.update_idem]

theorem of_asked (h : Preparing s u process x) : Preparing s u.asked process x :=
  ⟨h.ne_null, h.fresh, by rw [h.rest]; rfl, h.blocks⟩

theorem of_kzalloc (h : Preparing s u process x) {size : Nat} {a : Word}
    (hk : kzalloc size u = .ok (a, t)) : Preparing s t process x := by
  rcases kzalloc_ok hk with ⟨-, rfl⟩ | ⟨-, -, -, rfl⟩
  · exact h.of_asked
  · exact ⟨h.ne_null, h.fresh, by rw [h.rest]; rfl, h.blocks.trans (List.suffix_cons _ _)⟩

theorem of_paging (h : Preparing s u process x) (hp : PagingOnly u t) : Preparing s t process x :=
  ⟨h.ne_null, h.fresh, by rw [hp.rest, h.rest], h.blocks.trans hp.blocks⟩

theorem of_setProcess (h : Preparing s u process x) {pid : Nat} {p : Word} {v : Unit}
    (hs : setProcess pid p u = .ok (v, t)) : Preparing s t process x := by
  cases hs
  exact ⟨h.ne_null, h.fresh, by rw [h.rest], h.blocks⟩

end Preparing

structure ProcessAdded (s t : Kernel) (process task : Word) (x : Process) : Prop where
  ne_null : process ≠ 0
  fresh : s.procs process = none
  task_ne_null : task ≠ 0
  task_fresh : s.tasks task = none
  rest : t = { s with
    requests := t.requests
    blocks := t.blocks
    tables := t.tables
    handles := t.handles
    processes := t.processes
    procs := t.procs
    tasks := t.tasks }
  blocks : s.blocks <:+ t.blocks
  new : (t.procs process).map Process.unlinked = some (x.setTask task).unlinked
  old : ∀ a, a ≠ process → (t.procs a).map Process.unlinked = (s.procs a).map Process.unlinked
  processOf : t.processOf = Function.update s.processOf task (some process)

section

variable {s t u v w : Kernel} {process task sys : Word} {x : Process} {l ps : List Word}

/-- A process that is not on the ring is linked in at its end. -/
theorem processListInsert_ring {j : Unit} (h : processListInsert process u = .ok (j, t))
    (hsys : u.systemProcess = some sys) (hprocs : LinkRing s.nextProc s.prevProc sys ps)
    (hfresh : s.procs process = none) (hold : ∀ a, a ≠ process → u.procs a = s.procs a) :
    ProcLinksOnly u t ∧ LinkRing t.nextProc t.prevProc sys (ps ++ [process]) := by
  have hmem : process ∉ sys :: ps := fun h => ring_proc_ne_none hprocs h hfresh
  have hne : process ≠ sys := fun h => hmem (by simp [h])
  have hnext : ∀ a, a ≠ process → u.nextProc a = s.nextProc a :=
    fun a ha => congrArg (Option.map Process.next) (hold a ha)
  have hprev : ∀ a, a ≠ process → u.prevProc a = s.prevProc a :=
    fun a ha => congrArg (Option.map Process.previous) (hold a ha)
  obtain ⟨z, hzmem, hz⟩ := hprocs.prev_head
  have huz : u.prevProc sys = some z := (hprev sys hne.symm).trans hz
  obtain ⟨⟨z', hz', hsplice⟩, hlinks⟩ := processListInsert_ok h hsys hne (by
    rw [huz]
    rintro ⟨⟩
    exact hmem hzmem)
  obtain rfl : z' = z := Option.some.inj (hz'.symm.trans huz)
  exact ⟨hlinks, hprocs.snoc hz hmem (hsplice.of_eq hnext hprev)⟩

/-- A task for the process. The system process is the one it was. -/
theorem Preparing.started {privileged : Bool} {entryPoint esp : Word}
    (hring : LinkRing s.nextTask s.prevTask s.currentTask l) (hsys : s.systemProcess = some sys)
    (hprep : Preparing s u process x)
    (htask : taskNew process privileged entryPoint esp u = .ok (task, v)) (hne : task ≠ 0) :
    TaskAdded u v task (newTask task process privileged entryPoint esp) ∧
      LinkRing v.nextTask v.prevTask s.currentTask (task :: l) ∧ s.tasks task = none ∧
      v.processOf = Function.update s.processOf task (some process) ∧
      v.procs = Function.update s.procs process (some x) ∧ v.systemProcess = some sys := by
  have hu := hprep.rest
  have hcur : u.currentTask = s.currentTask := by rw [hu]
  have htasks : u.tasks = s.tasks := by rw [hu]
  have hring' : LinkRing u.nextTask u.prevTask u.currentTask l := by
    rwa [(task_links_congr htasks).1, (task_links_congr htasks).2, hcur]
  obtain ⟨ha, hring'⟩ := (taskNew_ok htask hring').resolve_left fun h => hne h.1
  have hv := ha.rest
  have hfresh : s.tasks task = none := htasks ▸ ha.fresh
  have hprocess : v.processOf = Function.update s.processOf task (some process) := by
    have := ha.view (f := Task.process) fun _ => rfl
    rw [htasks] at this
    exact this
  refine ⟨ha, hcur ▸ hring', hfresh, hprocess, by rw [hv, hu], ?_⟩
  have hne : s.image.systemTask ≠ task := by
    intro he
    rw [Kernel.systemProcess, he, hfresh] at hsys
    simp at hsys
  have himage : v.image = s.image := by rw [hv, hu]
  have hsame := congrFun hprocess s.image.systemTask
  rw [Function.update_of_ne hne] at hsame
  rw [Kernel.systemProcess, himage]
  exact hsame.trans hsys

/-- The end of both creations: a task for the process, and both are linked in. -/
theorem Preparing.publish {privileged : Bool} {entryPoint esp : Word} {i j : Unit}
    (hring : LinkRing s.nextTask s.prevTask s.currentTask l)
    (hsys : s.systemProcess = some sys) (hprocs : LinkRing s.nextProc s.prevProc sys ps)
    (hprep : Preparing s u process x)
    (htask : taskNew process privileged entryPoint esp u = .ok (task, v)) (hne : task ≠ 0)
    (hset : procs.modify process (Process.setTask task) v = .ok (i, w)) {slots : Nat → Word}
    (hinsert : processListInsert process { w with processes := slots } = .ok (j, t)) :
    ProcessAdded s t process task x ∧ t.processes = slots ∧ w.processes = u.processes ∧
      t.tables = u.tables ∧ t.handles = u.handles ∧
      LinkRing t.nextTask t.prevTask s.currentTask (task :: l) ∧
      LinkRing t.nextProc t.prevProc sys (ps ++ [process]) := by
  obtain ⟨ha, hring', hfresh, hprocess, hvprocs, hvsys⟩ := hprep.started hring hsys htask hne
  have hu := hprep.rest
  have hv := ha.rest
  -- the process before it is linked in
  obtain ⟨-, y, hy, rfl⟩ := Store.modify_ok hset
  obtain rfl : x = y := by
    rw [procs_get, hvprocs, Function.update_self] at hy
    exact Option.some.inj hy
  have hset' : Function.update v.procs process (some (x.setTask task)) =
      Function.update s.procs process (some (x.setTask task)) := by
    rw [hvprocs]
    exact Function.update_idem _ _ _
  rw [procs_get, procs_put, hset'] at hinsert
  generalize hm : ({ v with
    processes := slots
    procs := Function.update s.procs process (some (x.setTask task)) } : Kernel) = m at hinsert
  have hold : ∀ a, a ≠ process → m.procs a = s.procs a := fun a h => by
    rw [← hm]
    exact Function.update_of_ne h _ _
  have hmsys : m.systemProcess = some sys := by
    rw [← hm]
    exact hvsys
  obtain ⟨hlinks, hprocs'⟩ := processListInsert_ring hinsert hmsys hprocs hprep.fresh hold
  have ht := hlinks.rest
  have hnew : m.procs process = some (x.setTask task) := by
    rw [← hm]
    exact Function.update_self _ _ _
  have htasks' : t.tasks = v.tasks := by rw [ht, ← hm]
  refine ⟨⟨hprep.ne_null, hprep.fresh, hne, hfresh, ?_, ?_, ?_, ?_, ?_⟩, ?_, ?_, ?_, ?_, ?_, hprocs'⟩
  · rw [ht, ← hm, hv, hu]
  · rw [ht, ← hm]
    exact hprep.blocks.trans ha.blocks
  · rw [hlinks.unlinked, hnew, Option.map_some]
  · intro a h
    rw [hlinks.unlinked, hold a h]
  · rw [← hprocess]
    funext a
    rw [Kernel.processOf, htasks', Kernel.processOf]
  · rw [ht, ← hm]
  · rw [procs_put, hv]
  · rw [ht, ← hm, hv]
  · rw [ht, ← hm, hv]
  · rwa [(task_links_congr htasks').1, (task_links_congr htasks').2]

/-- The parts of a successful `process_map_memory`. -/
theorem processMapMemory_ok (hprep : Preparing s u process x)
    (h : processMapMemory process u = .ok (0, t)) :
    ∃ dir v w, x.memory ≠ 0 ∧
      pagingCloneDirectory u.image.kernelPageDirectory u = .ok (dir, v) ∧
      mapUserRange dir PROGRAM_BASE_VIRT_ADDR x.memory x.memorySize
        { v with procs := Function.update v.procs process (some (x.setPageDirectory dir)) } =
          .ok (0, w) ∧
      mapUserRange dir PROGRAM_STACK_TOP_VIRT_ADDR x.stack PROGRAM_STACK_SIZE w = .ok (0, t) ∧
      Preparing s v process x ∧ Preparing s t process (x.setPageDirectory dir) ∧
      t.processes = u.processes := by
  obtain ⟨-, y, hy, h⟩ := Store.bind_load_ok h
  obtain rfl : x = y := Option.some.inj (hprep.procs_eq.symm.trans hy)
  split at h
  · cases h
  rename_i hmem
  obtain ⟨dir, v, hclone, h⟩ := bind_ok (bind_get_ok h)
  have hv := hprep.of_paging (pagingCloneDirectory_frame _ hclone)
  obtain ⟨_, v', hset, h⟩ := bind_ok h
  have hv' := hv.of_modify hset
  obtain ⟨-, y, hy, h⟩ := Store.bind_load_ok h
  obtain rfl : x.setPageDirectory dir = y := Option.some.inj (hv'.procs_eq.symm.trans hy)
  obtain ⟨res, w, hcode, hrest⟩ := bind_ok h
  split at hrest
  · rename_i hres
    obtain ⟨rfl, -⟩ := pure_ok hrest
    exact absurd rfl hres
  rename_i hres
  obtain rfl : res = 0 := by simpa using hres
  have hw := hv'.of_paging (mapUserRange_frame _ _ _ _ hcode)
  have ht := hw.of_paging (mapUserRange_frame _ _ _ _ hrest)
  obtain ⟨-, z, hz, rfl⟩ := Store.modify_ok hset
  obtain rfl : x = z := Option.some.inj (hv.procs_eq.symm.trans hz)
  refine ⟨dir, v, w, hmem, hclone, hcode, hrest, hv, ht, ?_⟩
  rw [(mapUserRange_frame _ _ _ _ hrest).rest, (mapUserRange_frame _ _ _ _ hcode).rest, procs_put,
    (pagingCloneDirectory_frame _ hclone).rest]

/-- Neither page tables nor `processes[]` differ. -/
def SameTables (s t : Kernel) : Prop :=
  t.tables = s.tables ∧ t.handles = s.handles ∧ t.processes = s.processes

theorem SameTables.trans (h₁ : SameTables s t) (h₂ : SameTables t u) : SameTables s u :=
  ⟨h₂.1.trans h₁.1, h₂.2.1.trans h₁.2.1, h₂.2.2.trans h₁.2.2⟩

theorem sameTables_kzalloc {size : Nat} : Keeps SameTables (kzalloc size) := by
  intro s a t h
  rcases kzalloc_ok h with ⟨-, rfl⟩ | ⟨-, -, -, rfl⟩ <;> exact ⟨rfl, rfl, rfl⟩

theorem sameTables_alloc {size : Nat} {x : Process} : Keeps SameTables (procs.alloc size x) := by
  intro s a t h
  rcases Store.alloc_ok h with ⟨-, rfl⟩ | ⟨-, -, rfl⟩ <;> exact ⟨rfl, rfl, rfl⟩

theorem sameTables_modify {p : Word} {f : Process → Process} :
    Keeps SameTables (procs.modify p f) := by
  intro s a t h
  obtain ⟨-, x, -, rfl⟩ := Store.modify_ok h
  exact ⟨rfl, rfl, rfl⟩

/-- `out` is reached with `0`. -/
theorem processInitOut_zero {res : Int} (h : processInitOut process res s = .ok (0, t)) :
    res = 0 ∧ t = s := by
  rw [processInitOut] at h
  split at h
  · rename_i hneg
    obtain ⟨_, _, _, h⟩ := bind_ok h
    obtain ⟨rfl, -⟩ := pure_ok h
    exact absurd hneg (by decide)
  · obtain ⟨rfl, rfl⟩ := pure_ok h
    exact ⟨rfl, rfl⟩

/-- The steps of a successful `process_init`. -/
theorem processInit_steps {name : List Byte} {memory : Word} {memorySize slot : Nat}
    {privileged : Bool} (h : processInit name memory memorySize privileged slot s = .ok (0, t)) :
    ∃ process stack s₁ s₂ s₃ s₄ s₅ s₆,
      procs.alloc processSize Process.zero s = .ok (process, s₁) ∧ process ≠ 0 ∧
      setProcess slot process s₁ = .ok ((), s₂) ∧
      procs.modify process (fun p =>
        { p with pid := slot, memorySize := memorySize, memory := memory }) s₂ = .ok ((), s₃) ∧
      kzalloc PROGRAM_STACK_SIZE s₃ = .ok (stack, s₄) ∧ stack ≠ 0 ∧
      procs.modify process (Process.setStack stack) s₄ = .ok ((), s₅) ∧
      processMapMemory process s₅ = .ok (0, s₆) ∧
      processInitTask process name privileged s₆ = .ok (0, t) := by
  obtain ⟨process, s₁, halloc, h⟩ := bind_ok h
  obtain ⟨_, s₂, hslot, h⟩ := bind_ok h
  split at h
  · cases h
  rename_i hne
  obtain ⟨_, s₃, hset, h⟩ := bind_ok h
  obtain ⟨res, s₄, hstack, h⟩ := bind_ok h
  obtain ⟨rfl, rfl⟩ := processInitOut_zero h
  obtain ⟨stack, s₅, hkz, hstack⟩ := bind_ok hstack
  obtain ⟨_, s₆, hset', hstack⟩ := bind_ok hstack
  split at hstack
  · cases hstack
  rename_i hstack₀
  obtain ⟨res, s₇, hmap, hstack⟩ := bind_ok hstack
  split at hstack
  · rename_i hres
    obtain ⟨rfl, -⟩ := pure_ok hstack
    exact absurd rfl hres
  rename_i hres
  obtain rfl : res = 0 := by simpa using hres
  exact ⟨process, stack, s₁, s₂, s₃, s₅, s₆, s₇, halloc, hne, hslot, hset, hkz, hstack₀, hset', hmap,
    hstack⟩

/-- The parts of a successful `process_init`. -/
theorem processInit_parts {name : List Byte} {memory : Word} {memorySize slot : Nat}
    {privileged : Bool} (h : processInit name memory memorySize privileged slot s = .ok (0, t)) :
    ∃ process stack u v, stack ≠ 0 ∧
      Preparing s u process { Process.zero with
        pid := slot, memorySize := memorySize, memory := memory, stack := stack } ∧
      u.processes = Function.update s.processes slot process ∧ u.tables = s.tables ∧
      u.handles = s.handles ∧
      processMapMemory process u = .ok (0, v) ∧
      processInitTask process name privileged v = .ok (0, t) := by
  obtain ⟨process, stack, s₁, s₂, s₃, s₄, s₅, s₆, halloc, hne, hslot, hset, hkz, hstack₀, hset', hmap,
    htask⟩ := processInit_steps h
  have hprep := (Preparing.of_alloc halloc hne).of_setProcess hslot
  have hsame := sameTables_alloc halloc
  have hsame' := (sameTables_modify hset).trans
    ((sameTables_kzalloc hkz).trans (sameTables_modify hset'))
  cases hslot
  refine ⟨process, stack, s₅, s₆, hstack₀, ((hprep.of_modify hset).of_kzalloc hkz).of_modify hset',
    ?_, hsame'.1.trans hsame.1, hsame'.2.1.trans hsame.2.1, hmap, htask⟩
  rw [hsame'.2.2, ← hsame.2.2]

/-! ## The three creations -/

/-- What the two rings are after a creation at `slot`. -/
structure Created (s t : Kernel) (slot : Nat) (sys : Word) (l ps : List Word)
    (process task : Word) (x : Process) : Prop extends ProcessAdded s t process task x where
  pid : x.pid = slot
  processes : t.processes = Function.update s.processes slot process
  taskRing : LinkRing t.nextTask t.prevTask s.currentTask (task :: l)
  procRing : LinkRing t.nextProc t.prevProc sys (ps ++ [process])

/-- The last part of `process_init`. -/
theorem processInitTask_ok {name : List Byte} {privileged : Bool}
    (hring : LinkRing s.nextTask s.prevTask s.currentTask l)
    (hsys : s.systemProcess = some sys) (hprocs : LinkRing s.nextProc s.prevProc sys ps)
    (hprep : Preparing s u process x) (h : processInitTask process name privileged u = .ok (0, t))
    {slot : Nat} (hpid : x.pid = slot)
    (hslot : u.processes = Function.update s.processes slot process) :
    t.tables = u.tables ∧ t.handles = u.handles ∧
      ∃ task, Created s t slot sys l ps process task
        { x with name := strncpy name MAX_PATH_LEN } := by
  obtain ⟨_, v, hname, h⟩ := bind_ok h
  obtain ⟨task, v', htask, h⟩ := bind_ok h
  obtain ⟨_, w, hset, h⟩ := bind_ok h
  split at h
  · cases h
  rename_i hne
  obtain ⟨_, t', hinsert, h⟩ := bind_ok h
  obtain ⟨-, rfl⟩ := pure_ok h
  have hsame := sameTables_modify hname
  obtain ⟨hadd, hslots, hslots', htables, hhandles, htaskRing, hprocRing⟩ :=
    (hprep.of_modify hname).publish hring hsys hprocs htask hne hset hinsert
  refine ⟨htables.trans hsame.1, hhandles.trans hsame.2.1, task,
    ⟨hadd, hpid, ?_, htaskRing, hprocRing⟩⟩
  rw [hslots, hslots', hsame.2.2, hslot]

theorem processInit_ok {name : List Byte} {memory : Word} {memorySize slot : Nat}
    {privileged : Bool} (hring : LinkRing s.nextTask s.prevTask s.currentTask l)
    (hsys : s.systemProcess = some sys) (hprocs : LinkRing s.nextProc s.prevProc sys ps)
    (h : processInit name memory memorySize privileged slot s = .ok (0, t)) :
    ∃ process task x, Created s t slot sys l ps process task x := by
  obtain ⟨process, stack, u, v, -, hprep, hslot, -, -, hmap, htask⟩ := processInit_parts h
  obtain ⟨dir, -, -, -, -, -, -, -, hprep', hslot'⟩ := processMapMemory_ok hprep hmap
  obtain ⟨-, -, task, hc⟩ :=
    processInitTask_ok hring hsys hprocs hprep' htask rfl (hslot'.trans hslot)
  exact ⟨process, task, _, hc⟩

/-- `init_idle_process` has created a process when there was memory for its task. -/
theorem initIdleProcess_ok {i : Unit} (hring : LinkRing s.nextTask s.prevTask s.currentTask l)
    (hsys : s.systemProcess = some sys) (hprocs : LinkRing s.nextProc s.prevProc sys ps)
    (h : initIdleProcess s = .ok (i, t))
    (htask : (t.procs (t.processes 1)).map Process.task ≠ some 0) :
    t.tables = s.tables ∧ t.handles = s.handles ∧
      ∃ process task x, Created s t 1 sys l ps process task x ∧
        x.pageDirectory = s.image.kernelPageDirectory := by
  obtain ⟨process, s₁, halloc, h⟩ := bind_ok (bind_get_ok h)
  obtain ⟨_, s₂, hset, h⟩ := bind_ok h
  obtain ⟨stack, s₃, hkz, h⟩ := bind_ok h
  obtain ⟨_, s₄, hstack, h⟩ := bind_ok h
  replace h := bind_get_ok h
  obtain ⟨task, s₅, hnew, h⟩ := bind_ok (bind_get_ok h)
  obtain ⟨_, s₆, hset', h⟩ := bind_ok h
  obtain ⟨_, s₇, hslot, hinsert⟩ := bind_ok h
  have hne : process ≠ 0 := (Store.modify_ok hset).1
  have hprep := (((Preparing.of_alloc halloc hne).of_modify hset).of_kzalloc hkz).of_modify hstack
  have hsame := (sameTables_alloc halloc).trans ((sameTables_modify hset).trans
    ((sameTables_kzalloc hkz).trans (sameTables_modify hstack)))
  cases hslot
  by_cases hT : task = 0
  · -- without a task the process is linked in all the same
    refine absurd ?_ htask
    obtain rfl : s₅ = s₄.asked := by
      rw [hT] at hnew
      rcases taskNew_unlinked hnew with ⟨-, h⟩ | ⟨h, -⟩
      · exact h
      · exact absurd rfl h
    have hprep' := (hprep.of_asked).of_modify hset'
    have hs₆ := hprep'.rest
    have hold : ∀ a, a ≠ process → s₆.procs a = s.procs a := by
      intro a ha
      rw [hs₆]
      exact Function.update_of_ne ha _ _
    have hsys' : s₆.systemProcess = some sys := by
      rw [← hsys, hs₆]
      rfl
    obtain ⟨hlinks, -⟩ := processListInsert_ring hinsert hsys' hprocs hprep.fresh hold
    have hslot : t.processes 1 = process := by
      rw [hlinks.rest]
      exact Function.update_self 1 process s₆.processes
    have htask' := congrArg (Option.map Process.task) (hlinks.unlinked process)
    rw [show ({ s₆ with processes := Function.update s₆.processes 1 process } : Kernel).procs process =
      some _ from hprep'.procs_eq, hT] at htask'
    rw [hslot]
    rw [Option.map_map] at htask'
    exact htask'
  · obtain ⟨hadd, hslots, hslots', htables, hhandles, htaskRing, hprocRing⟩ :=
      hprep.publish hring hsys hprocs hnew hT hset' hinsert
    refine ⟨htables.trans hsame.1, hhandles.trans hsame.2.1, process, task, _,
      ⟨hadd, rfl, ?_, htaskRing, hprocRing⟩, rfl⟩
    rw [hslots, hslots', hsame.2.2]

/-- `init_system_process`: the rings of one node, and what is current. -/
structure SystemCreated (s t : Kernel) (process : Word) : Prop where
  ne_null : process ≠ 0
  system_ne_null : s.image.systemTask ≠ 0
  fresh : s.procs process = none
  rest : t = { s with
    requests := t.requests
    blocks := t.blocks
    processes := Function.update s.processes 0 process
    procs := t.procs
    tasks := t.tasks
    currentTask := s.image.systemTask
    currentProcess := process }
  taskRing : LinkRing t.nextTask t.prevTask s.image.systemTask []
  procRing : LinkRing t.nextProc t.prevProc process []
  systemTask : t.processOf s.image.systemTask = some process
  process : ∃ x, t.procs process = some x ∧ x.pid = 0 ∧ x.task = s.image.systemTask ∧
    x.pageDirectory = s.image.kernelPageDirectory

theorem initSystemProcess_ok {i : Unit} (h : initSystemProcess s = .ok (i, t)) :
    ∃ process, SystemCreated s t process := by
  replace h := bind_get_ok h
  obtain ⟨process, s₁, halloc, h⟩ := bind_ok (bind_get_ok h)
  obtain ⟨_, s₂, hset, h⟩ := bind_ok h
  obtain ⟨_, s₃, htask, h⟩ := bind_ok h
  obtain ⟨_, s₄, hcur, h⟩ := bind_ok h
  cases hcur
  cases h
  have hne : process ≠ 0 := (Store.modify_ok hset).1
  have hprep := (Preparing.of_alloc halloc hne).of_modify hset
  obtain ⟨htables, hhandles, hslots⟩ := (sameTables_alloc halloc).trans (sameTables_modify hset)
  have hs₂ : s₂ = { s with requests := s₂.requests, blocks := s₂.blocks, procs := s₂.procs } := by
    rw [hprep.rest]
    simp only [htables, hhandles, hslots]
  obtain ⟨hsystem, y, hy, rfl⟩ := Store.modify_ok htask
  have hview : ∀ (f : Task → Word) (x : Task),
      (Function.update s₂.tasks s.image.systemTask (some x) s.image.systemTask).map f =
        some (f x) := by
    intro f x
    rw [Function.update_self, Option.map_some]
  refine ⟨process, hne, hsystem, hprep.fresh, ?_, .singleton (hview _ _) (hview _ _),
    .singleton (congrArg _ hprep.procs_eq) (congrArg _ hprep.procs_eq), hview _ _, _,
    hprep.procs_eq, rfl, rfl, rfl⟩
  rw [tasks_put, hs₂]

end

end AvocadOS
