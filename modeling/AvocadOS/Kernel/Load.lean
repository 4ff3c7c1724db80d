import AvocadOS.Fat16.RootDir
import AvocadOS.Fs.Model
import AvocadOS.Kernel.Creation

/-!
# Loading a program

`process_load` looks for a free slot, reads the program into memory and creates its process.
`fuel` bounds the lookup of the file in its directories.

* `processLoad`, `processLoadBinary`: the two functions of `process.c`;
* `processInit_name`: the name that a process gets is a copy of that of the file;
* `process_names_end_iff`: when this copy ends with a NUL.
-/

namespace AvocadOS

open Kernel

/-- The bytes from `a` on. -/
def writeRaw (a : Word) (bytes : List Byte) : K Unit :=
  assign fun s => { s with raw := fun x =>
    if (x - a).toNat < bytes.length then bytes.getD (x - a).toNat 0 else s.raw x }

/-- Nothing but the bytes is written. -/
theorem writeRaw_ok {a : Word} {bytes : List Byte} {u : Unit} {s t : Kernel}
    (h : writeRaw a bytes s = .ok (u, t)) :
    t = { s with raw := t.raw } ∧ ∀ x, t.raw x =
      if (x - a).toNat < bytes.length then bytes.getD (x - a).toNat 0 else s.raw x := by
  cases h
  exact ⟨rfl, fun _ => rfl⟩

/-- `process_load_binary` from `fstat` on, up to `out`: `res`, `*memory` and `*len`. -/
def processLoadBinaryRead (fd : Word) : K (Int × Word × Nat) := do
  let (res, size) ← fstat (← files.load fd).fileno
  if res ≠ 0 then pure (res, 0, 0)
  else
    let memory ← kzalloc size
    if memory = 0 then pure (-ENOMEM, 0, 0)
    else
      let (readBytes, bytes) ← fread size 1 fd
      writeRaw memory bytes
      if readBytes ≠ size then pure (- EIO, memory, 0) else pure (0, memory, size)

/-- `process_load_binary` from `out` on. The file is closed first; after an error it is closed once
more. -/
def processLoadBinaryOut (fd : Word) (res : Int) (memory : Word) (len : Nat) :
    K (Int × Word × Nat) := do
  let _ ← fclose fd
  if res ≠ 0 then
    if fd ≠ 0 then let _ ← fclose fd
    if memory ≠ 0 then kfree memory
    pure (res, 0, 0)
  else pure (res, memory, len)

def processLoadBinary (fuel : Nat) (filename : List Byte) : K (Int × Word × Nat) := do
  let fd ← fopen fuel filename (ascii "r")
  if fd = 0 then processLoadBinaryOut fd (- EIO) 0 0
  else
    let (res, memory, len) ← processLoadBinaryRead fd
    processLoadBinaryOut fd res memory len

/-- `process_load`. What `process_load_binary` returns is not looked at. -/
def processLoad (fuel : Nat) (filename : List Byte) : K Int := do
  match findFreeSlot (← get).processes MAX_PROCESSES 0 with
  | none => pure (-ENOMEM)
  | some slot =>
    let (_, memory, memorySize) ← processLoadBinary fuel filename
    processInit filename memory memorySize false slot

/-! ## Names -/

namespace Kernel

/-- `process->name`. -/
def nameAt (s : Kernel) (process : Word) : Option (List Byte) := (s.procs process).map Process.name

/-- There is a NUL in the array `process->name`. -/
def NameEnds (s : Kernel) (process : Word) : Prop :=
  ∃ name, s.nameAt process = some name ∧ name.length = MAX_PATH_LEN ∧ 0 ∈ name

/-- Neither names nor `processes[]` differ. -/
def SameNames (s t : Kernel) : Prop := t.nameAt = s.nameAt ∧ t.processes = s.processes

instance : Std.Refl SameNames := ⟨fun _ => ⟨rfl, rfl⟩⟩

instance : Trans SameNames SameNames SameNames where
  trans h₁ h₂ := ⟨h₂.1.trans h₁.1, h₂.2.trans h₁.2⟩

end Kernel

section

variable {s t : Kernel} {process : Word} {slot : Nat} {name : List Byte}

theorem modify_sameNames (p : Word) (f : Process → Process) (hf : ∀ x, (f x).name = x.name) :
    Keeps SameNames (procs.modify p f) := by
  intro s a t h
  obtain ⟨-, x, hx, rfl⟩ := Store.modify_ok h
  exact ⟨map_update_same hx (hf x), rfl⟩

theorem taskModify_sameNames (p : Word) (f : Task → Task) : Keeps SameNames (tasks.modify p f) := by
  intro s a t h
  obtain ⟨-, x, -, rfl⟩ := Store.modify_ok h
  exact ⟨rfl, rfl⟩

theorem taskListInsert_sameNames (task : Word) : Keeps SameNames (taskListInsert task) := by
  refine .bind .get fun s => .bind (taskModify_sameNames _ _) fun _ => .bind (keeps_load _) fun _ => ?_
  refine .bind (taskModify_sameNames _ _) fun _ => .bind (taskModify_sameNames _ _) fun _ => ?_
  exact .bind (keeps_load _) fun _ => taskModify_sameNames _ _

theorem taskNew_sameNames (process : Word) (privileged : Bool) (entryPoint esp : Word) :
    Keeps SameNames (taskNew process privileged entryPoint esp) := by
  intro s task t h
  rcases taskNew_unlinked h with ⟨-, rfl⟩ | ⟨-, -, h⟩
  · exact ⟨rfl, rfl⟩
  · have hinsert := taskListInsert_sameNames task h
    exact hinsert

theorem processListInsert_sameNames (process : Word) :
    Keeps SameNames (processListInsert process) := by
  refine .bind .get fun s => .bind (keeps_load _) fun _ => ?_
  refine .bind (modify_sameNames _ _ fun _ => by rfl) fun _ => .bind (keeps_load _) fun _ => ?_
  refine .bind (modify_sameNames _ _ fun _ => by rfl) fun _ => ?_
  refine .bind (modify_sameNames _ _ fun _ => by rfl) fun _ => .bind (keeps_load _) fun _ => ?_
  exact modify_sameNames _ _ fun _ => by rfl

theorem kzalloc_sameNames (size : Nat) : Keeps SameNames (kzalloc size) := by
  intro s a t h
  rcases kzalloc_ok h with ⟨-, rfl⟩ | ⟨-, -, -, rfl⟩ <;> exact ⟨rfl, rfl⟩

/-- A write of the whole process. -/
theorem nameAt_of_modify {f : Process → Process} {i : Unit}
    (h : procs.modify process f s = .ok (i, t)) (hf : ∀ x, (f x).name = name) :
    t.nameAt process = some name ∧ t.processes = s.processes := by
  obtain ⟨-, x, -, rfl⟩ := Store.modify_ok h
  refine ⟨?_, rfl⟩
  have hself := congrArg (Option.map Process.name) (Function.update_self process (some (f x)) s.procs)
  rw [Option.map_some, hf] at hself
  exact hself

theorem initSystemProcess_name {i : Unit} (h : initSystemProcess s = .ok (i, t)) :
    t.nameAt (t.processes 0) = some (strncpy (ascii "System Process") MAX_PATH_LEN) := by
  replace h := bind_get_ok h
  obtain ⟨process, s₁, -, h⟩ := bind_ok (bind_get_ok h)
  obtain ⟨_, s₂, hset, h⟩ := bind_ok h
  obtain ⟨_, s₃, htask, h⟩ := bind_ok h
  obtain ⟨_, s₄, hcur, h⟩ := bind_ok h
  cases hcur
  cases h
  have hname : s₂.nameAt process = some (strncpy (ascii "System Process") MAX_PATH_LEN) :=
    (nameAt_of_modify hset fun _ => rfl).1
  rw [← (taskModify_sameNames _ _ htask).1] at hname
  have hslot : Function.update s₃.processes 0 process 0 = process := Function.update_self _ _ _
  exact (congrArg s₃.nameAt hslot).trans hname

theorem initIdleProcess_name {i : Unit} (h : initIdleProcess s = .ok (i, t)) :
    t.nameAt (t.processes 1) = some (strncpy (ascii "Idle Process") MAX_PATH_LEN) := by
  obtain ⟨process, s₁, -, h⟩ := bind_ok (bind_get_ok h)
  obtain ⟨_, s₂, hset, h⟩ := bind_ok h
  obtain ⟨stack, s₃, hkz, h⟩ := bind_ok h
  obtain ⟨_, s₄, hstack, h⟩ := bind_ok h
  replace h := bind_get_ok h
  obtain ⟨task, s₅, hnew, h⟩ := bind_ok (bind_get_ok h)
  obtain ⟨_, s₆, hset', h⟩ := bind_ok h
  obtain ⟨_, s₇, hslot, hinsert⟩ := bind_ok h
  cases hslot
  have hname : s₂.nameAt process = some (strncpy (ascii "Idle Process") MAX_PATH_LEN) :=
    (nameAt_of_modify hset fun _ => rfl).1
  rw [← (kzalloc_sameNames _ hkz).1, ← (modify_sameNames _ _ (fun _ => by rfl) hstack).1,
    ← (taskNew_sameNames _ _ _ _ hnew).1, ← (modify_sameNames _ _ (fun _ => by rfl) hset').1] at hname
  obtain ⟨hnames, hslots⟩ := processListInsert_sameNames _ hinsert
  have hslot : t.processes 1 = process := by
    rw [hslots]
    exact Function.update_self 1 process s₆.processes
  rw [hslot, hnames]
  exact hname

/-- The name of a new process. -/
theorem processInit_name {memory : Word} {memorySize : Nat} {privileged : Bool}
    (h : processInit name memory memorySize privileged slot s = .ok (0, t)) :
    t.nameAt (t.processes slot) = some (strncpy name MAX_PATH_LEN) := by
  obtain ⟨process, stack, u, v, -, hprep, hslot, -, -, hmap, htask⟩ := processInit_parts h
  obtain ⟨dir, -, -, -, -, -, -, -, -, hslot'⟩ := processMapMemory_ok hprep hmap
  obtain ⟨_, v₁, hset, htask⟩ := bind_ok htask
  obtain ⟨hname, hslot₁⟩ := nameAt_of_modify hset fun _ => rfl
  obtain ⟨task, v₂, hnew, htask⟩ := bind_ok htask
  obtain ⟨_, v₃, hset', htask⟩ := bind_ok htask
  split at htask
  · cases htask
  obtain ⟨_, t', hinsert, htask⟩ := bind_ok htask
  obtain ⟨-, rfl⟩ := pure_ok htask
  have hnames : SameNames v₁ t := Trans.trans (taskNew_sameNames _ _ _ _ hnew)
    (Trans.trans (modify_sameNames _ _ (fun _ => by rfl) hset') (processListInsert_sameNames _ hinsert))
  have hprocess : t.processes slot = process := by
    rw [hnames.2, hslot₁, hslot', hslot, Function.update_self]
  rw [hprocess, hnames.1, hname]

theorem nameEnds_iff (h : s.nameAt process = some (strncpy name MAX_PATH_LEN)) :
    s.NameEnds process ↔ strlen name < MAX_PATH_LEN := by
  rw [← zero_mem_strncpy]
  constructor
  · rintro ⟨name', hname, -, hzero⟩
    rw [h] at hname
    exact Option.some.inj hname ▸ hzero
  · exact fun hzero => ⟨_, h, strncpy_length _ _, hzero⟩

/-- A successful `process_load` has created a process with the name of the file. -/
theorem processLoad_name {fuel : Nat} (h : processLoad fuel name s = .ok (0, t)) :
    ∃ slot, findFreeSlot s.processes MAX_PROCESSES 0 = some slot ∧
      t.nameAt (t.processes slot) = some (strncpy name MAX_PATH_LEN) := by
  replace h := bind_get_ok h
  cases hfree : findFreeSlot s.processes MAX_PROCESSES 0 with
  | none =>
    rw [hfree] at h
    cases h
  | some slot =>
    rw [hfree] at h
    obtain ⟨_, u, -, h⟩ := bind_ok h
    exact ⟨slot, rfl, processInit_name h⟩

end

/-- The names of the system process and of the idle process end with a NUL, that of a loaded process
exactly if the name of its file has less than `MAX_PATH_LEN` characters. -/
theorem process_names_end_iff (s t : Kernel) (fuel : Nat) (filename : List Byte) :
    (initSystemProcess s = .ok ((), t) → t.NameEnds (t.processes 0)) ∧
    (initIdleProcess s = .ok ((), t) → t.NameEnds (t.processes 1)) ∧
    (processLoad fuel filename s = .ok (0, t) →
      ∃ slot, findFreeSlot s.processes MAX_PROCESSES 0 = some slot ∧
        (t.NameEnds (t.processes slot) ↔ strlen filename < MAX_PATH_LEN)) := by
  refine ⟨fun h => ?_, fun h => ?_, fun h => ?_⟩
  · exact (nameEnds_iff (initSystemProcess_name h)).mpr (by decide)
  · exact (nameEnds_iff (initIdleProcess_name h)).mpr (by decide)
  · obtain ⟨slot, hfree, hname⟩ := processLoad_name h
    exact ⟨slot, hfree, nameEnds_iff hname⟩

/-! A volume whose root directory has the program `A`, of one byte in cluster 2. -/

def programDisk : Disk where
  bytes a :=
    if a = 30 * 512 + 4 ∨ a = 30 * 512 + 5 then 0xFF   -- the FAT entry of cluster 2
    else if a = 31 * 512 + 26 then 2
    else if a = 31 * 512 + 28 then 1
    else (oneFileDisk 30).bytes a

def programVolume : FatPrivate := .ofHeader (.ofBytes (programDisk.slice 0 FAT_HEADER_SIZE))

/-- The two processes of `tasking_init`, and the volume. -/
def programKernel : Kernel :=
  { twoTasks with fsPrivate := some programVolume, dev := ⟨programDisk, 0, []⟩ }

/-- Its path with slashes at the end, which the parser does not look at. -/
def longProgramPath : List Byte := ascii "0:/A" ++ List.replicate 246 0x2F

theorem long_name_without_nul : ¬ ∀ fuel filename s t slot,
    processLoad fuel filename s = .ok (0, t) →
    findFreeSlot s.processes MAX_PROCESSES 0 = some slot → t.NameEnds (t.processes slot) := by
  intro hclaim
  have hfst : (processLoad 10 longProgramPath programKernel).toOption.map Prod.fst = some 0 := by
    decide +kernel
  obtain ⟨⟨res, t⟩, ht, rfl⟩ := Option.map_eq_some_iff.mp hfst
  have hrun := ok_of_toOption ht
  obtain ⟨slot, hfree, hname⟩ := processLoad_name hrun
  have hends := (nameEnds_iff hname).mp (hclaim _ _ _ _ slot hrun hfree)
  exact absurd hends (by decide +kernel)

end AvocadOS
