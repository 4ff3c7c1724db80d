import AvocadOS.Fat16.Model
import AvocadOS.Heap.Model

/-!
# The state of the kernel

Every allocated or static structure is an object at its address, in a map of its type; code that
dereferences NULL or an address without such an object faults. `K` is code over this state. Addresses
are virtual, and objects do not move when their own page is mapped elsewhere: that the kernel's image
and its heap stay mapped where they are is assumed, and for page tables, directories and handles it is
a condition on runs (`PagingSession.InPlace`).

The allocator is seen from its clients: `answers` are the pointers that the calls of `kzalloc` get
one after the other, NULL included. An answer that is not NULL must be a new block (`Fresh`: page
aligned, apart from the live ones, no object there), as `heap_malloc` returns them; a run with
another answer ends in `Fault.misallocated` and no statement is made about it. `blocks` are the live
blocks, `inUse` what `heap->table->in_use` counts.

* `Store.load`, `Store.modify`, `Store.alloc`: dereferencing, writing and allocating an object, the
  same for every type;
* `kzalloc_ok`, `Store.load_ok`, `Store.modify_ok`, `Store.alloc_ok`: what they did, if they return.
-/

namespace AvocadOS

/-! ## Objects -/

/-- `struct page_directory_handle`. -/
structure PageDirectoryHandle where
  directory : Word
  directoryVirtual : Nat → Word

/-- `struct general_purpose_registers`, as pushed by `pushad`. -/
structure GeneralPurposeRegisters where
  edi : Word
  esi : Word
  ebp : Word
  esp : Word
  ebx : Word
  edx : Word
  ecx : Word
  eax : Word
  deriving DecidableEq

structure SegmentRegisters where
  gs : Word
  fs : Word
  es : Word
  ds : Word
  cs : Word
  ss : Word
  deriving DecidableEq

structure ProcessState where
  segments : SegmentRegisters
  eflags : Word
  eip : Word
  generalRegs : GeneralPurposeRegisters
  deriving DecidableEq

/-- `union task`: the control block at the lower end of the kernel stack. `kstack` are the words
pushed at its upper end, the last one first. -/
structure Task where
  registers : ProcessState
  nSwitches : Word
  sp : Word
  ip : Word
  process : Word
  kernelStackPointer : Word
  next : Word
  previous : Word
  kstack : List Word
  deriving DecidableEq

def Task.setNext (next : Word) (t : Task) : Task := { t with next := next }
def Task.setPrevious (previous : Word) (t : Task) : Task := { t with previous := previous }
def Task.setKernelStackPointer (p : Word) (t : Task) : Task := { t with kernelStackPointer := p }
def Task.countSwitch (t : Task) : Task := { t with nSwitches := t.nSwitches + 1 }

structure Process where
  pid : Nat
  name : List Byte
  task : Word
  pageDirectory : Word
  memory : Word
  memorySize : Nat
  stack : Word
  next : Word
  previous : Word
  deriving DecidableEq

def Process.zero : Process := ⟨0, List.replicate MAX_PATH_LEN 0, 0, 0, 0, 0, 0, 0, 0⟩

def Process.setNext (next : Word) (p : Process) : Process := { p with next := next }
def Process.setPrevious (previous : Word) (p : Process) : Process := { p with previous := previous }

def Process.setTask (task : Word) (p : Process) : Process := { p with task := task }
def Process.setStack (stack : Word) (p : Process) : Process := { p with stack := stack }
def Process.setPageDirectory (directory : Word) (p : Process) : Process :=
  { p with pageDirectory := directory }

/-- `struct path_part`. -/
structure PathPart where
  part : Word
  next : Word

/-- `struct path_root`. -/
structure PathRoot where
  driveNumber : Int
  first : Word

/-- `struct FILE`. -/
structure File where
  disk : Word
  path : Word
  privateData : Word
  fileno : Int

/-- A live block of the kernel heap. -/
structure Block where
  ptr : Word
  size : Nat
  deriving DecidableEq

/-- The addresses of static objects, and of the end of the kernel's image. -/
structure Image where
  systemTask : Word
  kernelPageDirectory : Word
  bootPageDirectory : Word
  disk : Word
  idleFunction : Word
  kernelEnd : Word

structure Kernel where
  image : Image
  answers : Nat → Word
  requests : Nat
  blocks : List Block
  /-- Bytes of memory that belong to no object of the model. -/
  raw : Word → Byte
  tables : Word → Option (Nat → Word)
  handles : Word → Option PageDirectoryHandle
  tasks : Word → Option Task
  procs : Word → Option Process
  files : Word → Option File
  roots : Word → Option PathRoot
  parts : Word → Option PathPart
  strings : Word → Option (List Byte)
  items : Word → Option FatItem
  descriptors : Word → Option FatDescriptor
  currentTask : Word
  currentProcess : Word
  currentDirectory : Word
  processes : Nat → Word
  fileTable : Nat → Word
  cr3 : Word
  cr4 : Word
  tssEsp0 : Word
  /-- `disks[0].fs_private`, if a file system was found on the disk. -/
  fsPrivate : Option FatPrivate
  dev : DiskStream

/-- Nothing is allocated, the page tables and handles are those of the image. -/
def Kernel.blank (image : Image) (answers : Nat → Word) (tables : Word → Option (Nat → Word))
    (handles : Word → Option PageDirectoryHandle) : Kernel where
  image := image
  answers := answers
  requests := 0
  blocks := []
  raw := fun _ => 0
  tables := tables
  handles := handles
  tasks := fun _ => none
  procs := fun _ => none
  files := fun _ => none
  roots := fun _ => none
  parts := fun _ => none
  strings := fun _ => none
  items := fun _ => none
  descriptors := fun _ => none
  currentTask := 0
  currentProcess := 0
  currentDirectory := 0
  processes := fun _ => 0
  fileTable := fun _ => 0
  cr3 := 0
  cr4 := 0
  tssEsp0 := 0
  fsPrivate := none
  dev := ⟨⟨fun _ => 0⟩, 0, []⟩

/-- Code that runs in the kernel. -/
abbrev K := StateT Kernel (Except Fault)

/-- The state that `m` leaves. -/
def Kernel.after {α : Type} (s : Kernel) (m : K α) : Kernel :=
  match m s with
  | .ok (_, t) => t
  | .error _ => s

/-! ## The allocator -/

namespace Kernel

/-- `heap->table->in_use`. -/
def inUse (s : Kernel) : Nat := (s.blocks.map fun b => sizeToNblocks b.size).sum

/-- No object at the address. -/
def vacant (s : Kernel) (a : Word) : Bool :=
  (s.tables a).isNone && (s.handles a).isNone && (s.tasks a).isNone && (s.procs a).isNone &&
    (s.files a).isNone && (s.roots a).isNone && (s.parts a).isNone && (s.strings a).isNone &&
    (s.items a).isNone && (s.descriptors a).isNone

/-- A new block. -/
def Fresh (s : Kernel) (a : Word) (size : Nat) : Prop :=
  a.toNat % PAGING_PAGE_SIZE = 0 ∧ a.toNat + size ≤ 2 ^ 32 ∧ s.vacant a = true ∧
    ∀ b ∈ s.blocks, a.toNat + sizeToNblocks size * KERNEL_HEAP_BLOCK_SIZE ≤ b.ptr.toNat ∨
      b.ptr.toNat + sizeToNblocks b.size * KERNEL_HEAP_BLOCK_SIZE ≤ a.toNat

instance (s : Kernel) (a : Word) (size : Nat) : Decidable (s.Fresh a size) :=
  inferInstanceAs (Decidable (_ ∧ _))

/-- The state without the object at `a`. -/
def erase (s : Kernel) (a : Word) : Kernel :=
  { s with
    tables := Function.update s.tables a none
    handles := Function.update s.handles a none
    tasks := Function.update s.tasks a none
    procs := Function.update s.procs a none
    files := Function.update s.files a none
    roots := Function.update s.roots a none
    parts := Function.update s.parts a none
    strings := Function.update s.strings a none
    items := Function.update s.items a none
    descriptors := Function.update s.descriptors a none }

/-- One answer of the allocator is used up. -/
def asked (s : Kernel) : Kernel := { s with requests := s.requests + 1 }

def withBlock (s : Kernel) (a : Word) (size : Nat) : Kernel :=
  { s with blocks := ⟨a, size⟩ :: s.blocks }

end Kernel

/-- `kzalloc`; NULL is `0`. -/
def kzalloc (size : Nat) : K Word := fun s =>
  let a := s.answers s.requests
  if size = 0 ∨ a = 0 then .ok (0, s.asked)
  else if s.Fresh a size then .ok (a, s.asked.withBlock a size)
  else .error .misallocated

/-- `kfree` of a live block. -/
def kfree (a : Word) : K Unit := fun s =>
  if s.blocks.any (·.ptr == a) then
    .ok ((), { s.erase a with blocks := s.blocks.filter (·.ptr ≠ a) })
  else .error .badFree

/-! ## Objects of one type -/

/-- One of the maps of the state. -/
structure Store (α : Type) where
  get : Kernel → Word → Option α
  put : Kernel → (Word → Option α) → Kernel

namespace Store

variable {α : Type} (st : Store α)

/-- `*p`. -/
def load (p : Word) : K α := fun s =>
  if p = 0 then .error .nullDeref
  else match st.get s p with
    | none => .error .badDeref
    | some a => .ok (a, s)

/-- A write to fields of `*p`. -/
def modify (p : Word) (f : α → α) : K Unit := fun s =>
  if p = 0 then .error .nullDeref
  else match st.get s p with
    | none => .error .badDeref
    | some a => .ok ((), st.put s (Function.update (st.get s) p (some (f a))))

/-- `kzalloc` of an object; `zero` is what its zeroed memory stands for. -/
def alloc (size : Nat) (zero : α) : K Word := do
  let a ← kzalloc size
  if a = 0 then pure 0
  else fun s => .ok (a, st.put s (Function.update (st.get s) a (some zero)))

end Store

/-- A page of 1024 entries. -/
def tables : Store (Nat → Word) := ⟨Kernel.tables, fun s m => { s with tables := m }⟩
def handles : Store PageDirectoryHandle := ⟨Kernel.handles, fun s m => { s with handles := m }⟩
def tasks : Store Task := ⟨Kernel.tasks, fun s m => { s with tasks := m }⟩
def procs : Store Process := ⟨Kernel.procs, fun s m => { s with procs := m }⟩
def files : Store File := ⟨Kernel.files, fun s m => { s with files := m }⟩
def roots : Store PathRoot := ⟨Kernel.roots, fun s m => { s with roots := m }⟩
def parts : Store PathPart := ⟨Kernel.parts, fun s m => { s with parts := m }⟩
def strings : Store (List Byte) := ⟨Kernel.strings, fun s m => { s with strings := m }⟩
def items : Store FatItem := ⟨Kernel.items, fun s m => { s with items := m }⟩
def descriptors : Store FatDescriptor :=
  ⟨Kernel.descriptors, fun s m => { s with descriptors := m }⟩

section

variable (s : Kernel)

@[simp] theorem tables_get : tables.get s = s.tables := rfl
@[simp] theorem handles_get : handles.get s = s.handles := rfl
@[simp] theorem tasks_get : tasks.get s = s.tasks := rfl
@[simp] theorem procs_get : procs.get s = s.procs := rfl
@[simp] theorem tables_put (m) : tables.put s m = { s with tables := m } := rfl
@[simp] theorem handles_put (m) : handles.put s m = { s with handles := m } := rfl
@[simp] theorem tasks_put (m) : tasks.put s m = { s with tasks := m } := rfl
@[simp] theorem procs_put (m) : procs.put s m = { s with procs := m } := rfl

end

/-! ## What they did, if they return -/

section Returned

variable {α β : Type} {s t : Kernel} {a p : Word} {size : Nat}

theorem bind_ok {m : K α} {f : α → K β} {b : β} (h : (m >>= f) s = .ok (b, t)) :
    ∃ a u, m s = .ok (a, u) ∧ f a u = .ok (b, t) := by
  simp only [Bind.bind, StateT.bind, Except.bind] at h
  cases hm : m s with
  | error e => simp [hm] at h
  | ok r =>
    rw [hm] at h
    exact ⟨r.1, r.2, rfl, h⟩

theorem pure_ok {a b : α} (h : (pure a : K α) s = .ok (b, t)) : b = a ∧ t = s := by
  cases h; exact ⟨rfl, rfl⟩

theorem kzalloc_ok (h : kzalloc size s = .ok (a, t)) :
    (a = 0 ∧ t = s.asked) ∨ (a ≠ 0 ∧ 0 < size ∧ s.Fresh a size ∧ t = s.asked.withBlock a size) := by
  simp only [kzalloc] at h
  split at h
  · cases h; exact .inl ⟨rfl, rfl⟩
  split at h
  · rename_i hne hfresh
    cases h
    rw [not_or] at hne
    exact .inr ⟨hne.2, Nat.pos_of_ne_zero hne.1, hfresh, rfl⟩
  · cases h

theorem kfree_ok {u : Unit} (h : kfree a s = .ok (u, t)) :
    (∃ b ∈ s.blocks, b.ptr = a) ∧ t = { s.erase a with blocks := s.blocks.filter (·.ptr ≠ a) } := by
  simp only [kfree] at h
  split at h
  · rename_i hany
    cases h
    exact ⟨by simpa using hany, rfl⟩
  · cases h

namespace Store

variable {st : Store α} {x : α}

theorem load_ok (h : st.load p s = .ok (x, t)) : p ≠ 0 ∧ st.get s p = some x ∧ t = s := by
  simp only [load] at h
  split at h
  · cases h
  rename_i hp
  split at h
  · cases h
  · rename_i hget
    cases h
    exact ⟨hp, hget, rfl⟩

theorem load_eq (hp : p ≠ 0) (hx : st.get s p = some x) : st.load p s = .ok (x, s) := by
  simp only [load, hp, if_false, hx]

theorem modify_ok {f : α → α} {u : Unit} (h : st.modify p f s = .ok (u, t)) :
    p ≠ 0 ∧ ∃ x, st.get s p = some x ∧
      t = st.put s (Function.update (st.get s) p (some (f x))) := by
  simp only [modify] at h
  split at h
  · cases h
  rename_i hp
  split at h
  · cases h
  · rename_i x hget
    cases h
    exact ⟨hp, x, hget, rfl⟩

theorem alloc_ok {zero : α} (h : st.alloc size zero s = .ok (a, t)) :
    (a = 0 ∧ t = s.asked) ∨ (a ≠ 0 ∧ s.Fresh a size ∧
      t = st.put (s.asked.withBlock a size)
        (Function.update (st.get (s.asked.withBlock a size)) a (some zero))) := by
  obtain ⟨b, u, hk, h⟩ := bind_ok h
  rcases kzalloc_ok hk with ⟨rfl, rfl⟩ | ⟨hb, -, hfresh, rfl⟩
  · simp only [if_true] at h
    obtain ⟨rfl, rfl⟩ := pure_ok h
    exact .inl ⟨rfl, rfl⟩
  · rw [if_neg hb] at h
    cases h
    exact .inr ⟨hb, hfresh, rfl⟩

/-! The same for the first instruction of a sequence. -/

variable {k : α → K β} {b : β}

theorem bind_load_ok (h : (st.load p >>= k) s = .ok (b, t)) :
    p ≠ 0 ∧ ∃ x, st.get s p = some x ∧ k x s = .ok (b, t) := by
  obtain ⟨x, u, hload, hk⟩ := bind_ok h
  obtain ⟨hp, hx, rfl⟩ := load_ok hload
  exact ⟨hp, x, hx, hk⟩

theorem bind_modify_ok {f : α → α} {k : Unit → K β} (h : (st.modify p f >>= k) s = .ok (b, t)) :
    p ≠ 0 ∧ ∃ x, st.get s p = some x ∧
      k () (st.put s (Function.update (st.get s) p (some (f x)))) = .ok (b, t) := by
  obtain ⟨_, u, hmodify, hk⟩ := bind_ok h
  obtain ⟨hp, x, hx, rfl⟩ := modify_ok hmodify
  exact ⟨hp, x, hx, hk⟩

end Store

/-! And, the other way, from what the first instruction does. -/

theorem bind_eq {σ ε : Type} {s t : σ} {m : StateT σ (Except ε) α} {f : α → StateT σ (Except ε) β}
    {x : α} (h : m s = .ok (x, t)) : (m >>= f) s = f x t := by
  simp only [Bind.bind, StateT.bind, Except.bind, h]

theorem Store.modify_eq {st : Store α} {f : α → α} {x : α} (hp : p ≠ 0) (hx : st.get s p = some x) :
    st.modify p f s = .ok ((), st.put s (Function.update (st.get s) p (some (f x)))) := by
  simp only [Store.modify, hp, if_false, hx]

theorem bind_get_eq {f : Kernel → K β} : (get >>= f) s = f s s := rfl

theorem bind_get_ok {k : Kernel → K β} {b : β} (h : (get >>= k) s = .ok (b, t)) :
    k s s = .ok (b, t) := h

theorem ok_of_toOption {ε : Type} {r : Except ε α} {x : α} (h : r.toOption = some x) : r = .ok x := by
  cases r with
  | error e => cases h
  | ok y =>
    cases h
    rfl

/-- The state after a run that returned. -/
theorem after_of_ok {m : K α} {b : α} (h : (m s).toOption.map Prod.fst = some b) :
    m s = .ok (b, s.after m) := by
  obtain ⟨⟨c, t⟩, hm, rfl⟩ := Option.map_eq_some_iff.mp h
  rw [Kernel.after, ok_of_toOption hm]

/-- There is no object where a block is allocated. -/
theorem Kernel.Fresh.vacant (h : s.Fresh a size) :
    s.tables a = none ∧ s.handles a = none ∧ s.tasks a = none ∧ s.procs a = none := by
  have := h.2.2.1
  simp only [Kernel.vacant, Bool.and_eq_true, Option.isNone_iff_eq_none] at this
  obtain ⟨⟨⟨⟨⟨⟨⟨⟨⟨h₁, h₂⟩, h₃⟩, h₄⟩, -⟩, -⟩, -⟩, -⟩, -⟩, -⟩ := this
  exact ⟨h₁, h₂, h₃, h₄⟩

end Returned

end AvocadOS
