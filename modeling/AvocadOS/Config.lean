import Mathlib.Algebra.Group.Int.Defs
import Mathlib.Algebra.GroupWithZero.Nat
import Mathlib.Logic.Function.Basic

/-!
# Machine words, error numbers and build constants

The i686 target: `uintptr_t`, `size_t` and `uint32_t` are 32-bit words, `char` is a byte.
Addresses are `Word`s, so pointer arithmetic wraps as on the machine. Sizes, counts and table
indices are `Nat`, reduced modulo `2 ^ 32` where the code's own arithmetic can wrap.

* `config.h`: heap, program and table sizes;
* `status.h`: the error numbers, returned negated;
* `Fault`: the ways in which a call does not return.
-/

namespace AvocadOS

/-- A 32-bit machine word. -/
abbrev Word := BitVec 32

/-- A byte of memory or of a disk. -/
abbrev Byte := BitVec 8

/-- Flat memory. -/
abbrev Memory := Word → Byte

/-! ## `config.h` -/

def PAGING_PAGE_SIZE : Nat := 4096
def KERNEL_VIRTUAL_BASE : Word := 0xC0000000
def KERNEL_HEAP_SIZE : Nat := 0x1000000
def KERNEL_HEAP_BLOCK_SIZE : Nat := 4096
def MAX_PATH_LEN : Nat := 250
def MAX_OPEN_FILES : Nat := 100
def MAX_PROCESSES : Nat := 1024
def TASK_KERNEL_STACK_SIZE : Nat := 4096
def PROGRAM_BASE_VIRT_ADDR : Word := 0x400000
def PROGRAM_STACK_TOP_VIRT_ADDR : Word := 0x4000000
def PROGRAM_STACK_SIZE : Nat := 4096

/-! ## `status.h` -/

def EIO : Int := 5
def EBADF : Int := 9
def ENOMEM : Int := 12
def EINVAL : Int := 22
def EMFILE : Int := 24
def ENOMEDIUM : Int := 123
def EMEDIUMTYPE : Int := 124

/-- Why a call does not return a value. On the machine a NULL or dangling pointer reads or writes
memory that belongs to something else; the model stops there. -/
inductive Fault where
  /-- A dereference of NULL. -/
  | nullDeref
  /-- A dereference of an address with no live object of the type. -/
  | badDeref
  /-- An index past the end of a static table. -/
  | outOfBounds
  /-- An unsigned division by zero. -/
  | divideByZero
  /-- `panic(msg)`, which spins forever. -/
  | panic (msg : String)
  /-- The fuel of a loop ran out. -/
  | hang
  /-- `kfree` of a pointer that is no live block. -/
  | badFree
  /-- The allocator handed out a block that was not free. -/
  | misallocated
  deriving DecidableEq, Repr

end AvocadOS
