import AvocadOS.Config
import AvocadOS.Lib.Run
import Mathlib.Data.Vector.Basic
import Mathlib.Logic.Function.Basic

/-!
# The circular list (`list.c`)

The heap has one map for each field of a node. NULL is `none`; a read or a write through NULL or
through memory that is not allocated has no result.

A `struct node **list` is passed as the value of the pointer it points to, and the function returns
that pointer's new value after its own result: where the source passes `&ptr` of a local variable,
the new value is dropped. `newNode` is what `malloc` returns. An index is an `unsigned int`; the
counters of the loops never pass it, so they do not wrap.
-/

namespace AvocadOS

abbrev NodePtr := Option Word

abbrev Payload := Vector Word 5

structure NodeHeap where
  allocated : Word → Bool
  next : Word → NodePtr
  prev : Word → NodePtr
  data : Word → Payload

namespace NodeHeap

variable (h : NodeHeap)

/-- The node that `p` points to. -/
def deref (p : NodePtr) : Option Word := p.filter h.allocated

def getNext (p : NodePtr) : Option NodePtr := (h.deref p).map h.next

def getPrev (p : NodePtr) : Option NodePtr := (h.deref p).map h.prev

def setNext (p q : NodePtr) : Option NodeHeap :=
  (h.deref p).map fun a => { h with next := Function.update h.next a q }

def setPrev (p q : NodePtr) : Option NodeHeap :=
  (h.deref p).map fun a => { h with prev := Function.update h.prev a q }

def setData (p : NodePtr) (value : Payload) : Option NodeHeap :=
  (h.deref p).map fun a => { h with data := Function.update h.data a value }

/-- The fields of a new node have any values. -/
def malloc (newNode : Word) : NodeHeap :=
  { h with allocated := Function.update h.allocated newNode true }

def free (node : Word) : NodeHeap :=
  { h with allocated := Function.update h.allocated node false }

def addNodeBefore (newNode : Word) (list : NodePtr) (value : Payload) :
    Option (NodePtr × NodePtr × NodeHeap) := do
  let h := h.malloc newNode
  let h ← h.setData newNode value
  if list = none then
    let h ← h.setNext newNode newNode
    let h ← h.setPrev newNode newNode
    return (some newNode, some newNode, h)
  let h ← h.setNext newNode list
  let h ← h.setPrev newNode (← h.getPrev list)
  let h ← h.setNext (← h.getPrev list) newNode
  let h ← h.setPrev list newNode
  return (some newNode, list, h)

def pushBack (newNode : Word) (list : NodePtr) (value : Payload) :
    Option (NodePtr × NodePtr × NodeHeap) := h.addNodeBefore newNode list value

def pushFront (newNode : Word) (list : NodePtr) (value : Payload) :
    Option (NodePtr × NodePtr × NodeHeap) := do
  let (node, _, h) ← h.pushBack newNode list value
  return (node, node, h)

def extractNode (list : NodePtr) : Option (NodePtr × NodePtr × NodeHeap) := do
  if list = none then return (none, list, h)
  let ptr := list
  if (← h.getNext list) = list then return (ptr, none, h)
  let h ← h.setNext (← h.getPrev ptr) (← h.getNext list)
  let h ← h.setPrev (← h.getNext ptr) (← h.getPrev list)
  let list ← h.getNext list
  let h ← h.setNext ptr ptr
  let h ← h.setPrev ptr ptr
  return (ptr, list, h)

def popBack (list : NodePtr) : Option (NodePtr × NodePtr × NodeHeap) := do
  if list = none then return (none, list, h)
  let ptr ← h.getPrev list
  if (← h.getNext ptr) = ptr then h.extractNode list
  else
    let (node, _, h) ← h.extractNode ptr
    return (node, list, h)

def popFront (list : NodePtr) : Option (NodePtr × NodePtr × NodeHeap) := do
  if list = none then return (none, list, h)
  let list ← h.getNext list
  h.popBack list

/-- The loop of `find_index`, with `left = index - i` iterations to go until `i == index`. -/
def findIndexLoop (list : NodePtr) : Nat → NodePtr → Option NodePtr
  | 0, ptr => some ptr
  | left + 1, ptr => do
    let ptr ← h.getNext ptr
    if list ≠ ptr then findIndexLoop list left ptr else return none

def findIndex (list : NodePtr) (index : Nat) : Option NodePtr :=
  if list = none then some none else h.findIndexLoop list index list

def popIndex (list : NodePtr) (index : Nat) : Option (NodePtr × NodePtr × NodeHeap) := do
  if list = none then return (none, list, h)
  let ptr ← h.findIndex list index
  if ptr = none then return (none, list, h)
  if list = ptr then h.extractNode list
  else
    let (node, _, h) ← h.extractNode ptr
    return (node, list, h)

/-- The loop of `push_index` with the value of `index - i` behind it. -/
def pushIndexLoop (list : NodePtr) : Nat → NodePtr → Option (NodePtr × Nat)
  | 0, ptr => some (ptr, 0)
  | left + 1, ptr => do
    let ptr ← h.getNext ptr
    if list ≠ ptr then pushIndexLoop list left ptr else return (ptr, left)

def pushIndex (newNode : Word) (list : NodePtr) (index : Nat) (data : Payload) :
    Option (NodePtr × NodePtr × NodeHeap) := do
  if list = none ∧ index ≠ 0 then return (none, list, h)
  if index = 0 then h.pushFront newNode list data
  else
    let (ptr, left) ← h.pushIndexLoop list index list
    if list = ptr ∧ left ≠ 0 then return (none, list, h)
    let (node, _, h) ← h.pushBack newNode ptr data
    return (node, list, h)

/-- The result, the new values of `*n1` and `*n2`, and the heap. -/
def swap (n1 n2 : NodePtr) : Option (NodePtr × NodePtr × NodePtr × NodeHeap) := do
  if n1 = none ∨ n2 = none then return (none, n1, n2, h)
  let n1Prev ← h.getPrev n1
  let n2Next ← h.getNext n2
  let h ← h.setNext n1Prev n2
  let h ← h.setPrev n2Next n1
  let h ← if (← h.getNext n1) = n2 ∨ (← h.getPrev n1) = n2 then do
      let h ← h.setPrev n1 n2
      h.setNext n2 n1
    else do
      let h ← h.setPrev (← h.getNext n1) n2
      let h ← h.setNext (← h.getPrev n2) n1
      let h ← h.setPrev n1 (← h.getPrev n2)
      h.setNext n2 (← h.getNext n1)
  let h ← h.setNext n1 n2Next
  let h ← h.setPrev n2 n1Prev
  return (n2, n2, n1, h)

end NodeHeap

/-! ## Calls -/

inductive ListCall
  | pushBack (value : Payload)
  | pushFront (value : Payload)
  | pushIndex (index : Nat) (data : Payload)
  | popBack
  | popFront
  | popIndex (index : Nat)
  | findIndex (index : Nat)
  | extractNode

def ListCall.run (h : NodeHeap) (newNode : Word) (list : NodePtr) :
    ListCall → Option (NodePtr × NodePtr × NodeHeap)
  | pushBack value => h.pushBack newNode list value
  | pushFront value => h.pushFront newNode list value
  | pushIndex index data => h.pushIndex newNode list index data
  | popBack => h.popBack list
  | popFront => h.popFront list
  | popIndex index => h.popIndex list index
  | findIndex index => (h.findIndex list index).map fun node => (node, list, h)
  | extractNode => h.extractNode list

/-- The call takes the node that it returns out of the list. -/
def ListCall.extracts : ListCall → Bool
  | popBack | popFront | popIndex _ | extractNode => true
  | _ => false

/-- The caller's list, and the extracted nodes that have not been freed. -/
structure ListSession where
  heap : NodeHeap
  list : NodePtr
  extracted : List Word

/-- A call, or the caller frees a node that was extracted. -/
inductive ListEvent
  | call (call : ListCall)
  | free (node : Word)

inductive ListStep : ListSession → ListEvent → ListSession → Prop
  | call {s : ListSession} {call : ListCall} {newNode : Word} {node list : NodePtr} {heap : NodeHeap} :
      s.heap.allocated newNode = false → call.run s.heap newNode s.list = some (node, list, heap) →
      ListStep s (.call call)
        ⟨heap, list, if call.extracts then node.toList ++ s.extracted else s.extracted⟩
  | free {s : ListSession} {node : Word} : node ∈ s.extracted →
      ListStep s (.free node)
        ⟨s.heap.free node, s.list, s.extracted.filter (· ≠ node)⟩

end AvocadOS
