import AvocadOS.CircularList.Refine

/-!
# Printing and deleting the list

`print_list`, `print_list_reverse` and `delete_list` go round the ring in a `do … while` loop; `fuel`
bounds the iterations. `free` of memory that is not allocated has no result, so neither has freeing
a node twice, nor reading it after it was freed.

* `printListLoop_eq`, `printListReverseLoop_eq`, `deleteListLoop_eq`: the loops end at the last node;
* `ListCall.owned_perm`: a call moves nodes between the list and its caller, and loses none;
* `list_owned`: after any run the nodes are accounted for, and they are printed in order and freed.
-/

namespace AvocadOS

theorem payload_pos : 0 < 5 := by decide

/-- `data[0]`. -/
def Payload.first (data : Payload) : Int := (data.get ⟨0, payload_pos⟩).toInt

namespace NodeHeap

variable (h : NodeHeap)

def getData (p : NodePtr) : Option Payload := (h.deref p).map h.data

/-- `free(ptr)`. -/
def freePtr : NodePtr → Option NodeHeap
  | none => some h
  | some a => if h.allocated a then some (h.free a) else none

def deleteListLoop (list : NodePtr) : Nat → NodeHeap → NodePtr → Option NodeHeap
  | 0, _, _ => none
  | fuel + 1, h, ptr => do
    let toFree := ptr
    let ptr ← h.getNext ptr
    let h ← h.freePtr toFree
    if list ≠ ptr then deleteListLoop list fuel h ptr else return h

/-- The new value of `*list`, and the heap. -/
def deleteList (fuel : Nat) (list : NodePtr) : Option (NodePtr × NodeHeap) := do
  if list = none then return (list, h)
  let h ← deleteListLoop list fuel h list
  return (none, h)

/-- What one `printf` writes: `"List %p:"`, `"%d "` or `"\n"`. -/
inductive Printed
  | list (list : NodePtr)
  | int (value : Int)
  | newline
deriving DecidableEq

def printListLoop (list : NodePtr) : Nat → NodePtr → Option (List Printed)
  | 0, _ => none
  | fuel + 1, ptr => do
    let data ← h.getData ptr
    let ptr ← h.getNext ptr
    let rest ← if list ≠ ptr then printListLoop list fuel ptr else some []
    return .int data.first :: rest

def printList (fuel : Nat) (list : NodePtr) : Option (List Printed) := do
  if list = none then return [.list list, .newline]
  let values ← h.printListLoop list fuel list
  return .list list :: values ++ [.newline]

def printListReverseLoop (list : NodePtr) : Nat → NodePtr → Option (List Printed)
  | 0, _ => none
  | fuel + 1, ptr => do
    let data ← h.getData ptr
    let ptr ← h.getPrev ptr
    let rest ← if (← h.getPrev list) ≠ ptr then printListReverseLoop list fuel ptr else some []
    return .int data.first :: rest

def printListReverse (fuel : Nat) (list : NodePtr) : Option (List Printed) := do
  if list = none then return [.list list, .newline]
  let values ← h.printListReverseLoop list fuel (← h.getPrev list)
  return .list list :: values ++ [.newline]

/-- What is printed for a list with these payloads. -/
def shown (list : NodePtr) (l : List Payload) : List Printed :=
  .list list :: l.map (fun data => .int data.first) ++ [.newline]

variable {h} {a u : Word} {l p q : List Word}

@[simp]
theorem getData_some (ha : h.allocated a = true) : h.getData (some a) = some (h.data a) := by
  rw [getData, deref_some ha]
  rfl

theorem printListLoop_eq {fuel : Nat} (hr : h.IsRing a l) (hl : a :: l = p ++ u :: q)
    (hfuel : q.length < fuel) : h.printListLoop (some a) fuel (some u) =
      some ((u :: q).map fun v => .int (h.data v).first) := by
  have hin : ∀ {p u q}, a :: l = p ++ u :: q → h.allocated u = true :=
    fun hl => hr.allocated _ (by rw [hl]; simp)
  induction fuel generalizing p u q with
  | zero => omega
  | succ fuel ih =>
    rw [printListLoop, getData_some (hin hl), getNext_some (hin hl)]
    cases q with
    | nil =>
      rw [(hr.ring.link_last hl).1]
      simp
    | cons c q =>
      have hca : a ≠ c := hr.ring.ne_of_inner hl
      have hrest : a :: l = (p ++ [u]) ++ c :: q := by rw [hl]; simp
      rw [hr.ring.next_inner hl]
      simp [hca, ih hrest (by simpa using hfuel)]

theorem printListReverseLoop_eq {fuel : Nat} {z : Word} (hr : h.IsRing a l)
    (hz : Link h.next h.prev z a) (hl : a :: l = p ++ u :: q) (hfuel : p.length < fuel) :
    h.printListReverseLoop (some a) fuel (some u) =
      some ((p ++ [u]).reverse.map fun v => .int (h.data v).first) := by
  have hin : ∀ {p u q}, a :: l = p ++ u :: q → h.allocated u = true :=
    fun hl => hr.allocated _ (by rw [hl]; simp)
  have ha : h.allocated a = true := hr.allocated a List.mem_cons_self
  induction fuel generalizing p u q with
  | zero => omega
  | succ fuel ih =>
    rw [printListReverseLoop, getData_some (hin hl), getPrev_some (hin hl), getPrev_some ha, hz.2]
    rcases List.eq_nil_or_concat p with rfl | ⟨p, c, rfl⟩
    · obtain rfl : a = u := (List.cons.inj hl).1
      simp [hz.2]
    · rw [List.concat_eq_append] at hl hfuel ⊢
      have hsplit : a :: l = p ++ c :: u :: q := by rw [hl]; simp
      have hnext : h.next c = some u := hr.ring.next_inner hsplit
      obtain ⟨v, -, hnext', hprev⟩ := hr.ring.next_mem (show c ∈ a :: l by rw [hsplit]; simp)
      obtain rfl : u = v := Option.some.inj (hnext.symm.trans hnext')
      -- the first node comes behind the last, and `u` behind `c`
      have hzc : z ≠ c := by
        rintro rfl
        exact hr.ring.ne_of_inner hsplit (Option.some.inj (hz.1.symm.trans hnext))
      rw [hprev]
      simp [hzc, ih hsplit (by simpa using hfuel)]

theorem foldl_free_allocated (h : NodeHeap) (l : List Word) (v : Word) :
    (l.foldl free h).allocated v = true ↔ h.allocated v = true ∧ v ∉ l := by
  induction l generalizing h with
  | nil => simp
  | cons a l ih =>
    rw [List.foldl_cons, ih (h.free a), List.mem_cons, not_or]
    by_cases hva : v = a
    · simp [free, hva]
    · simp [free, hva]

/-- The loop of `delete_list` from `u`, when the nodes in front of it have been freed. -/
theorem deleteListLoop_eq {h' : NodeHeap} {fuel : Nat} (hr : h.IsRing a l)
    (hl : a :: l = p ++ u :: q) (hnext : h'.next = h.next)
    (hin : ∀ v ∈ u :: q, h'.allocated v = true) (hfuel : q.length < fuel) :
    deleteListLoop (some a) fuel h' (some u) = some ((u :: q).foldl free h') := by
  induction fuel generalizing p u q h' with
  | zero => omega
  | succ fuel ih =>
    have hu := hin u List.mem_cons_self
    rw [deleteListLoop, getNext_some hu, hnext]
    cases q with
    | nil =>
      rw [(hr.ring.link_last hl).1]
      simp [freePtr, hu]
    | cons c q =>
      have hca : a ≠ c := hr.ring.ne_of_inner hl
      have hrest : a :: l = (p ++ [u]) ++ c :: q := by rw [hl]; simp
      have hnd : (u :: c :: q).Nodup := by
        have hnd := hr.ring.nodup
        rw [hl] at hnd
        exact (List.nodup_append.mp hnd).2.1
      have hin' : ∀ v ∈ c :: q, (h'.free u).allocated v = true := by
        intro v hv
        refine (Function.update_of_ne ?_ ..).trans (hin v (List.mem_cons_of_mem u hv))
        rintro rfl
        exact (List.nodup_cons.mp hnd).1 hv
      rw [hr.ring.next_inner hl]
      simp only [Option.bind_eq_bind, Option.bind_some, freePtr, hu, if_true, ne_eq,
        Option.some.injEq, hca, not_false_eq_true]
      exact ih hrest hnext hin' (by simpa using hfuel)

theorem deleteListLoop_le {list ptr : NodePtr} {fuel fuel' : Nat} {h h' : NodeHeap}
    (hrun : deleteListLoop list fuel h ptr = some h') (hle : fuel ≤ fuel') :
    deleteListLoop list fuel' h ptr = some h' := by
  induction fuel generalizing fuel' h ptr with
  | zero => cases hrun
  | succ fuel ih =>
    obtain ⟨m, rfl⟩ := Nat.exists_eq_add_one_of_ne_zero (show fuel' ≠ 0 by omega)
    simp only [deleteListLoop, Option.bind_eq_bind, Option.bind_eq_some_iff] at hrun ⊢
    obtain ⟨next, hnext, h₁, hfree, hrun⟩ := hrun
    refine ⟨next, hnext, h₁, hfree, ?_⟩
    by_cases hne : list ≠ next
    · rw [if_pos hne] at hrun ⊢
      exact ih hrun (by omega)
    · rw [if_neg hne] at hrun ⊢
      exact hrun

/-- A result does not depend on the fuel. -/
theorem deleteList_le {list : NodePtr} {fuel fuel' : Nat} {h : NodeHeap} {r : NodePtr × NodeHeap}
    (hrun : h.deleteList fuel list = some r) (hle : fuel ≤ fuel') :
    h.deleteList fuel' list = some r := by
  rw [deleteList] at hrun ⊢
  split at hrun
  · rw [if_pos ‹_›]
    exact hrun
  · rw [if_neg ‹_›]
    simp only [Option.bind_eq_bind, Option.bind_eq_some_iff] at hrun ⊢
    obtain ⟨h₁, hloop, hrun⟩ := hrun
    exact ⟨h₁, deleteListLoop_le hloop hle, hrun⟩

section

variable {list : NodePtr} {nodes : List Word} {fuel : Nat} (hr : h.Holds list nodes)
  (hfuel : nodes.length ≤ fuel)
include hr hfuel

theorem printList_eq : h.printList fuel list = some (shown list (nodes.map h.data)) := by
  cases hr with
  | empty => rfl
  | ring hring =>
    rw [printList, if_neg nofun, printListLoop_eq hring (List.nil_append _).symm hfuel]
    simp [shown]

theorem printListReverse_eq :
    h.printListReverse fuel list = some (shown list (nodes.map h.data).reverse) := by
  cases hr with
  | empty => rfl
  | @ring a l hring =>
    obtain ⟨p, z, hz⟩ := (List.eq_nil_or_concat (a :: l)).resolve_left (by simp)
    rw [List.concat_eq_append] at hz
    have hlink := hring.ring.link_last hz
    have hlen : p.length < fuel := by
      have := congrArg List.length hz
      simp only [List.length_cons, List.length_append, List.length_nil] at this hfuel
      omega
    rw [printListReverse, if_neg nofun, getPrev_some (hring.allocated a List.mem_cons_self),
      hlink.2, Option.bind_eq_bind, Option.bind_some, printListReverseLoop_eq hring hlink hz hlen,
      ← hz]
    simp [shown]

theorem deleteList_eq : h.deleteList fuel list = some (none, nodes.foldl free h) := by
  cases hr with
  | empty => rfl
  | ring hring =>
    rw [deleteList, if_neg nofun,
      deleteListLoop_eq hring (List.nil_append _).symm rfl hring.allocated hfuel]
    rfl

end

/-! ## Which nodes are allocated -/

section

variable {h' : NodeHeap} {x : Word} {ptr list list' node : NodePtr} {v : Payload}

theorem setNext_allocated {q : NodePtr} (hset : h.setNext ptr q = some h') :
    h'.allocated = h.allocated := by
  obtain ⟨b, -, rfl⟩ := Option.map_eq_some_iff.mp hset
  rfl

theorem setPrev_allocated {q : NodePtr} (hset : h.setPrev ptr q = some h') :
    h'.allocated = h.allocated := by
  obtain ⟨b, -, rfl⟩ := Option.map_eq_some_iff.mp hset
  rfl

theorem setData_allocated (hset : h.setData ptr v = some h') : h'.allocated = h.allocated := by
  obtain ⟨b, -, rfl⟩ := Option.map_eq_some_iff.mp hset
  rfl

theorem addNodeBefore_allocated (hrun : h.addNodeBefore x list v = some (node, list', h')) :
    node = some x ∧ h'.allocated = Function.update h.allocated x true := by
  rw [addNodeBefore] at hrun
  simp only [Option.bind_eq_bind, Option.bind_eq_some_iff] at hrun
  obtain ⟨h₁, hdata, hrun⟩ := hrun
  have h₁alloc := setData_allocated hdata
  split at hrun
  · simp only [Option.bind_eq_some_iff, pure, Option.some.injEq, Prod.mk.injEq] at hrun
    obtain ⟨h₂, hnext, h₃, hprev, rfl, -, rfl⟩ := hrun
    exact ⟨rfl, (setPrev_allocated hprev).trans ((setNext_allocated hnext).trans h₁alloc)⟩
  · simp only [Option.bind_eq_some_iff, pure, Option.some.injEq, Prod.mk.injEq] at hrun
    obtain ⟨h₂, hnext, _, -, h₃, hprev, _, -, h₄, hback, h₅, hlast, rfl, -, rfl⟩ := hrun
    exact ⟨rfl, (setPrev_allocated hlast).trans ((setNext_allocated hback).trans
      ((setPrev_allocated hprev).trans ((setNext_allocated hnext).trans h₁alloc)))⟩

theorem extractNode_allocated (hrun : h.extractNode list = some (node, list', h')) :
    h'.allocated = h.allocated := by
  rw [extractNode] at hrun
  split at hrun
  · simp only [pure, Option.some.injEq, Prod.mk.injEq] at hrun
    rw [hrun.2.2]
  · simp only [Option.bind_eq_bind, Option.bind_eq_some_iff] at hrun
    obtain ⟨n, -, hrun⟩ := hrun
    split at hrun
    · simp only [pure, Option.some.injEq, Prod.mk.injEq] at hrun
      rw [hrun.2.2]
    · simp only [Option.bind_eq_some_iff, pure, Option.some.injEq, Prod.mk.injEq] at hrun
      obtain ⟨_, -, _, -, h₁, hs₁, _, -, _, -, h₂, hs₂, _, -, h₃, hs₃, h₄, hs₄, -, -, rfl⟩ := hrun
      exact (setPrev_allocated hs₄).trans ((setNext_allocated hs₃).trans
        ((setPrev_allocated hs₂).trans (setNext_allocated hs₁)))

theorem popBack_allocated (hrun : h.popBack list = some (node, list', h')) :
    h'.allocated = h.allocated := by
  rw [popBack] at hrun
  split at hrun
  · simp only [pure, Option.some.injEq, Prod.mk.injEq] at hrun
    rw [hrun.2.2]
  · simp only [Option.bind_eq_bind, Option.bind_eq_some_iff] at hrun
    obtain ⟨ptr, -, n, -, hrun⟩ := hrun
    split at hrun
    · exact extractNode_allocated hrun
    · simp only [Option.bind_eq_some_iff, pure, Option.some.injEq, Prod.mk.injEq] at hrun
      obtain ⟨⟨_, _, h₁⟩, hextract, -, -, rfl⟩ := hrun
      exact extractNode_allocated hextract

theorem popFront_allocated (hrun : h.popFront list = some (node, list', h')) :
    h'.allocated = h.allocated := by
  rw [popFront] at hrun
  split at hrun
  · simp only [pure, Option.some.injEq, Prod.mk.injEq] at hrun
    rw [hrun.2.2]
  · simp only [Option.bind_eq_bind, Option.bind_eq_some_iff] at hrun
    obtain ⟨ptr, -, hrun⟩ := hrun
    exact popBack_allocated hrun

theorem popIndex_allocated {index : Nat} (hrun : h.popIndex list index = some (node, list', h')) :
    h'.allocated = h.allocated := by
  rw [popIndex] at hrun
  split at hrun
  · simp only [pure, Option.some.injEq, Prod.mk.injEq] at hrun
    rw [hrun.2.2]
  · simp only [Option.bind_eq_bind, Option.bind_eq_some_iff] at hrun
    obtain ⟨ptr, -, hrun⟩ := hrun
    split at hrun
    · simp only [pure, Option.some.injEq, Prod.mk.injEq] at hrun
      rw [hrun.2.2]
    · split at hrun
      · exact extractNode_allocated hrun
      · simp only [Option.bind_eq_some_iff, pure, Option.some.injEq, Prod.mk.injEq] at hrun
        obtain ⟨⟨_, _, h₁⟩, hextract, -, -, rfl⟩ := hrun
        exact extractNode_allocated hextract

end

end NodeHeap

namespace ListCall

variable {h h' : NodeHeap} {x : Word} {list list' node : NodePtr}

/-- The node that the call has put into the list. -/
def added (x : Word) (call : ListCall) (node : NodePtr) : List Word :=
  if call.value.isSome ∧ node.isSome then [x] else []

/-- The node that the call has handed to the caller. -/
def removed (call : ListCall) (node : NodePtr) : List Word :=
  if call.extracts then node.toList else []

/-- A call allocates the node that it adds, and frees none. -/
theorem run_allocated {call : ListCall} (hrun : call.run h x list = some (node, list', h'))
    (v : Word) :
    h'.allocated v = true ↔ h.allocated v = true ∨ v ∈ call.added x node := by
  have hsame : ∀ {g : NodeHeap}, call.value = none → g.allocated = h.allocated →
      (g.allocated v = true ↔ h.allocated v = true ∨ v ∈ call.added x node) := by
    intro g hvalue hg
    simp [added, hvalue, hg]
  have hadd : ∀ {list list' : NodePtr} {value : Payload} {g : NodeHeap} {m : NodePtr},
      call.value = some value → h.addNodeBefore x list value = some (m, list', g) → node = m →
      (g.allocated v = true ↔ h.allocated v = true ∨ v ∈ call.added x node) := by
    rintro list list' value g m hvalue hadd rfl
    obtain ⟨rfl, hg⟩ := NodeHeap.addNodeBefore_allocated hadd
    rw [hg, Function.update_apply]
    by_cases hvx : v = x
    · simp [added, hvalue, hvx]
    · simp [added, hvalue, hvx]
  cases call with
  | pushBack value => exact hadd rfl hrun rfl
  | pushFront value =>
    simp only [run, NodeHeap.pushFront, Option.bind_eq_bind, Option.bind_eq_some_iff, pure,
      Option.some.injEq, Prod.mk.injEq] at hrun
    obtain ⟨⟨_, _, _⟩, hpush, rfl, -, rfl⟩ := hrun
    exact hadd rfl hpush rfl
  | pushIndex index data =>
    have hreject : (none, list, h) = (node, list', h') →
        (h'.allocated v = true ↔ h.allocated v = true ∨ v ∈ (pushIndex index data).added x node) := by
      rintro ⟨⟩
      simp [added]
    simp only [run, NodeHeap.pushIndex] at hrun
    split at hrun
    · exact hreject (Option.some.inj hrun)
    · split at hrun
      · simp only [NodeHeap.pushFront, Option.bind_eq_bind, Option.bind_eq_some_iff, pure,
          Option.some.injEq, Prod.mk.injEq] at hrun
        obtain ⟨⟨_, _, _⟩, hpush, rfl, -, rfl⟩ := hrun
        exact hadd rfl hpush rfl
      · simp only [Option.bind_eq_bind, Option.bind_eq_some_iff] at hrun
        obtain ⟨⟨ptr, left⟩, -, hrun⟩ := hrun
        split at hrun
        · exact hreject (Option.some.inj hrun)
        · simp only [Option.bind_eq_some_iff, pure, Option.some.injEq, Prod.mk.injEq] at hrun
          obtain ⟨⟨_, _, _⟩, hpush, rfl, -, rfl⟩ := hrun
          exact hadd rfl hpush rfl
  | popBack => exact hsame rfl (NodeHeap.popBack_allocated hrun)
  | popFront => exact hsame rfl (NodeHeap.popFront_allocated hrun)
  | popIndex index => exact hsame rfl (NodeHeap.popIndex_allocated hrun)
  | findIndex index =>
    obtain ⟨m, -, heq⟩ := Option.map_eq_some_iff.mp hrun
    obtain ⟨-, -, rfl⟩ : m = node ∧ list = list' ∧ h = h' := by simpa using heq
    exact hsame rfl rfl
  | extractNode => exact hsame rfl (NodeHeap.extractNode_allocated hrun)

/-- A call moves nodes between the list and its caller, and loses none. -/
theorem owned_perm (call : ListCall) (x : Word) (nodes : List Word) :
    ((call.seq (fun _ => x) nodes).1 ++ call.removed (call.seq (fun _ => x) nodes).2).Perm
      (call.added x (call.seq (fun _ => x) nodes).2 ++ nodes) := by
  cases call with
  | pushBack v => simp [seq, removed, added, extracts, value]
  | pushFront v => simp [seq, removed, added, extracts, value]
  | pushIndex index v =>
    by_cases hle : index ≤ nodes.length
    · simpa [seq, removed, added, extracts, value, hle] using List.perm_insertIdx x nodes hle
    · simp [seq, removed, added, extracts, value, hle]
  | popBack =>
    rcases List.eq_nil_or_concat nodes with rfl | ⟨p, z, rfl⟩
    · simp [seq, removed, added, extracts, value]
    · simp [seq, removed, added, extracts, value]
  | popFront =>
    cases nodes with
    | nil => simp [seq, removed, added, extracts, value]
    | cons a l => simp [seq, removed, added, extracts, value, List.perm_append_singleton]
  | popIndex index =>
    by_cases hlt : index < nodes.length
    · simpa [seq, removed, added, extracts, value, List.getElem?_eq_getElem hlt] using
        List.perm_append_comm.trans (List.getElem_cons_eraseIdx_perm hlt)
    · have hle : nodes.length ≤ index := by omega
      simp [seq, removed, added, extracts, value, List.getElem?_eq_none hle,
        List.eraseIdx_of_length_le hle]
  | findIndex index => simp [seq, removed, added, extracts, value]
  | extractNode =>
    cases nodes with
    | nil => simp [seq, removed, added, extracts, value]
    | cons a l => simp [seq, removed, added, extracts, value, List.perm_append_singleton]

end ListCall

/-! ## Runs -/

/-- What the program does with a list: as before, or it deletes the list. -/
inductive OwnerEvent
  | list (event : ListEvent)
  | delete

inductive OwnerStep : ListSession → OwnerEvent → ListSession → Prop
  | list {s t : ListSession} {event : ListEvent} :
      ListStep s event t → OwnerStep s (.list event) t
  | delete {s : ListSession} {fuel : Nat} {list : NodePtr} {heap : NodeHeap} :
      s.heap.deleteList fuel s.list = some (list, heap) →
      OwnerStep s .delete ⟨heap, list, s.extracted⟩

/-- What an event does to the sequence. -/
def OwnerEvent.seq : OwnerEvent → List Payload → List Payload
  | .list event, l => event.seq l
  | .delete, _ => []

/-- The nodes `owned` are what has been allocated since `h₀`. -/
structure NodesOwned (h₀ h : NodeHeap) (owned : List Word) : Prop where
  nodup : owned.Nodup
  new : ∀ v ∈ owned, h₀.allocated v = false
  allocated : ∀ v, h.allocated v = true ↔ h₀.allocated v = true ∨ v ∈ owned

namespace NodesOwned

variable {h₀ h h' : NodeHeap} {owned owned' : List Word} {x : Word}

theorem perm (hown : NodesOwned h₀ h owned) (hp : owned'.Perm owned) : NodesOwned h₀ h owned' := by
  refine ⟨hp.nodup_iff.mpr hown.nodup, fun v hv => hown.new v (hp.mem_iff.mp hv), fun v => ?_⟩
  rw [hown.allocated, hp.mem_iff]

theorem add {call : ListCall} {node : NodePtr} (hown : NodesOwned h₀ h owned)
    (hx : h.allocated x = false)
    (ha : ∀ v, h'.allocated v = true ↔ h.allocated v = true ∨ v ∈ call.added x node) :
    NodesOwned h₀ h' (call.added x node ++ owned) := by
  have hnot : ¬(h₀.allocated x = true ∨ x ∈ owned) := by
    rw [← hown.allocated, hx]
    exact Bool.false_ne_true
  rw [not_or, Bool.not_eq_true] at hnot
  have hmem : ∀ v ∈ call.added x node, v = x := by
    intro v hv
    rw [ListCall.added] at hv
    split at hv
    · exact List.mem_singleton.mp hv
    · cases hv
  refine ⟨?_, fun v hv => ?_, fun v => ?_⟩
  · refine List.nodup_append.mpr ⟨?_, hown.nodup, fun u hu v hv => ?_⟩
    · rw [ListCall.added]
      split
      · exact List.nodup_singleton x
      · exact .nil
    · rintro rfl
      rw [hmem u hu] at hv
      exact hnot.2 hv
  · rcases List.mem_append.mp hv with hv | hv
    · rw [hmem v hv, hnot.1]
    · exact hown.new v hv
  · rw [ha, hown.allocated, List.mem_append, or_assoc, or_comm (a := v ∈ owned)]

/-- The nodes `l` are freed. -/
theorem free {l : List Word} (hown : NodesOwned h₀ h (l ++ owned)) :
    NodesOwned h₀ (l.foldl NodeHeap.free h) owned := by
  obtain ⟨-, hnd, hdisj⟩ := List.nodup_append.mp hown.nodup
  refine ⟨hnd, fun v hv => hown.new v (List.mem_append_right l hv), fun v => ?_⟩
  rw [NodeHeap.foldl_free_allocated, hown.allocated, List.mem_append]
  constructor
  · rintro ⟨hv | hv | hv, hnot⟩
    · exact .inl hv
    · exact absurd hv hnot
    · exact .inr hv
  · rintro (hv | hv)
    · refine ⟨.inl hv, fun hl => ?_⟩
      rw [hown.new v (List.mem_append_left owned hl)] at hv
      cases hv
    · exact ⟨.inr (.inr hv), fun hl => hdisj v hl v hv rfl⟩

end NodesOwned

section

variable {h₀ : NodeHeap} {s t : ListSession} {nodes : List Word} {l : List Payload}

/-- The nodes of the list, their payloads, and every node that has been allocated. -/
structure OwnerInv (h₀ : NodeHeap) (s : ListSession) (nodes : List Word) (l : List Payload) :
    Prop where
  list : ListInv s nodes l
  owned : NodesOwned h₀ s.heap (nodes ++ s.extracted)

theorem OwnerInv.call {call : ListCall} {x : Word} {node list' : NodePtr} {h' : NodeHeap}
    (hinv : OwnerInv h₀ s nodes l) (hx : s.heap.allocated x = false)
    (hrun : call.run s.heap x s.list = some (node, list', h')) :
    OwnerInv h₀ ⟨h', list', if call.extracts then node.toList ++ s.extracted else s.extracted⟩
      (call.seq (fun _ => x) nodes).1 (call.seq id l).1 := by
  refine ⟨hinv.list.call hx hrun, ?_⟩
  have hadd := hinv.owned.add hx (ListCall.run_allocated hrun)
  obtain ⟨list₁, h₁, hrun', -⟩ := call.run_does hinv.list.holds hx
  obtain rfl : node = (call.seq (fun _ => x) nodes).2 := by
    simpa using congrArg (Option.map Prod.fst) (hrun.symm.trans hrun')
  have hremoved : (if call.extracts then (call.seq (fun _ => x) nodes).2.toList ++ s.extracted
      else s.extracted) = call.removed (call.seq (fun _ => x) nodes).2 ++ s.extracted := by
    rw [ListCall.removed]
    split
    · rfl
    · rfl
  refine hadd.perm ?_
  rw [hremoved, ← List.append_assoc, ← List.append_assoc]
  exact (call.owned_perm x nodes).append_right _

theorem OwnerInv.free {x : Word} (hinv : OwnerInv h₀ s nodes l) (hx : x ∈ s.extracted) :
    OwnerInv h₀ ⟨s.heap.free x, s.list, s.extracted.filter (· ≠ x)⟩ nodes l := by
  refine ⟨hinv.list.free hx, ?_⟩
  have hnd := (List.nodup_append.mp hinv.owned.nodup).2.1
  have herase : s.extracted.filter (· ≠ x) = s.extracted.erase x := by
    rw [hnd.erase_eq_filter]
    exact List.filter_congr fun v _ => by
      rw [Bool.eq_iff_iff]
      simp
  have hperm : (x :: (nodes ++ s.extracted.erase x)).Perm (nodes ++ s.extracted) :=
    List.perm_middle.symm.trans ((List.perm_cons_erase hx).symm.append_left nodes)
  rw [herase]
  exact (show NodesOwned h₀ s.heap ([x] ++ _) from hinv.owned.perm hperm).free

/-- `delete_list` has freed the nodes of the list, and no others. -/
theorem OwnerInv.deleted (hinv : OwnerInv h₀ s nodes l) :
    OwnerInv h₀ ⟨nodes.foldl NodeHeap.free s.heap, none, s.extracted⟩ [] [] := by
  have hown := hinv.owned.free
  exact ⟨⟨.empty, rfl, fun v hv => ⟨nofun, (hown.allocated v).mpr (.inr hv)⟩⟩, hown⟩

theorem OwnerInv.step {e : OwnerEvent} (hinv : OwnerInv h₀ s nodes l) (hstep : OwnerStep s e t) :
    ∃ nodes', OwnerInv h₀ t nodes' (e.seq l) := by
  cases hstep with
  | list hstep =>
    cases hstep with
    | call hx hrun => exact ⟨_, hinv.call hx hrun⟩
    | free hx => exact ⟨nodes, hinv.free hx⟩
  | @delete fuel list heap hrun =>
    have hmore := NodeHeap.deleteList_le hrun (Nat.le_max_left fuel nodes.length)
    rw [NodeHeap.deleteList_eq hinv.list.holds (Nat.le_max_right fuel nodes.length)] at hmore
    obtain ⟨rfl, rfl⟩ : none = list ∧ nodes.foldl NodeHeap.free s.heap = heap := by
      simpa using hmore
    exact ⟨[], hinv.deleted⟩

theorem OwnerInv.runs {events : List OwnerEvent} (hinv : OwnerInv h₀ s nodes l)
    (hrun : Runs OwnerStep s events t) :
    ∃ nodes', OwnerInv h₀ t nodes' (events.foldl (fun l e => e.seq l) l) := by
  induction hrun generalizing nodes l with
  | nil s => exact ⟨nodes, hinv⟩
  | cons hstep _ ih =>
    obtain ⟨nodes', hinv'⟩ := hinv.step hstep
    exact ih hinv'

end

/-- A list that starts NULL. After any run of calls, frees of extracted nodes and deletions, what
has been allocated is exactly the nodes of the list and the extracted ones that are still to be
freed, each once. Then `print_list` prints the sequence, `print_list_reverse` prints it backwards,
and `delete_list` frees the nodes of the list, each once, and nothing else. -/
theorem list_owned {h₀ : NodeHeap} {events : List OwnerEvent} {s : ListSession}
    (hrun : Runs OwnerStep ⟨h₀, none, []⟩ events s) :
    ∃ nodes, s.heap.Holds s.list nodes ∧
      nodes.map s.heap.data = events.foldl (fun l e => e.seq l) [] ∧
      (nodes ++ s.extracted).Nodup ∧
      (∀ v, s.heap.allocated v = true ↔ h₀.allocated v = true ∨ v ∈ nodes ++ s.extracted) ∧
      ∀ fuel, nodes.length ≤ fuel →
        s.heap.printList fuel s.list = some (NodeHeap.shown s.list (nodes.map s.heap.data)) ∧
        s.heap.printListReverse fuel s.list =
          some (NodeHeap.shown s.list (nodes.map s.heap.data).reverse) ∧
        ∃ h', s.heap.deleteList fuel s.list = some (none, h') ∧
          ∀ v, h'.allocated v = true ↔ h₀.allocated v = true ∨ v ∈ s.extracted := by
  have hstart : OwnerInv h₀ ⟨h₀, none, []⟩ [] [] :=
    ⟨⟨.empty, rfl, by simp⟩, by simp, by simp, by simp⟩
  obtain ⟨nodes, hinv⟩ := hstart.runs hrun
  refine ⟨nodes, hinv.list.holds, hinv.list.payloads, hinv.owned.nodup, hinv.owned.allocated,
    fun fuel hfuel => ?_⟩
  have hholds := hinv.list.holds
  exact ⟨NodeHeap.printList_eq hholds hfuel, NodeHeap.printListReverse_eq hholds hfuel, _,
    NodeHeap.deleteList_eq hholds hfuel, hinv.deleted.owned.allocated⟩

/-- Two nodes, one pushed at each end. -/
theorem list_owned_two : ∃ s, Runs OwnerStep
    ⟨⟨fun _ => false, fun _ => none, fun _ => none, fun _ => Vector.replicate 5 0⟩, none, []⟩
    [.list (.call (.pushBack (Vector.replicate 5 7))),
      .list (.call (.pushFront (Vector.replicate 5 8)))] s ∧
    s.heap.printListReverse 2 s.list =
      some [.list (some 0x2000), .int 7, .int 8, .newline] := by
  have hrun : Runs OwnerStep
      ⟨⟨fun _ => false, fun _ => none, fun _ => none, fun _ => Vector.replicate 5 0⟩, none, []⟩
      [.list (.call (.pushBack (Vector.replicate 5 7))),
        .list (.call (.pushFront (Vector.replicate 5 8)))] _ :=
    .cons (.list (@ListStep.call _ _ 0x1000 _ _ _ rfl rfl))
      (.cons (.list (@ListStep.call _ _ 0x2000 _ _ _ rfl rfl)) (.nil _))
  obtain ⟨nodes, -, hdata, -, -, hprints⟩ := list_owned hrun
  have hlen : nodes.length = 2 := (List.length_map ..).symm.trans (congrArg List.length hdata)
  refine ⟨_, hrun, (hprints 2 (by omega)).2.1.trans ?_⟩
  rw [hdata]
  rfl

end AvocadOS
