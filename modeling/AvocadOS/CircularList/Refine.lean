import AvocadOS.CircularList
import AvocadOS.Lib.Ring
import Mathlib.Data.List.InsertIdx

/-!
# The circular list is a sequence

`Holds h list nodes`: the ring from `list` has the nodes `nodes`, in this order. `ListCall.seq` says
what a call does to a sequence, and is used twice: for the nodes, and for their payloads.

* `IsRing.push`, `IsRing.extract`: one node linked in or taken out, in front of or at any node;
* `findIndexLoop_eq`, `pushIndexLoop_eq`: where the loops end;
* `ListCall.run_outcome`: what each call does;
* `list_refines`: a run on a list that starts empty is the run on the sequence.
-/

namespace AvocadOS

namespace NodeHeap

section

variable {h : NodeHeap} {a : Word} (ha : h.allocated a = true)
include ha

theorem deref_some : h.deref (some a) = some a := Option.filter_some_pos ha

@[simp]
theorem getNext_some : h.getNext (some a) = some (h.next a) := by rw [getNext, deref_some ha]; rfl

@[simp]
theorem getPrev_some : h.getPrev (some a) = some (h.prev a) := by rw [getPrev, deref_some ha]; rfl

@[simp]
theorem setNext_some (q : NodePtr) :
    h.setNext (some a) q = some { h with next := Function.update h.next a q } := by
  rw [setNext, deref_some ha]
  rfl

@[simp]
theorem setPrev_some (q : NodePtr) :
    h.setPrev (some a) q = some { h with prev := Function.update h.prev a q } := by
  rw [setPrev, deref_some ha]
  rfl

@[simp]
theorem setData_some (v : Payload) :
    h.setData (some a) v = some { h with data := Function.update h.data a v } := by
  rw [setData, deref_some ha]
  rfl

end

/-- The allocated nodes stay, with their payloads. -/
structure Extends (h h' : NodeHeap) : Prop where
  allocated : ∀ u, h.allocated u = true → h'.allocated u = true
  data : ∀ u, h.allocated u = true → h'.data u = h.data u

theorem Extends.rfl {h : NodeHeap} : h.Extends h := ⟨fun _ h => h, fun _ _ => Eq.refl _⟩

theorem Extends.of_eq {h h' : NodeHeap} (ha : h'.allocated = h.allocated) (hd : h'.data = h.data) :
    h.Extends h' := ⟨fun u hu => by rw [ha, hu], fun u _ => by rw [hd]⟩

/-- The ring from `a` has the nodes `a :: l`. -/
structure IsRing (h : NodeHeap) (a : Word) (l : List Word) : Prop where
  ring : LinkRing h.next h.prev a l
  allocated : ∀ u ∈ a :: l, h.allocated u = true

/-- The list has these nodes. -/
inductive Holds (h : NodeHeap) : NodePtr → List Word → Prop
  | empty : Holds h none []
  | ring {a : Word} {l : List Word} : h.IsRing a l → Holds h (some a) (a :: l)

section

variable {h : NodeHeap} {a u x : Word} {l p q : List Word}

theorem IsRing.rotateTo (hr : h.IsRing a (p ++ u :: q)) : h.IsRing u (q ++ a :: p) := by
  refine ⟨hr.ring.rotateTo, fun v hv => hr.allocated v ?_⟩
  simp only [List.mem_cons, List.mem_append] at hv ⊢
  tauto

/-- The neighbours of a node. -/
theorem IsRing.neighbours (hr : h.IsRing a l) :
    ∃ p ∈ a :: l, ∃ n ∈ a :: l, h.prev a = some p ∧ h.next a = some n := by
  obtain ⟨p, hp, hprev⟩ := hr.ring.prev_head
  obtain ⟨n, hn, hnext, -⟩ := hr.ring.next_mem List.mem_cons_self
  exact ⟨p, hp, n, hn, hprev, hnext⟩

theorem IsRing.not_mem (hr : h.IsRing a l) (hx : h.allocated x = false) : x ∉ a :: l := by
  intro hmem
  rw [hr.allocated x hmem] at hx
  cases hx

/-- A new node in front of the first one. -/
theorem IsRing.push (hr : h.IsRing a l) (hx : h.allocated x = false) (v : Payload) :
    ∃ h', h.addNodeBefore x (some a) v = some (some x, some a, h') ∧ h'.IsRing a (l ++ [x]) ∧
      h.Extends h' ∧ h'.data x = v := by
  have hnot := hr.not_mem hx
  obtain ⟨z, hz, -, -, hprev, -⟩ := hr.neighbours
  have hzx : z ≠ x := fun h => hnot (h ▸ hz)
  have hax : a ≠ x := fun h => hnot (h ▸ List.mem_cons_self)
  have halloc : ∀ u, h.allocated u = true → Function.update h.allocated x true u = true := by
    intro u hu
    by_cases hux : u = x
    · rw [hux, Function.update_self]
    · rw [Function.update_of_ne hux, hu]
  have hxin : Function.update h.allocated x true x = true := Function.update_self ..
  have hain := hr.allocated a List.mem_cons_self
  have hzin := hr.allocated z hz
  refine ⟨⟨Function.update h.allocated x true,
    Function.update (Function.update h.next x (some a)) z (some x),
    Function.update (Function.update h.prev x (some z)) a (some x),
    Function.update h.data x v⟩, ?_, ⟨?_, ?_⟩, ⟨halloc, ?_⟩, Function.update_self ..⟩
  · simp [addNodeBefore, malloc, hain, hzin, hax, hzx, hprev]
  · exact hr.ring.snoc hprev hnot (Splice.of_updates hzx hax)
  · intro u hu
    rcases List.mem_append.mp (show u ∈ (a :: l) ++ [x] from hu) with hu | hu
    · exact halloc u (hr.allocated u hu)
    · rw [List.mem_singleton.mp hu]
      exact hxin
  · intro u hu
    refine Function.update_of_ne ?_ _ _
    rintro rfl
    rw [hx] at hu
    cases hu

/-- A node is taken out. -/
theorem IsRing.extract (hr : h.IsRing u l) (hl : l ≠ []) :
    ∃ p n h', h.prev u = some p ∧ h.next u = some n ∧
      h.extractNode (some u) = some (some u, some n, h') ∧
      Unsplice h.next h.prev h'.next h'.prev p u n ∧ h'.allocated = h.allocated ∧
      h'.data = h.data := by
  obtain ⟨p, hp, n, hn, hprev, hnext⟩ := hr.neighbours
  have hnu : n ≠ u := by
    rintro rfl
    exact hl (hr.ring.eq_nil_of_next_self hnext)
  have hpu : p ≠ u := by
    rintro rfl
    exact hl (hr.ring.eq_nil_of_prev_self hprev)
  have hpin := hr.allocated p hp
  have hnin := hr.allocated n hn
  have huin := hr.allocated u List.mem_cons_self
  refine ⟨p, n, ⟨h.allocated, Function.update (Function.update h.next p (some n)) u (some u),
    Function.update (Function.update h.prev n (some p)) u (some u), h.data⟩, hprev, hnext, ?_,
    ⟨?_, ?_, ?_, ?_⟩, rfl, rfl⟩
  · simp [extractNode, hpin, hnin, huin, hprev, hnext, hnu, hpu.symm]
  · simp [hpu]
  · simp [hnu]
  · intro v hvp hvu
    simp [hvp, hvu]
  · intro v hvn hvu
    simp [hvn, hvu]

/-- The first node is taken out of a longer ring. -/
theorem IsRing.extract_head (hr : h.IsRing a (u :: l)) :
    ∃ h', h.extractNode (some a) = some (some a, some u, h') ∧ h'.IsRing u l ∧ h.Extends h' := by
  obtain ⟨p, n, h', hprev, hnext, hrun, hs, halloc, hdata⟩ := hr.extract (by simp)
  obtain rfl : u = n := Option.some.inj (hr.ring.next_cons.symm.trans hnext)
  refine ⟨h', hrun, ⟨hr.ring.tail hprev hs, fun v hv => ?_⟩, .of_eq halloc hdata⟩
  rw [halloc]
  exact hr.allocated v (List.mem_cons_of_mem a hv)

/-- Another one is taken out. -/
theorem IsRing.extract_inner (hr : h.IsRing a (p ++ u :: q)) :
    ∃ list h', h.extractNode (some u) = some (some u, list, h') ∧ h'.IsRing a (p ++ q) ∧
      h.Extends h' := by
  obtain ⟨z, n, h', hprev, hnext, hrun, hs, halloc, hdata⟩ := hr.rotateTo.extract (by simp)
  refine ⟨some n, h', hrun, ⟨hr.ring.remove hprev hnext hs, fun v hv => ?_⟩, .of_eq halloc hdata⟩
  rw [halloc]
  refine hr.allocated v ?_
  simp only [List.mem_cons, List.mem_append] at hv ⊢
  tauto

/-- The only node is taken out. -/
theorem IsRing.extract_only (hr : h.IsRing a []) :
    h.extractNode (some a) = some (some a, none, h) := by
  have hin := hr.allocated a List.mem_cons_self
  simp [extractNode, hin, hr.ring.next_nil]

/-- The loop of `find_index` from `u`, behind the nodes `p`. -/
theorem findIndexLoop_eq (hr : h.IsRing a l) (hl : a :: l = p ++ u :: q) (left : Nat) :
    h.findIndexLoop (some a) left (some u) = some (u :: q)[left]? := by
  have hin : ∀ {p u q}, a :: l = p ++ u :: q → h.allocated u = true :=
    fun hl => hr.allocated _ (by rw [hl]; simp)
  induction left generalizing p u q with
  | zero => rfl
  | succ left ih =>
    rw [findIndexLoop, getNext_some (hin hl)]
    cases q with
    | nil =>
      rw [(hr.ring.link_last hl).1]
      simp
    | cons c q =>
      have hnext := hr.ring.next_inner hl
      have hca : a ≠ c := hr.ring.ne_of_inner hl
      rw [hnext]
      simp only [Option.bind_eq_bind, Option.bind_some, ne_eq, Option.some.injEq, hca,
        not_false_eq_true, if_true]
      have hrest : a :: l = (p ++ [u]) ++ c :: q := by rw [hl]; simp
      exact ih hrest

/-- The loop of `push_index`. -/
theorem pushIndexLoop_eq (hr : h.IsRing a l) (hl : a :: l = p ++ u :: q) (left : Nat) :
    h.pushIndexLoop (some a) left (some u) =
      some ((u :: q)[left]?.or (some a), left - (u :: q).length) := by
  have hin : ∀ {p u q}, a :: l = p ++ u :: q → h.allocated u = true :=
    fun hl => hr.allocated _ (by rw [hl]; simp)
  induction left generalizing p u q with
  | zero => simp [pushIndexLoop]
  | succ left ih =>
    rw [pushIndexLoop, getNext_some (hin hl)]
    cases q with
    | nil =>
      rw [(hr.ring.link_last hl).1]
      simp
    | cons c q =>
      have hnext := hr.ring.next_inner hl
      have hca : a ≠ c := hr.ring.ne_of_inner hl
      rw [hnext]
      simp only [Option.bind_eq_bind, Option.bind_some, ne_eq, Option.some.injEq, hca,
        not_false_eq_true, if_true]
      have hrest : a :: l = (p ++ [u]) ++ c :: q := by rw [hl]; simp
      rw [ih hrest]
      simp

/-- The first node of an empty list. -/
theorem push_first (h : NodeHeap) (hx : h.allocated x = false) (v : Payload) :
    ∃ h', h.addNodeBefore x none v = some (some x, some x, h') ∧ h'.IsRing x [] ∧
      h.Extends h' ∧ h'.data x = v := by
  have hne : ∀ u, h.allocated u = true → u ≠ x := by
    rintro u hu rfl
    rw [hx] at hu
    cases hu
  refine ⟨⟨Function.update h.allocated x true, Function.update h.next x (some x),
    Function.update h.prev x (some x), Function.update h.data x v⟩, ?_,
    ⟨.singleton (Function.update_self ..) (Function.update_self ..), ?_⟩,
    ⟨fun u hu => ?_, fun u hu => ?_⟩, Function.update_self ..⟩
  · simp [addNodeBefore, malloc]
  · intro u hu
    rw [List.mem_singleton.mp hu]
    exact Function.update_self ..
  · exact (Function.update_of_ne (hne u hu) ..).trans hu
  · exact Function.update_of_ne (hne u hu) ..

/-- The last node of a longer ring is taken out through a copy of the pointer. -/
theorem IsRing.popBack_concat {z : Word} (hr : h.IsRing a (p ++ [z])) :
    ∃ h', h.popBack (some a) = some (some z, some a, h') ∧ h'.IsRing a p ∧ h.Extends h' := by
  obtain ⟨list, h', hrun, hring, hext⟩ := hr.extract_inner
  rw [List.append_nil] at hring
  obtain ⟨hnext, hprev⟩ := hr.ring.link_last (List.cons_append ..).symm
  have hz : z ∈ a :: (p ++ [z]) := by simp
  have haz : a ≠ z := by
    rintro rfl
    exact (List.nodup_cons.mp hr.ring.nodup).1 (by simp)
  have hain := hr.allocated a List.mem_cons_self
  refine ⟨h', ?_, hring, hext⟩
  simp [popBack, hain, hprev, hr.allocated z hz, hnext, haz, hrun]

/-- The only node is taken out through the list itself. -/
theorem IsRing.popBack_only (hr : h.IsRing a []) :
    h.popBack (some a) = some (some a, none, h) := by
  have hain := hr.allocated a List.mem_cons_self
  have hprev := (hr.ring.link_last (show [a] = [] ++ [a] from rfl)).2
  simp [popBack, hain, hprev, hr.ring.next_nil, hr.extract_only]

end

end NodeHeap

/-! ## What a call does -/

namespace ListCall

/-- The call on a sequence, and the element that it returns. -/
def seq {α : Type} (new : Payload → α) : ListCall → List α → List α × Option α
  | pushBack value, l => (l ++ [new value], some (new value))
  | pushFront value, l => (new value :: l, some (new value))
  | pushIndex index data, l =>
    if index ≤ l.length then (l.insertIdx index (new data), some (new data)) else (l, none)
  | popBack, l => (l.dropLast, l.getLast?)
  | popFront, l => (l.tail, l.head?)
  | popIndex index, l => (l.eraseIdx index, l[index]?)
  | findIndex index, l => (l, l[index]?)
  | extractNode, l => (l.tail, l.head?)

/-- The index is out of the range of a sequence of `n` elements, or there is none. -/
def OutOfRange (n : Nat) : ListCall → Prop
  | pushBack _ | pushFront _ => False
  | pushIndex index _ => n < index
  | popBack | popFront | extractNode => n = 0
  | popIndex index | findIndex index => n ≤ index

/-- The payload of the node that the call adds. -/
def value : ListCall → Option Payload
  | pushBack value | pushFront value | pushIndex _ value => some value
  | _ => none

theorem seq_eq_none_iff {α : Type} (new : Payload → α) (call : ListCall) (l : List α) :
    (call.seq new l).2 = none ↔ call.OutOfRange l.length := by
  cases call with
  | pushIndex index data =>
    rw [seq, OutOfRange]
    split
    · rename_i hle
      exact iff_of_false nofun (by omega)
    · rename_i hle
      exact iff_of_true rfl (by omega)
  | pushBack value => simp [seq, OutOfRange]
  | pushFront value => simp [seq, OutOfRange]
  | _ => simp [seq, OutOfRange]

/-- Elements may be renamed before the call or after it. -/
theorem seq_map {α β : Type} {new : Payload → α} {new' : Payload → β} {f : α → β} (call : ListCall)
    (l : List α)
    (hnew : ∀ v, call.value = some v → (call.seq new l).2 = some (new v) → f (new v) = new' v) :
    call.seq new' (l.map f) = ((call.seq new l).1.map f, (call.seq new l).2.map f) := by
  cases call with
  | pushIndex index data =>
    simp only [seq, List.length_map] at hnew ⊢
    split
    · rename_i hle
      have hf := hnew data rfl (by simp [hle])
      rw [List.map_insertIdx, Option.map_some, hf]
    · rfl
  | pushBack v =>
    have hf := hnew v rfl (by simp [seq])
    simp [seq, hf]
  | pushFront v =>
    have hf := hnew v rfl (by simp [seq])
    simp [seq, hf]
  | popIndex index => simp [seq, List.eraseIdx_map]
  | _ => simp [seq]

/-- The list then has the nodes `nodes`; a call that returns NULL has changed nothing. -/
structure Outcome (call : ListCall) (h : NodeHeap) (list : NodePtr) (nodes : List Word)
    (node list' : NodePtr) (h' : NodeHeap) : Prop where
  holds : h'.Holds list' nodes
  grows : h.Extends h'
  value : ∀ v, call.value = some v → ∀ x, node = some x → h'.data x = v
  unchanged : node = none → list' = list ∧ h' = h

section

variable {h h' : NodeHeap} {a u x : Word} {l : List Word} {list list' : NodePtr} {nodes : List Word}

theorem Outcome.pushed {call : ListCall} {v : Payload} (hv : call.value = some v)
    (hr : h'.Holds list' nodes) (hext : h.Extends h') (hdata : h'.data x = v) :
    call.Outcome h list nodes (some x) list' h' := by
  refine ⟨hr, hext, fun w hw y hy => ?_, nofun⟩
  rw [← Option.some.inj hy, hdata, Option.some.inj (hv.symm.trans hw)]

theorem Outcome.popped {call : ListCall} (hv : call.value = none)
    (hr : h'.Holds list' nodes) (hext : h.Extends h') :
    call.Outcome h list nodes (some x) list' h' :=
  ⟨hr, hext, fun _ hw => absurd (hv.symm.trans hw) nofun, nofun⟩

/-- Nothing is changed. -/
theorem Outcome.rejected {call : ListCall} (hr : h.Holds list nodes) :
    call.Outcome h list nodes none list h :=
  ⟨hr, .rfl, fun _ _ _ hx => absurd hx nofun, fun _ => ⟨rfl, rfl⟩⟩

/-- What the call returns, and its outcome. -/
def Does (call : ListCall) (h : NodeHeap) (x : Word) (list : NodePtr) (nodes : List Word) : Prop :=
  ∃ list' h', call.run h x list = some ((call.seq (fun _ => x) nodes).2, list', h') ∧
    call.Outcome h list (call.seq (fun _ => x) nodes).1 (call.seq (fun _ => x) nodes).2 list' h'

theorem pushBack_does (hr : h.Holds list nodes) (hx : h.allocated x = false) (v : Payload) :
    (pushBack v).Does h x list nodes := by
  cases hr with
  | empty =>
    obtain ⟨h', hrun, hring, hext, hdata⟩ := h.push_first hx v
    exact ⟨some x, h', hrun, .pushed rfl (.ring hring) hext hdata⟩
  | ring hring =>
    obtain ⟨h', hrun, hring', hext, hdata⟩ := hring.push hx v
    exact ⟨_, h', hrun, .pushed rfl (.ring hring') hext hdata⟩

theorem pushFront_does (hr : h.Holds list nodes) (hx : h.allocated x = false) (v : Payload) :
    (pushFront v).Does h x list nodes := by
  cases hr with
  | empty =>
    obtain ⟨h', hrun, hring, hext, hdata⟩ := h.push_first hx v
    refine ⟨some x, h', ?_, .pushed rfl (.ring hring) hext hdata⟩
    simp [run, NodeHeap.pushFront, NodeHeap.pushBack, hrun, seq]
  | ring hring =>
    obtain ⟨h', hrun, hring', hext, hdata⟩ := hring.push hx v
    refine ⟨some x, h', ?_, .pushed rfl (.ring hring'.rotateTo) hext hdata⟩
    simp [run, NodeHeap.pushFront, NodeHeap.pushBack, hrun, seq]

theorem extractNode_does (hr : h.Holds list nodes) : extractNode.Does h x list nodes := by
  cases hr with
  | empty => exact ⟨none, h, rfl, .rejected .empty⟩
  | @ring a l hring =>
    cases l with
    | nil => exact ⟨none, h, hring.extract_only, .popped rfl .empty .rfl⟩
    | cons b l =>
      obtain ⟨h', hrun, hring', hext⟩ := hring.extract_head
      exact ⟨some b, h', hrun, .popped rfl (.ring hring') hext⟩

theorem popBack_does (hr : h.Holds list nodes) : popBack.Does h x list nodes := by
  cases hr with
  | empty => exact ⟨none, h, rfl, .rejected .empty⟩
  | @ring a l hring =>
    rcases List.eq_nil_or_concat l with rfl | ⟨p, z, rfl⟩
    · exact ⟨none, h, hring.popBack_only, .popped rfl .empty .rfl⟩
    · rw [List.concat_eq_append] at hring ⊢
      obtain ⟨h', hrun, hring', hext⟩ := hring.popBack_concat
      have hseq : popBack.seq (fun _ => x) (a :: (p ++ [z])) = (a :: p, some z) := by
        rw [seq, ← List.cons_append, List.dropLast_concat, List.getLast?_concat]
      rw [Does, hseq]
      exact ⟨some a, h', hrun, .popped rfl (.ring hring') hext⟩

theorem popFront_does (hr : h.Holds list nodes) : popFront.Does h x list nodes := by
  cases hr with
  | empty => exact ⟨none, h, rfl, .rejected .empty⟩
  | @ring a l hring =>
    have hain := hring.allocated a List.mem_cons_self
    cases l with
    | nil =>
      refine ⟨none, h, ?_, .popped rfl .empty .rfl⟩
      simp [run, NodeHeap.popFront, hain, hring.ring.next_nil, hring.popBack_only, seq]
    | cons b l =>
      have hrot : h.IsRing b (l ++ [a]) := hring.rotateTo (p := [])
      obtain ⟨h', hrun, hring', hext⟩ := hrot.popBack_concat
      refine ⟨some b, h', ?_, .popped rfl (.ring hring') hext⟩
      simp [run, NodeHeap.popFront, hain, hring.ring.next_cons, hrun, seq]

theorem findIndex_eq (hring : h.IsRing a l) (index : Nat) :
    h.findIndex (some a) index = some (a :: l)[index]? := by
  rw [NodeHeap.findIndex, if_neg (by simp)]
  exact NodeHeap.findIndexLoop_eq hring (List.nil_append _).symm index

theorem findIndex_does (hr : h.Holds list nodes) (index : Nat) :
    (findIndex index).Does h x list nodes := by
  refine ⟨list, h, ?_, hr, .rfl, nofun, fun _ => ⟨rfl, rfl⟩⟩
  cases hr with
  | empty => simp [run, NodeHeap.findIndex, seq]
  | ring hring => rw [run, findIndex_eq hring, Option.map_some, seq]

/-- The nodes in front of one and behind it. -/
theorem exists_split {α : Type} {l : List α} {k : Nat} {u : α} (hu : l[k]? = some u) :
    ∃ p q, l = p ++ u :: q ∧ p.length = k := by
  obtain ⟨hk, rfl⟩ := List.getElem?_eq_some_iff.mp hu
  refine ⟨l.take k, l.drop (k + 1), ?_, List.length_take_of_le (by omega)⟩
  rw [← List.drop_eq_getElem_cons, List.take_append_drop]

theorem eraseIdx_length_append {α : Type} (p q : List α) (y : α) :
    (p ++ y :: q).eraseIdx p.length = p ++ q := by
  rw [List.eraseIdx_append_of_length_le (Nat.le_refl _), Nat.sub_self, List.eraseIdx_cons_zero]

theorem popIndex_does (hr : h.Holds list nodes) (index : Nat) :
    (popIndex index).Does h x list nodes := by
  cases hr with
  | empty => exact ⟨none, h, by simp [run, NodeHeap.popIndex, seq], .rejected .empty⟩
  | @ring a l hring =>
    have hfind := findIndex_eq hring index
    cases hu : (a :: l)[index]? with
    | none =>
      have hseq : (popIndex index).seq (fun _ => x) (a :: l) = (a :: l, none) := by
        rw [seq, hu, List.eraseIdx_of_length_le (List.getElem?_eq_none_iff.mp hu)]
      rw [Does, hseq]
      refine ⟨some a, h, ?_, .rejected (.ring hring)⟩
      simp [run, NodeHeap.popIndex, hfind, hu]
    | some u =>
      cases index with
      | zero =>
        -- the head: through the list itself
        obtain rfl : a = u := Option.some.inj hu
        obtain ⟨list', h', hrun, hout⟩ := extractNode_does (x := x) (.ring hring)
        refine ⟨list', h', ?_, hout.holds, hout.grows, nofun, hout.unchanged⟩
        simpa [run, NodeHeap.popIndex, hfind, seq] using hrun
      | succ k =>
        obtain ⟨p, q, rfl, rfl⟩ := exists_split (show l[k]? = some u from hu)
        have hne : a ≠ u := by
          rintro rfl
          exact (List.nodup_cons.mp hring.ring.nodup).1 (by simp)
        obtain ⟨list', h', hrun, hring', hext⟩ := hring.extract_inner
        have hseq : (popIndex (p.length + 1)).seq (fun _ => x) (a :: (p ++ u :: q)) =
            (a :: (p ++ q), some u) := by
          rw [seq, hu, List.eraseIdx_cons_succ, eraseIdx_length_append]
        rw [Does, hseq]
        refine ⟨some a, h', ?_, .popped rfl (.ring hring') hext⟩
        simp [run, NodeHeap.popIndex, hfind, hne, hrun]

theorem insertIdx_length_append {α : Type} (p q : List α) (y : α) :
    (p ++ q).insertIdx p.length y = p ++ y :: q := by
  induction p with
  | nil => rfl
  | cons c p ih => simp [ih]

theorem pushIndex_does (hr : h.Holds list nodes) (hx : h.allocated x = false) (index : Nat)
    (v : Payload) : (pushIndex index v).Does h x list nodes := by
  rcases Nat.eq_zero_or_pos index with rfl | hpos
  · -- `push_front`, in a ring or not
    obtain ⟨list', h', hrun, hout⟩ := pushFront_does hr hx v
    refine ⟨list', h', ?_, hout.holds, hout.grows, hout.value, hout.unchanged⟩
    simpa [run, NodeHeap.pushIndex, seq] using hrun
  have hne : index ≠ 0 := by omega
  cases hr with
  | empty =>
    have hseq : (pushIndex index v).seq (fun _ => x) [] = ([], none) := by
      rw [seq, if_neg (by simpa using hne)]
    rw [Does, hseq]
    refine ⟨none, h, ?_, .rejected .empty⟩
    simp [run, NodeHeap.pushIndex, hne]
  | @ring a l hring =>
    have hloop := NodeHeap.pushIndexLoop_eq hring (List.nil_append _).symm index
    rcases Nat.lt_or_ge (a :: l).length index with hlt | hle
    · have hseq : (pushIndex index v).seq (fun _ => x) (a :: l) = (a :: l, none) := by
        rw [seq, if_neg (by omega)]
      rw [Does, hseq]
      refine ⟨some a, h, ?_, .rejected (.ring hring)⟩
      obtain ⟨left, hleft⟩ : ∃ left, index - (a :: l).length = left + 1 :=
        ⟨index - (a :: l).length - 1, by omega⟩
      rw [List.getElem?_eq_none (by omega), Option.none_or, hleft] at hloop
      simp [run, NodeHeap.pushIndex, hne, hloop]
    · rw [Nat.sub_eq_zero_of_le hle] at hloop
      have hrun : ∀ u list' h', (a :: l)[index]?.or (some a) = some u →
          h.addNodeBefore x (some u) v = some (some x, list', h') →
          (pushIndex index v).run h x (some a) = some (some x, some a, h') := by
        intro u list' h' hu hadd
        rw [hu] at hloop
        simp [run, NodeHeap.pushIndex, NodeHeap.pushBack, hne, hloop, hadd]
      have hseq : (pushIndex index v).seq (fun _ => x) (a :: l) =
          ((a :: l).insertIdx index x, some x) := by
        rw [seq, if_pos hle]
      rw [Does, hseq]
      cases hu : (a :: l)[index]? with
      | none =>
        -- behind the last node, which is in front of the first
        obtain rfl : index = (a :: l).length :=
          Nat.le_antisymm hle (List.getElem?_eq_none_iff.mp hu)
        obtain ⟨h', hadd, hring', hext, hdata⟩ := hring.push hx v
        rw [List.insertIdx_length_self]
        exact ⟨some a, h', hrun a _ h' (by rw [hu]; rfl) hadd,
          .pushed rfl (.ring hring') hext hdata⟩
      | some u =>
        obtain ⟨k, rfl⟩ := Nat.exists_eq_succ_of_ne_zero hne
        obtain ⟨p, q, rfl, rfl⟩ := exists_split (show l[k]? = some u from hu)
        obtain ⟨h', hadd, hring', hext, hdata⟩ := hring.rotateTo.push hx v
        rw [List.append_assoc, List.cons_append] at hring'
        have hback := hring'.rotateTo
        rw [List.append_assoc] at hback
        have hins : (a :: (p ++ u :: q)).insertIdx p.length.succ x = a :: (p ++ x :: u :: q) := by
          rw [List.insertIdx_succ_cons, insertIdx_length_append]
        rw [hins]
        exact ⟨some a, h', hrun u _ h' (by rw [hu]; rfl) hadd,
          .pushed rfl (.ring hback) hext hdata⟩

/-- Every call on a list does what it does on the sequence of its nodes. -/
theorem run_does (call : ListCall) (hr : h.Holds list nodes) (hx : h.allocated x = false) :
    call.Does h x list nodes := by
  cases call with
  | pushBack v => exact pushBack_does hr hx v
  | pushFront v => exact pushFront_does hr hx v
  | pushIndex index v => exact pushIndex_does hr hx index v
  | popBack => exact popBack_does hr
  | popFront => exact popFront_does hr
  | popIndex index => exact popIndex_does hr index
  | findIndex index => exact findIndex_does hr index
  | extractNode => exact extractNode_does hr

end

/-- A call adds no node but the new one. -/
theorem mem_of_mem_seq {x u : Word} {nodes : List Word} (call : ListCall)
    (hu : u ∈ (call.seq (fun _ => x) nodes).1) : u ∈ nodes ∨ u = x := by
  cases call with
  | pushBack v => simpa [seq] using hu
  | pushFront v => simpa [seq, or_comm] using hu
  | pushIndex index v =>
    rw [seq] at hu
    split at hu
    · exact (List.eq_or_mem_of_mem_insertIdx hu).symm
    · exact .inl hu
  | popBack => exact .inl ((List.dropLast_sublist nodes).subset hu)
  | popFront => exact .inl (List.mem_of_mem_tail hu)
  | popIndex index => exact .inl (List.mem_of_mem_eraseIdx hu)
  | findIndex index => exact .inl hu
  | extractNode => exact .inl (List.mem_of_mem_tail hu)

/-- The node that a call takes out was in the list, and no longer is. -/
theorem extracted_not_mem {x u : Word} {nodes : List Word} {call : ListCall}
    (hex : call.extracts = true) (hnd : nodes.Nodup)
    (hu : (call.seq (fun _ => x) nodes).2 = some u) :
    u ∈ nodes ∧ u ∉ (call.seq (fun _ => x) nodes).1 := by
  have hhead : nodes.head? = some u → u ∈ nodes ∧ u ∉ nodes.tail := by
    intro hu
    obtain ⟨l, rfl⟩ := List.head?_eq_some_iff.mp hu
    exact ⟨List.mem_cons_self, (List.nodup_cons.mp hnd).1⟩
  cases call with
  | popBack =>
    obtain ⟨p, rfl⟩ := List.getLast?_eq_some_iff.mp hu
    rw [seq, List.dropLast_concat]
    refine ⟨by simp, fun hp => ?_⟩
    exact (List.nodup_append.mp hnd).2.2 u hp u (by simp) rfl
  | popFront => exact hhead hu
  | extractNode => exact hhead hu
  | popIndex index =>
    obtain ⟨p, q, rfl, rfl⟩ := exists_split hu
    rw [seq, eraseIdx_length_append]
    refine ⟨by simp, fun hpq => ?_⟩
    have hmid := (List.nodup_middle.mp hnd)
    exact (List.nodup_cons.mp hmid).1 hpq
  | pushBack v => cases hex
  | pushFront v => cases hex
  | pushIndex index v => cases hex
  | findIndex index => cases hex

end ListCall

/-! ## Runs -/

/-- What an event does to the sequence. -/
def ListEvent.seq : ListEvent → List Payload → List Payload
  | .call c, l => (c.seq id l).1
  | .free _, l => l

section

variable {h : NodeHeap} {list : NodePtr} {nodes : List Word}

theorem NodeHeap.Holds.nodup (hr : h.Holds list nodes) : nodes.Nodup := by
  cases hr with
  | empty => exact .nil
  | ring hring => exact hring.ring.nodup

theorem NodeHeap.Holds.allocated (hr : h.Holds list nodes) : ∀ u ∈ nodes, h.allocated u = true := by
  cases hr with
  | empty => simp
  | ring hring => exact hring.allocated

/-- What the call returns, in payloads. -/
theorem ListCall.Outcome.payloads {call : ListCall} {x : Word} {list' : NodePtr} {h' : NodeHeap}
    (hr : h.Holds list nodes) (hout : call.Outcome h list (call.seq (fun _ => x) nodes).1
      (call.seq (fun _ => x) nodes).2 list' h') :
    call.seq id (nodes.map h.data) = ((call.seq (fun _ => x) nodes).1.map h'.data,
      (call.seq (fun _ => x) nodes).2.map h'.data) := by
  have hsame : nodes.map h.data = nodes.map h'.data :=
    List.map_congr_left fun u hu => (hout.grows.data u (hr.allocated u hu)).symm
  rw [hsame]
  exact call.seq_map nodes fun v hv hx => hout.value v hv x hx

end

/-- The nodes of the list, their payloads, and the nodes that were taken out of it. -/
structure ListInv (s : ListSession) (nodes : List Word) (l : List Payload) : Prop where
  holds : s.heap.Holds s.list nodes
  payloads : nodes.map s.heap.data = l
  extracted : ∀ u ∈ s.extracted, u ∉ nodes ∧ s.heap.allocated u = true

section

variable {s t : ListSession} {nodes : List Word} {l : List Payload}

theorem ListInv.call {call : ListCall} {x : Word} {node list' : NodePtr} {h' : NodeHeap}
    (hinv : ListInv s nodes l) (hx : s.heap.allocated x = false)
    (hrun : call.run s.heap x s.list = some (node, list', h')) :
    ListInv ⟨h', list', if call.extracts then node.toList ++ s.extracted else s.extracted⟩
      (call.seq (fun _ => x) nodes).1 (call.seq id l).1 := by
  obtain ⟨list₁, h₁, hrun', hout⟩ := call.run_does hinv.holds hx
  obtain ⟨rfl, rfl, rfl⟩ : node = (call.seq (fun _ => x) nodes).2 ∧ list' = list₁ ∧ h' = h₁ := by
    simpa using hrun.symm.trans hrun'
  refine ⟨hout.holds, ?_, ?_⟩
  · rw [← hinv.payloads, hout.payloads hinv.holds]
  have hold : ∀ u ∈ s.extracted, u ∉ (call.seq (fun _ => x) nodes).1 ∧ h'.allocated u = true := by
    intro u hu
    obtain ⟨hnot, halloc⟩ := hinv.extracted u hu
    refine ⟨fun hmem => ?_, hout.grows.allocated u halloc⟩
    rcases call.mem_of_mem_seq hmem with hmem | rfl
    · exact hnot hmem
    · rw [hx] at halloc
      cases halloc
  intro u hu
  simp only at hu
  split at hu
  · rename_i hex
    rcases List.mem_append.mp hu with hu | hu
    · obtain ⟨hin, hnot⟩ :=
        ListCall.extracted_not_mem hex hinv.holds.nodup (Option.mem_toList.mp hu)
      exact ⟨hnot, hout.grows.allocated u (hinv.holds.allocated u hin)⟩
    · exact hold u hu
  · exact hold u hu

/-- A freed node is not in the list. -/
theorem ListInv.free {x : Word} (hinv : ListInv s nodes l) (hx : x ∈ s.extracted) :
    ListInv ⟨s.heap.free x, s.list, s.extracted.filter (· ≠ x)⟩ nodes l := by
  have hne : ∀ u ∈ nodes, u ≠ x := by
    rintro u hu rfl
    exact (hinv.extracted u hx).1 hu
  refine ⟨?_, hinv.payloads, fun u hu => ?_⟩
  · obtain ⟨hholds, -, -⟩ := hinv
    revert hholds hne
    generalize s.list = list
    intro hne hholds
    cases hholds with
    | empty => exact .empty
    | ring hring =>
      refine .ring ⟨hring.ring, fun u hu => ?_⟩
      exact (Function.update_of_ne (hne u hu) ..).trans (hring.allocated u hu)
  · obtain ⟨hu, hux⟩ := List.mem_filter.mp hu
    obtain ⟨hnot, halloc⟩ := hinv.extracted u hu
    exact ⟨hnot, (Function.update_of_ne (by simpa using hux) ..).trans halloc⟩

theorem ListInv.step {e : ListEvent} (hinv : ListInv s nodes l) (hstep : ListStep s e t) :
    ∃ nodes', ListInv t nodes' (e.seq l) := by
  cases hstep with
  | call hx hrun => exact ⟨_, hinv.call hx hrun⟩
  | free hx => exact ⟨nodes, hinv.free hx⟩

theorem ListInv.runs {events : List ListEvent} (hinv : ListInv s nodes l)
    (hrun : Runs ListStep s events t) :
    ∃ nodes', ListInv t nodes' (events.foldl (fun l e => e.seq l) l) := by
  induction hrun generalizing nodes l with
  | nil s => exact ⟨nodes, hinv⟩
  | cons hstep _ ih =>
    obtain ⟨nodes', hinv'⟩ := hinv.step hstep
    exact ih hinv'

end

/-- A list that starts NULL. After any run, its nodes form a ring whose payloads are what the run
makes of the empty sequence, and no extracted node is among them; every further call returns what it
returns on the sequence, which is NULL, with nothing changed, if it is out of range. -/
theorem list_refines {h : NodeHeap} {events : List ListEvent} {s : ListSession}
    (hrun : Runs ListStep ⟨h, none, []⟩ events s) :
    ∃ nodes, s.heap.Holds s.list nodes ∧
      nodes.map s.heap.data = events.foldl (fun l e => e.seq l) [] ∧
      (∀ u ∈ s.extracted, u ∉ nodes) ∧
      ∀ (call : ListCall) (x : Word), s.heap.allocated x = false → ∃ node list' h',
        call.run s.heap x s.list = some (node, list', h') ∧
        node.map h'.data = (call.seq id (nodes.map s.heap.data)).2 ∧
        (node = none ↔ call.OutOfRange nodes.length) ∧
        (node = none → list' = s.list ∧ h' = s.heap) := by
  obtain ⟨nodes, hinv⟩ := ListInv.runs ⟨.empty, rfl, by simp⟩ hrun
  refine ⟨nodes, hinv.holds, hinv.payloads, fun u hu => (hinv.extracted u hu).1,
    fun call x hx => ?_⟩
  obtain ⟨list', h', hcall, hout⟩ := call.run_does hinv.holds hx
  refine ⟨_, list', h', hcall, ?_, call.seq_eq_none_iff _ nodes, hout.unchanged⟩
  rw [hout.payloads hinv.holds]

/-- A heap in which nothing is allocated. -/
def NodeHeap.empty : NodeHeap :=
  ⟨fun _ => false, fun _ => none, fun _ => none, fun _ => Vector.replicate 5 0⟩

/-- Three nodes, a fourth in the middle, and the one behind it taken out. -/
theorem list_refines_middle : ∃ s nodes, Runs ListStep ⟨.empty, none, []⟩
    [.call (.pushBack (Vector.replicate 5 7)), .call (.pushBack (Vector.replicate 5 8)),
      .call (.pushBack (Vector.replicate 5 9)), .call (.pushIndex 1 (Vector.replicate 5 6)),
      .call (.popIndex 2)] s ∧ s.extracted = [0x2000] ∧ s.heap.Holds s.list nodes ∧
    nodes.map s.heap.data = [Vector.replicate 5 7, Vector.replicate 5 6, Vector.replicate 5 9] := by
  have hrun : Runs ListStep ⟨.empty, none, []⟩
      [.call (.pushBack (Vector.replicate 5 7)), .call (.pushBack (Vector.replicate 5 8)),
        .call (.pushBack (Vector.replicate 5 9)), .call (.pushIndex 1 (Vector.replicate 5 6)),
        .call (.popIndex 2)] _ :=
    .cons (@ListStep.call _ _ 0x1000 _ _ _ rfl rfl)
      (.cons (@ListStep.call _ _ 0x2000 _ _ _ rfl rfl)
        (.cons (@ListStep.call _ _ 0x3000 _ _ _ rfl rfl)
          (.cons (@ListStep.call _ _ 0x4000 _ _ _ rfl rfl)
            (.cons (@ListStep.call _ _ 0x5000 _ _ _ rfl rfl) (.nil _)))))
  obtain ⟨nodes, hholds, hdata, -⟩ := list_refines hrun
  exact ⟨_, nodes, hrun, rfl, hholds, hdata⟩

end AvocadOS
