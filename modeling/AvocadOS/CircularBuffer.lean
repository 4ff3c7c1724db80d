import AvocadOS.Config
import AvocadOS.Lib.Cyclic

/-!
# The circular buffer (`buffer.c`)

A buffer of `BUFFER_SIZE` pointers to `int`. NULL is `none`; an access past the end of the array has
no result, and neither has a read of an `int` that is not there: the caller's `int`s are passed as
the map `ints`.

`BufferHistory` says what the buffer is for: it has every pointer that was pushed and the number of
those that were popped, and the others wait in their order.

* `Represents.pushBack`, `Represents.popFront`, `Represents.print`: one call;
* `buffer_refines`: after `init`, every sequence of calls does what the history says, and `print`
  reads through the last `BUFFER_SIZE` pointers that were pushed, popped or not.
-/

namespace AvocadOS

/-- `int *`. -/
abbrev IntPtr := Option Word

def BUFFER_SIZE : Nat := 3

/-- `struct circular_buffer`; `tail` is its field `end`. -/
structure CircularBuffer where
  buffer : Nat → IntPtr
  head : Nat
  tail : Nat
  count : Nat

namespace CircularBuffer

/-- `cb->buffer[i]`. -/
def slot (cb : CircularBuffer) (i : Nat) : Option IntPtr :=
  if i < BUFFER_SIZE then some (cb.buffer i) else none

def setSlot (cb : CircularBuffer) (i : Nat) (value : IntPtr) : Option CircularBuffer :=
  if i < BUFFER_SIZE then some { cb with buffer := Function.update cb.buffer i value } else none

def init (cb : CircularBuffer) : CircularBuffer where
  buffer := (List.range BUFFER_SIZE).foldl (fun buffer i => Function.update buffer i none) cb.buffer
  head := 0
  tail := 0
  count := 0

def full (cb : CircularBuffer) : Bool := cb.count == BUFFER_SIZE

def empty (cb : CircularBuffer) : Bool := cb.count == 0

def pushBack (cb : CircularBuffer) (value : IntPtr) : Option (Int × CircularBuffer) := do
  if cb.full then return (0, cb)
  let cb ← cb.setSlot cb.head value
  return (1, { cb with head := (cb.head + 1) % BUFFER_SIZE, count := cb.count + 1 })

def popFront (cb : CircularBuffer) : Option (IntPtr × CircularBuffer) := do
  if cb.empty then return (none, cb)
  let value ← cb.slot cb.tail
  return (value, { cb with tail := (cb.tail + 1) % BUFFER_SIZE, count := cb.count - 1 })

/-- `ptr ? *ptr : -1`. -/
def shownInt (ints : Word → Option Int) : IntPtr → Option Int
  | none => some (-1)
  | some a => ints a

/-- `print`: the numbers of its line. -/
def print (cb : CircularBuffer) (ints : Word → Option Int) : Option (List Int) :=
  (List.range BUFFER_SIZE).mapM fun i => do shownInt ints (← cb.slot i)

end CircularBuffer

inductive BufferCall where
  | pushBack (value : IntPtr)
  | popFront
  | print (ints : Word → Option Int)

inductive BufferResult where
  | pushed (res : Int)
  | popped (value : IntPtr)
  | printed (values : List Int)
  deriving DecidableEq

def BufferCall.run (cb : CircularBuffer) : BufferCall → Option (BufferResult × CircularBuffer)
  | .pushBack value => (cb.pushBack value).map fun (res, cb) => (.pushed res, cb)
  | .popFront => cb.popFront.map fun (value, cb) => (.popped value, cb)
  | .print ints => (cb.print ints).map fun values => (.printed values, cb)

/-- The calls one after the other. -/
def runBufferCalls : List BufferCall → CircularBuffer → Option (List BufferResult)
  | [], _ => some []
  | call :: calls, cb => do
    let (result, cb) ← call.run cb
    let results ← runBufferCalls calls cb
    return result :: results

/-! ## What the calls are for -/

/-- What was pushed, and how much of it was popped. -/
structure BufferHistory where
  pushed : List IntPtr
  popped : Nat

def BufferHistory.waiting (h : BufferHistory) : List IntPtr := h.pushed.drop h.popped

/-- A push is refused while `BUFFER_SIZE` pointers wait, a pop gives the one that has waited longest,
and `print` shows, for each place, what was pushed there last. -/
def BufferCall.spec (h : BufferHistory) : BufferCall → Option (BufferResult × BufferHistory)
  | .pushBack value =>
    if h.waiting.length < BUFFER_SIZE then
      some (.pushed 1, { h with pushed := h.pushed ++ [value] })
    else some (.pushed 0, h)
  | .popFront =>
    match h.waiting with
    | [] => some (.popped none, h)
    | value :: _ => some (.popped value, { h with popped := h.popped + 1 })
  | .print ints =>
    ((List.range BUFFER_SIZE).mapM fun i =>
      CircularBuffer.shownInt ints (Cyclic.lastAt BUFFER_SIZE i h.pushed).join).map
        fun values => (.printed values, h)

def bufferSpec : List BufferCall → BufferHistory → Option (List BufferResult)
  | [], _ => some []
  | call :: calls, h => do
    let (result, h) ← call.spec h
    let results ← bufferSpec calls h
    return result :: results

/-! ## Refinement -/

/-- The buffer holds the last `BUFFER_SIZE` pointers that were pushed, and counts those that wait. -/
structure CircularBuffer.Represents (cb : CircularBuffer) (h : BufferHistory) : Prop where
  count : cb.count + h.popped = h.pushed.length
  count_le : cb.count ≤ BUFFER_SIZE
  head : cb.head = h.pushed.length % BUFFER_SIZE
  tail : cb.tail = h.popped % BUFFER_SIZE
  slots : ∀ i < BUFFER_SIZE, cb.buffer i = (Cyclic.lastAt BUFFER_SIZE i h.pushed).join

theorem BUFFER_SIZE_pos : 0 < BUFFER_SIZE := by decide

namespace CircularBuffer

variable {cb : CircularBuffer} {h : BufferHistory}

/-- The loop of `init` clears the places, whatever they held. -/
theorem foldl_update_none (buffer : Nat → IntPtr) (n i : Nat) :
    (List.range n).foldl (fun buffer i => Function.update buffer i none) buffer i =
      if i < n then none else buffer i := by
  induction n with
  | zero => rfl
  | succ n ih =>
    rw [List.range_succ, List.foldl_append, List.foldl_cons, List.foldl_nil]
    by_cases hi : i = n
    · subst hi
      rw [Function.update_self, if_pos (Nat.lt_succ_self i)]
    · rw [Function.update_of_ne hi, ih]
      exact if_congr (by omega) rfl rfl

theorem init_represents (cb : CircularBuffer) : cb.init.Represents ⟨[], 0⟩ where
  count := rfl
  count_le := Nat.zero_le _
  head := rfl
  tail := rfl
  slots i hi := by
    simp only [init, foldl_update_none, if_pos hi, Cyclic.lastAt_nil]
    rfl

namespace Represents

theorem waiting_length (hr : cb.Represents h) : h.waiting.length = cb.count := by
  have := hr.count
  rw [BufferHistory.waiting, List.length_drop]
  omega

theorem slot (hr : cb.Represents h) {i : Nat} (hi : i < BUFFER_SIZE) :
    cb.slot i = some (Cyclic.lastAt BUFFER_SIZE i h.pushed).join := by
  rw [CircularBuffer.slot, if_pos hi, hr.slots i hi]

theorem pushBack (hr : cb.Represents h) (value : IntPtr) :
    ∃ result h' cb', (BufferCall.pushBack value).spec h = some (result, h') ∧
      (BufferCall.pushBack value).run cb = some (result, cb') ∧ cb'.Represents h' := by
  have hcount := hr.count
  have hle := hr.count_le
  by_cases hfull : cb.count = BUFFER_SIZE
  · refine ⟨.pushed 0, h, cb, ?_, ?_, hr⟩
    · rw [BufferCall.spec, hr.waiting_length, if_neg (by omega)]
    · simp [BufferCall.run, CircularBuffer.pushBack, full, hfull]
  · have hhead : cb.head < BUFFER_SIZE := hr.head ▸ Nat.mod_lt _ BUFFER_SIZE_pos
    refine ⟨.pushed 1, { h with pushed := h.pushed ++ [value] },
      { cb with
        buffer := Function.update cb.buffer cb.head value
        head := (cb.head + 1) % BUFFER_SIZE
        count := cb.count + 1 }, ?_, ?_, ?_⟩
    · rw [BufferCall.spec, hr.waiting_length, if_pos (by omega)]
    · simp only [BufferCall.run, CircularBuffer.pushBack, full, beq_iff_eq, if_neg hfull, setSlot,
        if_pos hhead]
      rfl
    · refine ⟨?_, ?_, ?_, hr.tail, fun i hi => ?_⟩
      · simp only [List.length_append, List.length_singleton]
        omega
      · simp only
        omega
      · simp only [List.length_append, List.length_singleton, hr.head, Nat.mod_add_mod]
      · rw [Cyclic.lastAt_concat, ← hr.head]
        by_cases hij : cb.head = i
        · subst hij
          rw [if_pos rfl]
          exact Function.update_self ..
        · rw [if_neg hij]
          exact (Function.update_of_ne (Ne.symm hij) ..).trans (hr.slots i hi)

/-- The place of the pointer that has waited longest was not written since. -/
theorem oldest (hr : cb.Represents h) {value : IntPtr} {rest : List IntPtr}
    (hw : h.waiting = value :: rest) : cb.slot cb.tail = some value := by
  have hcount := hr.count
  have hle := hr.count_le
  have hget : h.pushed[h.popped]? = some value := by
    have := congrArg (·[0]?) hw
    simpa [BufferHistory.waiting] using this
  rw [hr.slot (hr.tail ▸ Nat.mod_lt _ BUFFER_SIZE_pos), hr.tail,
    Cyclic.lastAt_mod hget (by omega)]
  rfl

theorem popFront (hr : cb.Represents h) :
    ∃ result h' cb', BufferCall.popFront.spec h = some (result, h') ∧
      BufferCall.popFront.run cb = some (result, cb') ∧ cb'.Represents h' := by
  have hlen := hr.waiting_length
  cases hw : h.waiting with
  | nil =>
    rw [hw, List.length_nil] at hlen
    refine ⟨.popped none, h, cb, ?_, ?_, hr⟩
    · simp only [BufferCall.spec, hw]
    · simp [BufferCall.run, CircularBuffer.popFront, empty, ← hlen]
  | cons value rest =>
    rw [hw, List.length_cons] at hlen
    have hcount := hr.count
    have hle := hr.count_le
    refine ⟨.popped value, { h with popped := h.popped + 1 },
      { cb with tail := (cb.tail + 1) % BUFFER_SIZE, count := cb.count - 1 }, ?_, ?_, ?_⟩
    · simp only [BufferCall.spec, hw]
    · simp only [BufferCall.run, CircularBuffer.popFront, empty, beq_iff_eq,
        if_neg (show cb.count ≠ 0 by omega), hr.oldest hw]
      rfl
    · refine ⟨?_, ?_, hr.head, ?_, hr.slots⟩
      · simp only
        omega
      · simp only
        omega
      · simp only [hr.tail, Nat.mod_add_mod]

theorem print_places (hr : cb.Represents h) (ints : Word → Option Int) {places : List Nat}
    (hplaces : ∀ i ∈ places, i < BUFFER_SIZE) :
    (places.mapM fun i => do shownInt ints (← cb.slot i)) =
      places.mapM fun i => shownInt ints (Cyclic.lastAt BUFFER_SIZE i h.pushed).join := by
  induction places with
  | nil => rfl
  | cons i places ih =>
    rw [List.mapM_cons, List.mapM_cons, hr.slot (hplaces i List.mem_cons_self),
      ih fun j hj => hplaces j (List.mem_cons_of_mem _ hj)]
    rfl

theorem print (hr : cb.Represents h) (ints : Word → Option Int) :
    cb.print ints = (List.range BUFFER_SIZE).mapM fun i =>
      shownInt ints (Cyclic.lastAt BUFFER_SIZE i h.pushed).join :=
  hr.print_places ints fun _ => List.mem_range.mp

/-- One call, with or without a result. -/
theorem call (hr : cb.Represents h) (call : BufferCall) :
    (call.spec h = none ∧ call.run cb = none) ∨ ∃ result h' cb', call.spec h = some (result, h') ∧
      call.run cb = some (result, cb') ∧ cb'.Represents h' := by
  cases call with
  | pushBack value => exact .inr (hr.pushBack value)
  | popFront => exact .inr hr.popFront
  | print ints =>
    simp only [BufferCall.spec, BufferCall.run, hr.print ints]
    generalize ((List.range BUFFER_SIZE).mapM fun i =>
      shownInt ints (Cyclic.lastAt BUFFER_SIZE i h.pushed).join) = values
    cases values with
    | none => exact .inl ⟨rfl, rfl⟩
    | some values => exact .inr ⟨_, h, cb, rfl, rfl, hr⟩

end Represents

theorem runBufferCalls_eq (calls : List BufferCall) (hr : cb.Represents h) :
    runBufferCalls calls cb = bufferSpec calls h := by
  induction calls generalizing cb h with
  | nil => rfl
  | cons call calls ih =>
    rcases hr.call call with ⟨hs, hrun⟩ | ⟨result, h', cb', hs, hrun, hr'⟩
    · rw [runBufferCalls, bufferSpec, hs, hrun]
      rfl
    · rw [runBufferCalls, bufferSpec, hs, hrun]
      simp only [Option.bind_eq_bind, Option.bind_some, ih hr']

/-- After `init`, whatever the structure held before, a sequence of calls has a result exactly if
every `print` finds the `int`s of the pointers that were pushed last, and then the results are those
of a bounded first-in first-out queue. -/
theorem buffer_refines (cb : CircularBuffer) (calls : List BufferCall) :
    runBufferCalls calls cb.init = bufferSpec calls ⟨[], 0⟩ :=
  runBufferCalls_eq calls cb.init_represents

end CircularBuffer

end AvocadOS
