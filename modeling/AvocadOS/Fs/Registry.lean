import AvocadOS.Fs.Handles
import Mathlib.Data.List.Induction

/-!
# Registered file systems (`fs_register_fs`, `fs_probe_fs`)

The registry is an array of pointers to operation tables. `probes` are the tables in memory: at the
address of each one, the value that its `probe` returns for a disk. `fs_probe_fs` starts at the table
of the first entry, and steps by `sizeof(struct filesystem_operations_t)` through the memory, not
through the registry.

* `registerAll_get`: the registry after a sequence of registrations;
* `probesRight_iff`: probing works exactly if the tables happen to lie one behind the other.
-/

namespace AvocadOS

def MAX_FILESYSTEMS : Nat := 5

/-- `sizeof(struct filesystem_operations_t)`. -/
def filesystemOperationsSize : Nat := 32

/-- `fs_register_fs`: the returned value and `registered_filesystems`. -/
def fsRegisterFs (registered : Nat → Word) (operations : Word) : Int × (Nat → Word) :=
  match findFreeSlot registered MAX_FILESYSTEMS 0 with
  | some i => (0, Function.update registered i operations)
  | none => (- EIO, registered)

/-- The loop of `fs_probe_fs`: the result, and the tables whose `probe` was called. -/
def fsProbeLoop (probes : Word → Option (Disk → Int)) (disk : Disk) :
    Nat → Word → List Word → Except Fault (Word × List Word)
  | 0, _, _ => .error .hang
  | fuel + 1, fsOp, called =>
    if fsOp = 0 then .ok (0, called)
    else match probes fsOp with
      | none => .error .badDeref
      | some probe =>
        if probe disk = 0 then .ok (fsOp, called ++ [fsOp])
        else fsProbeLoop probes disk fuel (fsOp + BitVec.ofNat 32 filesystemOperationsSize)
          (called ++ [fsOp])

def fsProbeFs (probes : Word → Option (Disk → Int)) (registered : Nat → Word) (disk : Disk)
    (fuel : Nat) : Except Fault (Word × List Word) :=
  fsProbeLoop probes disk fuel (registered 0) []

/-! ## Registering -/

/-- The registry after the `systems` were registered, one after the other. -/
def registerAll (systems : List Word) : Nat → Word :=
  systems.foldl (fun registered operations => (fsRegisterFs registered operations).2) fun _ => 0

/-- The first free slot, if one knows where it is. -/
theorem findFreeSlot_eq {table : Nat → Word} {n i j : Nat} (hle : i ≤ j) (hlt : j < i + n)
    (hfree : table j = 0) (hused : ∀ k, i ≤ k → k < j → table k ≠ 0) :
    findFreeSlot table n i = some j := by
  induction n generalizing i with
  | zero => omega
  | succ n ih =>
    rw [findFreeSlot]
    rcases Nat.eq_or_lt_of_le hle with rfl | hij
    · rw [if_pos hfree]
    · rw [if_neg (hused i (Nat.le_refl i) hij)]
      exact ih hij (by omega) fun k hk => hused k (by omega)

theorem registerAll_get {systems : List Word} (hne : ∀ op ∈ systems, op ≠ 0)
    (hlen : systems.length ≤ MAX_FILESYSTEMS) : registerAll systems = fun i => systems.getD i 0 := by
  induction systems using List.reverseRecOn with
  | nil => rfl
  | append_singleton systems op ih =>
    rw [List.length_append, List.length_singleton] at hlen
    have hreg : registerAll systems = fun i => systems.getD i 0 :=
      ih (fun op hop => hne op (List.mem_append_left _ hop)) (by omega)
    have hslot : findFreeSlot (fun i => systems.getD i 0) MAX_FILESYSTEMS 0 = some systems.length := by
      refine findFreeSlot_eq (Nat.zero_le _) (by omega) (List.getD_eq_default _ _ (Nat.le_refl _))
        fun k _ hk => ?_
      rw [List.getD_eq_getElem _ _ hk]
      exact hne _ (List.mem_append_left _ (List.getElem_mem hk))
    have hstep : registerAll (systems ++ [op]) = (fsRegisterFs (registerAll systems) op).2 := by
      rw [registerAll, List.foldl_append]
      rfl
    rw [hstep, hreg, fsRegisterFs, hslot]
    funext i
    dsimp only
    by_cases hi : i = systems.length
    · subst hi
      simp
    · rw [Function.update_of_ne hi]
      rcases Nat.lt_or_gt_of_ne hi with hi | hi
      · rw [List.getD_append _ _ _ _ hi]
      · rw [List.getD_eq_default _ _ (Nat.le_of_lt hi), List.getD_eq_default]
        rw [List.length_append, List.length_singleton]
        exact hi

/-! ## Probing -/

section Probing

variable {probes : Word → Option (Disk → Int)} {disk : Disk} {systems : List Word} {a : Word}

/-- The table at `op` has a probe that accepts the disk. -/
def accepts (probes : Word → Option (Disk → Int)) (disk : Disk) (op : Word) : Bool :=
  match probes op with
  | some probe => probe disk == 0
  | none => false

/-- What probing is for: the tables in the order of the registration, up to the first one that
accepts the disk; that one or NULL is the result. -/
def probeSpec (probes : Word → Option (Disk → Int)) (disk : Disk) : List Word → Word × List Word
  | [] => (0, [])
  | op :: systems =>
    if accepts probes disk op then (op, [op])
    else
      let (result, called) := probeSpec probes disk systems
      (result, op :: called)

/-- `fs_probe_fs` returns, and does just this. -/
def ProbesRight (probes : Word → Option (Disk → Int)) (disk : Disk) (systems : List Word) : Prop :=
  ∃ fuel, fsProbeFs probes (registerAll systems) disk fuel = .ok (probeSpec probes disk systems)

/-- From the address `a` on, the tables lie one behind the other, up to the first one that accepts;
behind the last one, if none does, is the address 0. -/
def Follows (probes : Word → Option (Disk → Int)) (disk : Disk) : List Word → Word → Prop
  | [], a => a = 0
  | op :: systems, a => op = a ∧ (accepts probes disk op = false →
      Follows probes disk systems (a + BitVec.ofNat 32 filesystemOperationsSize))

/-- What an iteration did, if the loop returns. -/
theorem fsProbeLoop_cases {fuel : Nat} {called c : List Word} {r : Word}
    (h : fsProbeLoop probes disk fuel a called = .ok (r, c)) :
    (a = 0 ∧ r = 0 ∧ c = called) ∨
      (accepts probes disk a = true ∧ r = a ∧ c = called ++ [a]) ∨
      (accepts probes disk a = false ∧ ∃ fuel', fsProbeLoop probes disk fuel'
        (a + BitVec.ofNat 32 filesystemOperationsSize) (called ++ [a]) = .ok (r, c)) := by
  cases fuel with
  | zero => cases h
  | succ fuel =>
    rw [fsProbeLoop] at h
    split at h
    · rename_i h0
      cases h
      exact .inl ⟨h0, rfl, rfl⟩
    · split at h
      · cases h
      · rename_i probe hprobe
        split at h
        · rename_i hacc
          cases h
          exact .inr (.inl ⟨by rw [accepts, hprobe]; simpa using hacc, rfl, rfl⟩)
        · rename_i hrej
          exact .inr (.inr ⟨by rw [accepts, hprobe]; simpa using hrej, fuel, h⟩)

theorem fsProbeLoop_extends {fuel : Nat} {called c : List Word} {r : Word}
    (h : fsProbeLoop probes disk fuel a called = .ok (r, c)) : called <+: c := by
  induction fuel generalizing a called with
  | zero => cases h
  | succ fuel ih =>
    rw [fsProbeLoop] at h
    split at h
    · cases h
      exact List.prefix_rfl
    · split at h
      · cases h
      · split at h
        · cases h
          exact List.prefix_append _ _
        · exact (List.prefix_append _ _).trans (ih h)

/-- Two lists that go on behind `called` with `a` and with `op`. -/
theorem prefix_cons_inj {called rest : List Word} {op : Word}
    (h : called ++ [a] <+: called ++ op :: rest) : op = a := by
  rw [List.prefix_append_right_inj, List.cons_prefix_cons] at h
  exact h.1.symm

/-- The loop from the address `a` on does what it should for the tables that are left, if and only
if these lie there. -/
theorem fsProbeLoop_iff (hsys : ∀ op ∈ systems, op ≠ 0 ∧ (probes op).isSome) (called : List Word) :
    (∃ fuel, fsProbeLoop probes disk fuel a called =
      .ok ((probeSpec probes disk systems).1, called ++ (probeSpec probes disk systems).2)) ↔
      Follows probes disk systems a := by
  induction systems generalizing a called with
  | nil =>
    constructor
    · rintro ⟨fuel, h⟩
      rcases fsProbeLoop_cases h with ⟨h0, -, -⟩ | ⟨-, -, hc⟩ | ⟨-, fuel', h⟩
      · exact h0
      · simp [probeSpec] at hc
      · have hle := (fsProbeLoop_extends h).length_le
        simp only [probeSpec, List.append_nil, List.length_append, List.length_singleton] at hle
        omega
    · rintro rfl
      exact ⟨1, by simp [fsProbeLoop, probeSpec]⟩
  | cons op systems ih =>
    obtain ⟨hne, hsome⟩ := hsys op List.mem_cons_self
    obtain ⟨probe, hprobe⟩ := Option.isSome_iff_exists.mp hsome
    have ih := fun called => @ih (op + BitVec.ofNat 32 filesystemOperationsSize)
      (fun op hop => hsys op (List.mem_cons_of_mem _ hop)) called
    rw [Follows, probeSpec]
    cases hacc : accepts probes disk op with
    | true =>
      have hzero : probe disk = 0 := by simpa [accepts, hprobe] using hacc
      simp only [if_true]
      constructor
      · rintro ⟨fuel, h⟩
        refine ⟨?_, fun h => by cases h⟩
        rcases fsProbeLoop_cases h with ⟨-, -, hc⟩ | ⟨-, hr, -⟩ | ⟨-, fuel', h⟩
        · simp at hc
        · exact hr
        · exact prefix_cons_inj (fsProbeLoop_extends h)
      · rintro ⟨rfl, -⟩
        exact ⟨1, by rw [fsProbeLoop, if_neg hne, hprobe]; exact if_pos hzero⟩
    | false =>
      have hnonzero : ¬ probe disk = 0 := by simpa [accepts, hprobe] using hacc
      simp only [Bool.false_eq_true, if_false, true_imp_iff]
      constructor
      · rintro ⟨fuel, h⟩
        rcases fsProbeLoop_cases h with ⟨-, -, hc⟩ | ⟨ha, -, hc⟩ | ⟨-, fuel', h⟩
        · simp at hc
        · have hpre : called ++ [a] <+: called ++ op :: (probeSpec probes disk systems).2 :=
            ⟨[], by rw [List.append_nil, hc]⟩
          obtain rfl := prefix_cons_inj hpre
          rw [hacc] at ha
          cases ha
        · obtain rfl := prefix_cons_inj (fsProbeLoop_extends h)
          refine ⟨rfl, (ih (called ++ [op])).mp ⟨fuel', ?_⟩⟩
          rw [h, List.append_assoc]
          rfl
      · rintro ⟨rfl, hrest⟩
        obtain ⟨fuel, h⟩ := (ih (called ++ [op])).mpr hrest
        refine ⟨fuel + 1, ?_⟩
        rw [fsProbeLoop, if_neg hne, hprobe]
        dsimp only
        rw [if_neg hnonzero, h, List.append_assoc]
        rfl

/-- The tables, up to the first one that accepts the disk, lie one behind the other in the order of
their registration; and if none of them accepts, the address behind the last one is 0. -/
def Consecutive (probes : Word → Option (Disk → Int)) (disk : Disk) (systems : List Word)
    (first : Word) : Prop :=
  (∀ i op, systems[i]? = some op → (∀ op' ∈ systems.take i, accepts probes disk op' = false) →
    op = first + BitVec.ofNat 32 (filesystemOperationsSize * i)) ∧
  ((∀ op ∈ systems, accepts probes disk op = false) →
    first + BitVec.ofNat 32 (filesystemOperationsSize * systems.length) = 0)

theorem follows_iff_consecutive :
    Follows probes disk systems a ↔ Consecutive probes disk systems a := by
  have hsucc : ∀ (a : Word) (i : Nat), a + BitVec.ofNat 32 filesystemOperationsSize +
      BitVec.ofNat 32 (filesystemOperationsSize * i) =
        a + BitVec.ofNat 32 (filesystemOperationsSize * (i + 1)) := by
    intro a i
    rw [BitVec.add_assoc, ← BitVec.ofNat_add, Nat.mul_add_one, Nat.add_comm]
  induction systems generalizing a with
  | nil => simp [Follows, Consecutive]
  | cons op systems ih =>
    rw [Follows]
    constructor
    · rintro ⟨rfl, hrest⟩
      have hrest := fun hrej => ih.mp (hrest hrej)
      refine ⟨fun i op' hi hrej => ?_, fun hrej => ?_⟩
      · cases i with
        | zero =>
          cases hi
          simp
        | succ i =>
          rw [List.take_succ_cons] at hrej
          have hop := hrej op List.mem_cons_self
          rw [← hsucc]
          exact (hrest hop).1 i op' hi fun op' h => hrej op' (List.mem_cons_of_mem _ h)
      · rw [List.length_cons, ← hsucc]
        exact (hrest (hrej op List.mem_cons_self)).2 fun op' h => hrej op' (List.mem_cons_of_mem _ h)
    · rintro ⟨hget, hall⟩
      have hop : op = a := by simpa using hget 0 op rfl (by simp)
      refine ⟨hop, fun hrej => ih.mpr ⟨fun i op' hi hrej' => ?_, fun hrej' => ?_⟩⟩
      · rw [hsucc]
        refine hget (i + 1) op' hi fun op'' h => ?_
        rw [List.take_succ_cons, List.mem_cons] at h
        rcases h with rfl | h
        · exact hrej
        · exact hrej' op'' h
      · rw [hsucc]
        refine hall fun op'' h => ?_
        rcases List.mem_cons.mp h with rfl | h
        · exact hrej
        · exact hrej' op'' h

/-- After any sequence of at most `MAX_FILESYSTEMS` registrations, `fs_probe_fs` calls the probes of
the registered file systems in this order and returns the first one that accepts, or NULL, if and
only if their tables are consecutive. -/
theorem probesRight_iff (hsys : ∀ op ∈ systems, op ≠ 0 ∧ (probes op).isSome)
    (hlen : systems.length ≤ MAX_FILESYSTEMS) :
    ProbesRight probes disk systems ↔ Consecutive probes disk systems (systems.headD 0) := by
  have hfirst : registerAll systems 0 = systems.headD 0 := by
    rw [registerAll_get (fun op hop => (hsys op hop).1) hlen, List.headD_eq_head?_getD,
      List.head?_eq_getElem?]
    rfl
  rw [← follows_iff_consecutive, ← fsProbeLoop_iff hsys []]
  unfold ProbesRight fsProbeFs
  rw [hfirst]
  simp only [List.nil_append]

end Probing

/-- One table, whose probe returns `value` for every disk. -/
def oneTable (address : Word) (value : Int) (op : Word) : Option (Disk → Int) :=
  if op = address then some fun _ => value else none

/-- Two tables, one behind the other: the first rejects every disk, the second accepts every disk. -/
def twoTables (op : Word) : Option (Disk → Int) :=
  if op = 0xC0150000 then some fun _ => -EMEDIUMTYPE
  else if op = 0xC0150020 then some fun _ => 0
  else none

theorem probesRight_iff_second_accepts :
    ProbesRight twoTables ⟨fun _ => 0⟩ [0xC0150000, 0xC0150020] :=
  (probesRight_iff (by simp [twoTables]) (by decide)).mpr (by
    refine ⟨fun i op hi _ => ?_, fun h => ?_⟩
    · match i, hi with
      | 0, hi =>
        cases hi
        decide
      | 1, hi =>
        cases hi
        decide
      | i + 2, hi => cases hi
    · have := h 0xC0150020 (by simp)
      simp [accepts, twoTables] at this)

/-- One table that rejects the disk: `fs_probe_fs` calls whatever lies behind its table. -/
theorem probing_leaves_registry :
    ¬ ∀ (probes : Word → Option (Disk → Int)) (disk : Disk) (systems : List Word),
      (∀ op ∈ systems, op ≠ 0 ∧ (probes op).isSome) → systems.length ≤ MAX_FILESYSTEMS →
      ProbesRight probes disk systems := by
  intro h
  have hright := h (oneTable 0xC0150000 (-EMEDIUMTYPE)) ⟨fun _ => 0⟩ [0xC0150000]
    (by simp [oneTable]) (by decide)
  obtain ⟨fuel, hrun⟩ := hright
  have hfault : ∀ fuel, fsProbeFs (oneTable 0xC0150000 (-EMEDIUMTYPE)) (registerAll [0xC0150000])
      ⟨fun _ => 0⟩ (fuel + 2) = .error .badDeref := fun fuel => rfl
  match fuel, hrun with
  | 0, hrun => cases hrun
  | 1, hrun => cases hrun
  | fuel + 2, hrun =>
    rw [hfault] at hrun
    cases hrun

end AvocadOS
