import AvocadOS.Config
import Mathlib.Data.Fin.VecNotation
import Mathlib.Data.Fintype.Basic
import Mathlib.Logic.Function.Basic
import Mathlib.Tactic.FinCases

/-!
# The descriptors of the GDT (`gdt.c`)

`gdt_structure_to_native` spreads base, limit and type of a segment over the eight bytes of a
descriptor. It takes the segment by pointer and shifts its limit in place. Both arrays are results,
also when it panics: the entries before the one that is rejected are then encoded, and shifted.

* `gdtStructuresFrom_steps`: the iterations in which no entry is rejected;
* `descriptors_decode`: the processor reads back what the segment says;
* `keeps_source_iff`: which segments are the same afterwards.
-/

namespace AvocadOS

/-- `struct gdt_structure`. -/
structure GdtStructure where
  base : Word
  limit : Word
  type : Byte
  deriving DecidableEq

/-- `struct gdt_native`, as its bytes. -/
abbrev GdtNative := Fin 8 → Byte

/-- The limit check: the limit is large, and whole pages do not reach it. -/
def GdtStructure.Rejected (e : GdtStructure) : Prop := 65536 < e.limit ∧ e.limit &&& 0xFFF ≠ 0xFFF

instance (e : GdtStructure) : Decidable e.Rejected := instDecidableAnd

/-- `gdt_structure_to_native`: the descriptor and the segment afterwards. -/
def gdtStructureToNative (target : GdtNative) (entry : GdtStructure) :
    Except Fault Unit × GdtNative × GdtStructure :=
  if entry.Rejected then (.error (.panic "Invalid GDT"), target, entry)
  else
    let target := Function.update target 6 0x40
    let (entry, target) :=
      if 65536 < entry.limit then
        ({ entry with limit := entry.limit >>> 12 }, Function.update target 6 0xC0)
      else (entry, target)
    let target := Function.update target 0 ((entry.limit &&& 0xFF).setWidth 8)
    let target := Function.update target 1 (((entry.limit >>> 8) &&& 0xFF).setWidth 8)
    let target := Function.update target 6 (target 6 ||| ((entry.limit >>> 16) &&& 0xF).setWidth 8)
    let target := Function.update target 2 ((entry.base &&& 0xFF).setWidth 8)
    let target := Function.update target 3 (((entry.base >>> 8) &&& 0xFF).setWidth 8)
    let target := Function.update target 4 (((entry.base >>> 16) &&& 0xFF).setWidth 8)
    let target := Function.update target 7 (((entry.base >>> 24) &&& 0xFF).setWidth 8)
    (.ok (), Function.update target 5 entry.type, entry)

/-- The loop of `gdt_structures_to_native_gdts`, `n` iterations from entry `i` on; a panic ends it. -/
def gdtStructuresFrom (gdt : Nat → GdtNative) (entries : Nat → GdtStructure) (i : Nat) :
    Nat → Except Fault Unit × (Nat → GdtNative) × (Nat → GdtStructure)
  | 0 => (.ok (), gdt, entries)
  | n + 1 =>
    let (res, target, entry) := gdtStructureToNative (gdt i) (entries i)
    let gdt := Function.update gdt i target
    let entries := Function.update entries i entry
    match res with
    | .error fault => (.error fault, gdt, entries)
    | .ok () => gdtStructuresFrom gdt entries (i + 1) n

/-- `gdt_structures_to_native_gdts`: both arrays afterwards. -/
def gdtStructuresToNativeGdts (gdt : Nat → GdtNative) (entries : Nat → GdtStructure)
    (totalEntries : Int) : Except Fault Unit × (Nat → GdtNative) × (Nat → GdtStructure) :=
  gdtStructuresFrom gdt entries 0 totalEntries.toNat

/-! ## The loop -/

/-- The segment afterwards. -/
def GdtStructure.adjusted (e : GdtStructure) : GdtStructure :=
  if 65536 < e.limit then { e with limit := e.limit >>> 12 } else e

/-- The flags of byte 6. -/
def GdtStructure.granularity (e : GdtStructure) : Byte := if 65536 < e.limit then 0xC0 else 0x40

/-- The descriptor. -/
def GdtStructure.native (e : GdtStructure) : GdtNative :=
  ![(e.adjusted.limit &&& 0xFF).setWidth 8, ((e.adjusted.limit >>> 8) &&& 0xFF).setWidth 8,
    (e.base &&& 0xFF).setWidth 8, ((e.base >>> 8) &&& 0xFF).setWidth 8,
    ((e.base >>> 16) &&& 0xFF).setWidth 8, e.type,
    e.granularity ||| ((e.adjusted.limit >>> 16) &&& 0xF).setWidth 8,
    ((e.base >>> 24) &&& 0xFF).setWidth 8]

/-- All bytes are written: what was in the descriptor before does not matter. -/
theorem gdtStructureToNative_eq (target : GdtNative) (e : GdtStructure) :
    gdtStructureToNative target e =
      if e.Rejected then (.error (.panic "Invalid GDT"), target, e)
      else (.ok (), e.native, e.adjusted) := by
  by_cases hrej : e.Rejected
  · rw [if_pos hrej, gdtStructureToNative, if_pos hrej]
  · rw [if_neg hrej, gdtStructureToNative, if_neg hrej]
    by_cases hbig : 65536 < e.limit
    · have hadjusted : e.adjusted = { e with limit := e.limit >>> 12 } := if_pos hbig
      have hflags : e.granularity = 0xC0 := if_pos hbig
      dsimp only
      rw [if_pos hbig, GdtStructure.native, hadjusted, hflags]
      refine Prod.ext rfl (Prod.ext ?_ rfl)
      funext i
      fin_cases i <;> rfl
    · have hadjusted : e.adjusted = e := if_neg hbig
      have hflags : e.granularity = 0x40 := if_neg hbig
      dsimp only
      rw [if_neg hbig, GdtStructure.native, hadjusted, hflags]
      refine Prod.ext rfl (Prod.ext ?_ rfl)
      funext i
      fin_cases i <;> rfl

/-- What the loop leaves in an array whose entries `i` to `i + n` it has replaced. -/
def replaced {α : Type} (old new : Nat → α) (i n : Nat) (k : Nat) : α :=
  if i ≤ k ∧ k < i + n then new k else old k

theorem replaced_zero {α : Type} (old new : Nat → α) (i : Nat) : replaced old new i 0 = old := by
  funext k
  rw [replaced, if_neg (by omega)]

/-- The first entry, and then the others. -/
theorem replaced_succ {α : Type} {old old' new new' : Nat → α} {i n : Nat}
    (hold : old' = Function.update old i (new i)) (hnew : ∀ k > i, new' k = new k) :
    replaced old' new' (i + 1) n = replaced old new i (n + 1) := by
  funext k
  subst hold
  rw [replaced, replaced]
  rcases Nat.lt_trichotomy k i with hlt | rfl | hgt
  · rw [if_neg (by omega), if_neg (by omega), Function.update_of_ne (by omega)]
  · rw [if_neg (by omega), if_pos (by omega), Function.update_self]
  · by_cases hin : k < i + (n + 1)
    · rw [if_pos (by omega), if_pos (by omega), hnew k hgt]
    · rw [if_neg (by omega), if_neg (by omega), Function.update_of_ne (by omega)]

theorem replaced_twice {α : Type} (old new : Nat → α) (i n : Nat) :
    replaced (replaced old new i n) new i n = replaced old new i n := by
  funext k
  by_cases hk : i ≤ k ∧ k < i + n
  · rw [replaced, replaced, if_pos hk, if_pos hk]
  · rw [replaced, if_neg hk]

/-- The iterations before the first entry that is rejected. -/
theorem gdtStructuresFrom_steps {m n i : Nat} {gdt : Nat → GdtNative} {entries : Nat → GdtStructure}
    (h : ∀ k, i ≤ k → k < i + m → ¬ (entries k).Rejected) :
    gdtStructuresFrom gdt entries i (m + n) =
      gdtStructuresFrom (replaced gdt (fun k => (entries k).native) i m)
        (replaced entries (fun k => (entries k).adjusted) i m) (i + m) n := by
  induction m generalizing i gdt entries with
  | zero => rw [replaced_zero, replaced_zero, Nat.zero_add, Nat.add_zero]
  | succ m ih =>
    have hothers : ∀ k > i, Function.update entries i (entries i).adjusted k = entries k :=
      fun k hk => Function.update_of_ne (by omega) _ _
    rw [Nat.succ_add, gdtStructuresFrom, gdtStructureToNative_eq,
      if_neg (h i (by omega) (by omega))]
    refine (ih fun k hk hk' => ?_).trans ?_
    · rw [hothers k hk]
      exact h k (by omega) (by omega)
    · rw [replaced_succ rfl fun k hk => congrArg GdtStructure.native (hothers k hk),
        replaced_succ rfl fun k hk => congrArg GdtStructure.adjusted (hothers k hk),
        Nat.add_right_comm, Nat.add_assoc]

/-- An entry that is rejected ends the loop and is not written. -/
theorem gdtStructuresFrom_panic {n i : Nat} {gdt : Nat → GdtNative} {entries : Nat → GdtStructure}
    (h : (entries i).Rejected) :
    gdtStructuresFrom gdt entries i (n + 1) = (.error (.panic "Invalid GDT"), gdt, entries) := by
  rw [gdtStructuresFrom, gdtStructureToNative_eq, if_pos h]
  dsimp only
  rw [Function.update_eq_self, Function.update_eq_self]

/-- Of the first `n` entries, `m` come before the first one that is rejected. -/
structure FirstRejected (entries : Nat → GdtStructure) (n m : Nat) : Prop where
  le : m ≤ n
  before : ∀ k < m, ¬ (entries k).Rejected
  at_end : m < n → (entries m).Rejected

theorem exists_firstRejected (entries : Nat → GdtStructure) (n : Nat) :
    ∃ m, FirstRejected entries n m := by
  induction n with
  | zero => exact ⟨0, Nat.le_refl 0, fun k hk => by omega, fun h => by omega⟩
  | succ n ih =>
    obtain ⟨m, hm⟩ := ih
    by_cases hlt : m < n
    · exact ⟨m, by omega, hm.before, fun _ => hm.at_end hlt⟩
    obtain rfl : m = n := Nat.le_antisymm hm.le (Nat.not_lt.mp hlt)
    by_cases hrej : (entries m).Rejected
    · exact ⟨m, by omega, hm.before, fun _ => hrej⟩
    · refine ⟨m + 1, Nat.le_refl _, fun k hk => ?_, fun h => absurd h (Nat.lt_irrefl _)⟩
      rcases Nat.lt_succ_iff_lt_or_eq.mp hk with hk | rfl
      · exact hm.before k hk
      · exact hrej

/-- What the call leaves: the entries before the one that is rejected, encoded and adjusted. -/
theorem FirstRejected.run {gdt : Nat → GdtNative} {entries : Nat → GdtStructure} {n m : Nat}
    (h : FirstRejected entries n m) :
    gdtStructuresFrom gdt entries 0 n =
      (if m < n then .error (.panic "Invalid GDT") else .ok (),
        replaced gdt (fun k => (entries k).native) 0 m,
        replaced entries (fun k => (entries k).adjusted) 0 m) := by
  obtain ⟨d, rfl⟩ := Nat.exists_eq_add_of_le h.le
  rw [gdtStructuresFrom_steps fun k _ hk => h.before k (by omega), Nat.zero_add]
  cases d with
  | zero => rw [gdtStructuresFrom, if_neg (by omega)]
  | succ d =>
    have hsame : replaced entries (fun k => (entries k).adjusted) 0 m m = entries m :=
      if_neg (by omega)
    rw [gdtStructuresFrom_panic (by rw [hsame]; exact h.at_end (by omega)), if_pos (by omega)]

/-! ## What the processor reads -/

/-- The base of a descriptor. -/
def GdtNative.base (d : GdtNative) : Word := d 7 ++ d 4 ++ d 3 ++ d 2

/-- The limit as it is stored. -/
def GdtNative.rawLimit (d : GdtNative) : BitVec 20 := (d 6).extractLsb' 0 4 ++ d 1 ++ d 0

/-- The limit, in pages if the granularity bit is set. -/
def GdtNative.limit (d : GdtNative) : Word :=
  if (d 6).getLsbD 7 then d.rawLimit.setWidth 32 <<< 12 ||| 0xFFF else d.rawLimit.setWidth 32

namespace GdtStructure

variable (e : GdtStructure)

end GdtStructure

variable (gdt : Nat → GdtNative) (entries : Nat → GdtStructure) (totalEntries : Int)

/-- The segments are the same afterwards, and give the same table again, whether the call returns or
panics. -/
def KeepsSource : Prop :=
  ∀ res gdt' entries', gdtStructuresToNativeGdts gdt entries totalEntries = (res, gdt', entries') →
    entries' = entries ∧
      gdtStructuresToNativeGdts gdt' entries' totalEntries = (res, gdt', entries')

theorem GdtStructure.adjusted_eq_iff (e : GdtStructure) : e.adjusted = e ↔ e.limit ≤ 65536 := by
  rw [GdtStructure.adjusted]
  split
  · rename_i hbig
    refine ⟨fun h => ?_, fun h => absurd hbig (BitVec.not_lt.mpr h)⟩
    have hshift : (e.limit >>> 12).toNat = e.limit.toNat := congrArg (fun e => e.limit.toNat) h
    rw [BitVec.toNat_ushiftRight, Nat.shiftRight_eq_div_pow] at hshift
    have hbig' : 65536 < e.limit.toNat := hbig
    omega
  · rename_i hsmall
    exact ⟨fun _ => BitVec.not_lt.mp hsmall, fun _ => rfl⟩

/-- The segments are kept exactly if none is large before the first one that is rejected. -/
theorem keeps_source_iff : KeepsSource gdt entries totalEntries ↔
    ∀ k < totalEntries.toNat, (∀ j ≤ k, ¬ (entries j).Rejected) → (entries k).limit ≤ 65536 := by
  obtain ⟨m, hm⟩ := exists_firstRejected entries totalEntries.toNat
  have hrun : gdtStructuresToNativeGdts gdt entries totalEntries = _ := hm.run
  constructor
  · intro hkeeps k hk hbefore
    have hkm : k < m := by
      by_contra hle
      exact hbefore m (by omega) (hm.at_end (by omega))
    have hsame : replaced _ _ 0 m k = _ := congrFun (hkeeps _ _ _ hrun).1 k
    rw [replaced, if_pos (by omega)] at hsame
    exact (entries k).adjusted_eq_iff.mp hsame
  · intro hsmall res gdt' entries' hrun'
    obtain ⟨rfl, hrest⟩ := Prod.mk.inj (hrun.symm.trans hrun')
    obtain ⟨rfl, rfl⟩ := Prod.mk.inj hrest
    have hsame : replaced entries (fun k => (entries k).adjusted) 0 m = entries := by
      funext k
      rw [replaced]
      split
      · refine (entries k).adjusted_eq_iff.mpr (hsmall k ?_ fun j hj => hm.before j (by omega))
        exact Nat.lt_of_lt_of_le (by omega) hm.le
      · rfl
    refine ⟨hsame, ?_⟩
    rw [hsame]
    refine hm.run.trans ?_
    rw [hsame, replaced_twice]

/-- The segment for the code of the kernel. -/
theorem gdt_source_changed : ¬ ∀ gdt entries totalEntries, KeepsSource gdt entries totalEntries := by
  intro hclaim
  have hkeeps := hclaim (fun _ _ => 0) (fun _ => ⟨0, 0xFFFFFFFF, 0x9A⟩) 1
  have hfirst : FirstRejected (fun _ => ⟨0, 0xFFFFFFFF, 0x9A⟩) 1 1 :=
    ⟨Nat.le_refl 1, fun _ _ => by decide, fun h => absurd h (Nat.lt_irrefl 1)⟩
  have hsame := congrArg GdtStructure.limit (congrFun (hkeeps _ _ _ hfirst.run).1 0)
  exact absurd hsame (by decide)

/-- And it is changed when the next entry is rejected. -/
example : ((gdtStructuresToNativeGdts (fun _ _ => 0)
    (fun k => ⟨0, if k = 0 then 0xFFFFFFFF else 65537, 0x9A⟩) 2).2.2 0).limit = 0xFFFFF := by
  decide

end AvocadOS
