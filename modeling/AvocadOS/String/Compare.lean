import AvocadOS.String
import Mathlib.Data.List.GetD
import Mathlib.Tactic.ByContra

/-!
# Comparing strings

`strcasecmp` and `strncasecmp` fold case with `to_upper`, and both return something else than the
difference that ended the loop: the first one what it compared last, the second one the characters
as they were. `strncmp` is followed read by read.

* `strcasecmp_eq_zero_iff`, `strncasecmp_eq_zero_iff`: when they return 0;
* `casecmp_iff`: when that is right;
* `strncmpRun_spec`: what `strncmp` reads and what it returns.
-/

namespace AvocadOS

theorem toInt_sub_eq_zero {a b : Byte} : a.toInt - b.toInt = 0 ↔ a = b := by
  rw [Int.sub_eq_zero, BitVec.toInt_inj]

section

variable {s₁ s₂ : List Byte} {a b c : Byte} {i n : Nat}

/-- A C string with case folded. -/
def folded (s : List Byte) : List Byte := (cString s).map upperChar

theorem cString_cons (hc : c ≠ 0) : cString (c :: s₁) = c :: cString s₁ :=
  List.takeWhile_cons_of_pos (by simpa using hc)

theorem cString_zero : cString (0 :: s₁) = [] := List.takeWhile_cons_of_neg (by simp)

theorem folded_cons (hc : c ≠ 0) : folded (c :: s₁) = upperChar c :: folded s₁ := by
  rw [folded, cString_cons hc, List.map_cons, folded]

theorem folded_zero : folded (0 :: s₁) = [] := by
  rw [folded, cString_zero, List.map_nil]

/-- A string is empty, or has a first character. -/
theorem string_cases (s : List Byte) :
    (charAt s 0 = 0 ∧ cString s = []) ∨ ∃ c t, c ≠ 0 ∧ s = c :: t := by
  cases s with
  | nil => exact .inl ⟨rfl, rfl⟩
  | cons c t =>
    by_cases hc : c = 0
    · subst hc
      exact .inl ⟨rfl, cString_zero⟩
    · exact .inr ⟨c, t, hc, rfl⟩

/-! ## `strcasecmp` -/

/-- If the last characters were equal, the loop returns 0 wherever a string ends. -/
theorem strcasecmpLoop_eq_zero_iff (s₁ s₂ : List Byte) (a : Byte) :
    strcasecmpLoop s₁ s₂ a a = 0 ↔ folded s₁ <+: folded s₂ ∨ folded s₂ <+: folded s₁ := by
  induction s₁ generalizing s₂ a with
  | nil =>
    rw [strcasecmpLoop, toInt_sub_eq_zero]
    exact iff_of_true rfl (.inl List.nil_prefix)
  | cons c s₁ ih =>
    rw [strcasecmpLoop]
    by_cases hc : c = 0
    · subst hc
      rw [if_neg (by simp), folded_zero, toInt_sub_eq_zero]
      exact iff_of_true rfl (.inl List.nil_prefix)
    rcases string_cases s₂ with ⟨h₀, hnil⟩ | ⟨d, t, hd, rfl⟩
    · rw [if_neg (by simp [h₀]), toInt_sub_eq_zero, folded, folded, hnil, List.map_nil]
      exact iff_of_true rfl (.inr List.nil_prefix)
    · have hchar : charAt (d :: t) 0 = d := rfl
      rw [hchar, if_pos ⟨hc, hd⟩, folded_cons hc, folded_cons hd, List.cons_prefix_cons,
        List.cons_prefix_cons, List.tail_cons]
      by_cases hup : upperChar c = upperChar d
      · rw [if_neg (by simp [hup]), hup, ih]
        simp
      · rw [if_pos hup, toInt_sub_eq_zero]
        simp [hup, Ne.symm hup]

theorem strcasecmp_eq_zero_iff (s₁ s₂ : List Byte) :
    strcasecmp s₁ s₂ = 0 ↔ folded s₁ <+: folded s₂ ∨ folded s₂ <+: folded s₁ :=
  strcasecmpLoop_eq_zero_iff s₁ s₂ 0

/-! ## `strncasecmp` -/

/-- Both strings have `n` characters, the same but for case, and the last of them differ in case. -/
def LastInOtherCase (s₁ s₂ : List Byte) (n : Nat) : Prop :=
  n ≤ (cString s₁).length ∧ (folded s₁).take n = (folded s₂).take n ∧
    charAt s₁ (n - 1) ≠ charAt s₂ (n - 1)

instance (s₁ s₂ : List Byte) (n : Nat) : Decidable (LastInOtherCase s₁ s₂ n) :=
  inferInstanceAs (Decidable (_ ∧ _))

theorem folded_empty (h : cString s₁ = []) : folded s₁ = [] := by
  rw [folded, h, List.map_nil]

/-- Where the first string ends. -/
theorem strncasecmpLoop_empty (h₀ : charAt s₁ 0 = 0) (hnil : cString s₁ = []) (s₂ : List Byte)
    (i n m : Nat) : strncasecmpLoop n s₁ s₂ i = 0 ↔
      (folded s₁).take (m + 1) = (folded s₂).take (m + 1) ∧ ¬ LastInOtherCase s₁ s₂ (m + 1) := by
  have hloop : strncasecmpLoop n s₁ s₂ i = (0 : Byte).toInt - (charAt s₂ 0).toInt := by
    cases s₁ with
    | nil => rfl
    | cons c s₁ =>
      obtain rfl : c = 0 := h₀
      rw [strncasecmpLoop, if_neg (by simp)]
  have hlast : ¬ LastInOtherCase s₁ s₂ (m + 1) := by
    rintro ⟨hlen, -⟩
    rw [hnil] at hlen
    exact absurd hlen (Nat.not_succ_le_zero m)
  rw [hloop, toInt_sub_eq_zero, folded_empty hnil, List.take_nil, and_iff_left hlast]
  rcases string_cases s₂ with ⟨h₀', hnil'⟩ | ⟨d, t, hd, rfl⟩
  · rw [h₀', folded_empty hnil', List.take_nil]
    exact iff_of_true rfl rfl
  · rw [folded_cons hd, List.take_succ_cons]
    exact iff_of_false (Ne.symm hd) (List.cons_ne_nil _ _).symm

/-- With `n + 1` characters left. -/
theorem strncasecmpLoop_eq_zero_iff (s₁ s₂ : List Byte) (i n : Nat) :
    strncasecmpLoop (i + (n + 1)) s₁ s₂ i = 0 ↔
      (folded s₁).take (n + 1) = (folded s₂).take (n + 1) ∧ ¬ LastInOtherCase s₁ s₂ (n + 1) := by
  induction s₁ generalizing s₂ i n with
  | nil => exact strncasecmpLoop_empty rfl rfl s₂ i _ n
  | cons c s₁ ih =>
    by_cases hc : c = 0
    · subst hc
      exact strncasecmpLoop_empty rfl cString_zero s₂ i _ n
    rw [strncasecmpLoop, folded_cons hc, List.take_succ_cons]
    rcases string_cases s₂ with ⟨h₀, hnil⟩ | ⟨d, t, hd, rfl⟩
    · rw [if_neg (fun h => h.2.1 h₀), h₀, toInt_sub_eq_zero, folded_empty hnil, List.take_nil]
      exact iff_of_false hc fun h => List.cons_ne_nil _ _ h.1
    have hchar : charAt (d :: t) 0 = d := rfl
    have hlast : LastInOtherCase (c :: s₁) (d :: t) (n + 1) ↔ n ≤ (cString s₁).length ∧
        (upperChar c = upperChar d ∧ (folded s₁).take n = (folded t).take n) ∧
        charAt (c :: s₁) n ≠ charAt (d :: t) n := by
      rw [LastInOtherCase, cString_cons hc, folded_cons hc, folded_cons hd, List.take_succ_cons,
        List.take_succ_cons, List.cons_eq_cons, List.length_cons, Nat.add_le_add_iff_right,
        Nat.add_sub_cancel]
    rw [hchar, folded_cons hd, List.take_succ_cons, List.cons_eq_cons, hlast, List.tail_cons]
    by_cases hup : upperChar c = upperChar d
    · have hsame : (upperChar c = upperChar d ∧ (folded s₁).take n = (folded t).take n) ↔
          (folded s₁).take n = (folded t).take n := and_iff_right hup
      rw [hsame]
      cases n with
      | zero =>
        -- the count is reached
        rw [if_neg (by simp), toInt_sub_eq_zero]
        simp [charAt]
      | succ n =>
        rw [if_pos ⟨hc, hd, hup, by omega⟩, show i + (n + 1 + 1) = i + 1 + (n + 1) by omega, ih,
          LastInOtherCase]
        rfl
    · rw [if_neg fun h => hup h.2.2.1, toInt_sub_eq_zero]
      exact iff_of_false (fun h => hup (by rw [h])) fun h => hup h.1.1

theorem strncasecmp_eq_zero_iff (s₁ s₂ : List Byte) (hn : 1 ≤ n) :
    strncasecmp s₁ s₂ n = 0 ↔
      (folded s₁).take n = (folded s₂).take n ∧ ¬ LastInOtherCase s₁ s₂ n := by
  obtain ⟨m, rfl⟩ := Nat.exists_eq_add_of_le' hn
  have h := strncasecmpLoop_eq_zero_iff s₁ s₂ 0 m
  rwa [Nat.zero_add] at h

/-! ## Comparing what is folded -/

/-- Both functions compare the strings with case folded. -/
structure CaseFolds (s₁ s₂ : List Byte) (n : Nat) : Prop where
  whole : strcasecmp s₁ s₂ = 0 ↔ folded s₁ = folded s₂
  bounded : strncasecmp s₁ s₂ n = 0 ↔ (folded s₁).take n = (folded s₂).take n

/-- The beginning of a string, and not all of it. -/
def ProperPrefix (s t : List Byte) : Prop := s <+: t ∧ s ≠ t

/-- They do so exactly if neither string ends inside the other one, and if the count does not end at
characters that differ in case. -/
theorem casecmp_iff (s₁ s₂ : List Byte) (n : Nat) (hn : 1 ≤ n) : CaseFolds s₁ s₂ n ↔
    (¬ ProperPrefix (folded s₁) (folded s₂) ∧ ¬ ProperPrefix (folded s₂) (folded s₁)) ∧
      ¬ LastInOtherCase s₁ s₂ n := by
  have hwhole : (strcasecmp s₁ s₂ = 0 ↔ folded s₁ = folded s₂) ↔
      ¬ ProperPrefix (folded s₁) (folded s₂) ∧ ¬ ProperPrefix (folded s₂) (folded s₁) := by
    rw [strcasecmp_eq_zero_iff]
    constructor
    · intro h
      exact ⟨fun hpre => hpre.2 (h.mp (.inl hpre.1)), fun hpre => hpre.2 (h.mp (.inr hpre.1)).symm⟩
    · rintro ⟨h₁, h₂⟩
      refine ⟨fun h => by_contra fun hne => ?_, fun h => .inl (h ▸ List.prefix_rfl)⟩
      exact h.elim (fun h => h₁ ⟨h, hne⟩) fun h => h₂ ⟨h, Ne.symm hne⟩
  have hbounded : (strncasecmp s₁ s₂ n = 0 ↔ (folded s₁).take n = (folded s₂).take n) ↔
      ¬ LastInOtherCase s₁ s₂ n := by
    rw [strncasecmp_eq_zero_iff s₁ s₂ hn, and_iff_left_iff_imp]
    exact ⟨fun h hlast => h hlast.2.1 hlast, fun h _ => h⟩
  rw [← hwhole, ← hbounded]
  exact ⟨fun h => ⟨h.whole, h.bounded⟩, fun h => ⟨h.1, h.2⟩⟩

theorem casecmp_iff_differ : CaseFolds (ascii "abc") (ascii "ABD") 3 := by
  refine (casecmp_iff _ _ 3 (by decide)).mpr ⟨⟨?_, ?_⟩, by decide⟩ <;>
    · rintro ⟨hpre, -⟩
      revert hpre
      decide

/-- `"a"` ends inside `"ab"`, and `"a"` and `"A"` end in other cases. -/
theorem casecmp_not_folded : ¬ ∀ s₁ s₂ n, 1 ≤ n → CaseFolds s₁ s₂ n := by
  intro h
  have hpre := (h (ascii "a") (ascii "ab") 1 (by decide)).whole
  exact absurd (hpre.mp (by decide)) (by decide)

end

/-! ## `strncmp`, read by read -/

/-- Which of the two arguments. -/
inductive Argument where
  | s₁
  | s₂
  deriving DecidableEq

/-- A byte that is read. -/
structure CharRead where
  argument : Argument
  index : Nat
  deriving DecidableEq

/-- A function with the bytes that it reads, in order. -/
abbrev ReadM := StateM (List CharRead)

def readChar (argument : Argument) (s : Nat → Byte) (i : Nat) : ReadM Byte :=
  fun reads => (s i, reads ++ [⟨argument, i⟩])

section

variable (s₁ s₂ : Nat → Byte)

/-- `*s1 - *s2`. -/
def charDifference (i : Nat) : ReadM Int := do
  let c₁ ← readChar .s₁ s₁ i
  let c₂ ← readChar .s₂ s₂ i
  pure (c₁.toInt - c₂.toInt)

/-- The loop of `strncmp` at index `i`, with `left + 1` characters before the count is reached. -/
def strncmpLoop (left i : Nat) : ReadM Int := do
  if (← readChar .s₁ s₁ i) = 0 then charDifference s₁ s₂ i
  else if (← readChar .s₂ s₂ i) = 0 then charDifference s₁ s₂ i
  else
    let c₁ ← readChar .s₁ s₁ i
    let c₂ ← readChar .s₂ s₂ i
    if c₁ ≠ c₂ then charDifference s₁ s₂ i
    else match left with
      | 0 => charDifference s₁ s₂ i
      | left + 1 => strncmpLoop left (i + 1)

/-- `strncmp` of two byte sequences, for `n ≥ 1`, and what it reads. -/
def strncmpRun (n : Nat) : Int × List CharRead := strncmpLoop s₁ s₂ (n - 1) 0 []

/-- The loop goes on behind index `i`, unless the count is reached. -/
def GoOn (i : Nat) : Prop := s₁ i ≠ 0 ∧ s₂ i ≠ 0 ∧ s₁ i = s₂ i

end

section

variable {s₁ s₂ t₁ t₂ : Nat → Byte} {n : Nat}

theorem charDifference_eq (i : Nat) (reads : List CharRead) :
    (charDifference s₁ s₂ i reads).1 = (s₁ i).toInt - (s₂ i).toInt ∧
      ∀ r ∈ (charDifference s₁ s₂ i reads).2, r ∈ reads ∨ r.index = i := by
  refine ⟨rfl, fun r hr => ?_⟩
  have hr' : r ∈ reads ++ [⟨.s₁, i⟩] ++ [⟨.s₂, i⟩] := hr
  simp only [List.mem_append, List.mem_singleton] at hr'
  rcases hr' with (h | rfl) | rfl
  · exact .inl h
  · exact .inr rfl
  · exact .inr rfl

theorem bind_readChar {α : Type} (argument : Argument) (s : Nat → Byte) (i : Nat)
    (k : Byte → ReadM α) (reads : List CharRead) :
    (readChar argument s i >>= k) reads = k (s i) (reads ++ [⟨argument, i⟩]) := rfl

/-- One round reads at `i` only, and ends there or goes on. -/
theorem strncmpLoop_round (left i : Nat) (reads : List CharRead) :
    ∃ reads', (∀ r ∈ reads', r ∈ reads ∨ r.index = i) ∧
      ((left = 0 ∨ ¬ GoOn s₁ s₂ i) ∧
          strncmpLoop s₁ s₂ left i reads = charDifference s₁ s₂ i reads' ∨
        GoOn s₁ s₂ i ∧ ∃ left', left = left' + 1 ∧
          strncmpLoop s₁ s₂ left i reads = strncmpLoop s₁ s₂ left' (i + 1) reads') := by
  have hmem : ∀ (reads : List CharRead) (a : Argument),
      ∀ r ∈ reads ++ [⟨a, i⟩], r ∈ reads ∨ r.index = i := by
    intro reads a r hr
    rcases List.mem_append.mp hr with h | h
    · exact .inl h
    · rw [List.mem_singleton.mp h]
      exact .inr rfl
  rw [strncmpLoop.eq_def, bind_readChar]
  by_cases h₁ : s₁ i = 0
  · rw [if_pos h₁]
    exact ⟨_, hmem _ _, .inl ⟨.inr fun h => h.1 h₁, rfl⟩⟩
  rw [if_neg h₁, bind_readChar]
  have hmem₂ : ∀ r ∈ reads ++ [⟨.s₁, i⟩] ++ [⟨.s₂, i⟩], r ∈ reads ∨ r.index = i :=
    fun r hr => (hmem _ _ r hr).elim (hmem _ _ r) .inr
  by_cases h₂ : s₂ i = 0
  · rw [if_pos h₂]
    exact ⟨_, hmem₂, .inl ⟨.inr fun h => h.2.1 h₂, rfl⟩⟩
  rw [if_neg h₂, bind_readChar, bind_readChar]
  have hmem₄ : ∀ r ∈ reads ++ [⟨.s₁, i⟩] ++ [⟨.s₂, i⟩] ++ [⟨.s₁, i⟩] ++ [⟨.s₂, i⟩],
      r ∈ reads ∨ r.index = i :=
    fun r hr => (hmem _ _ r hr).elim (fun h => (hmem _ _ r h).elim (hmem₂ r) .inr) .inr
  by_cases hne : s₁ i = s₂ i
  · rw [if_neg (by simpa using hne)]
    cases left with
    | zero => exact ⟨_, hmem₄, .inl ⟨.inl rfl, rfl⟩⟩
    | succ left => exact ⟨_, hmem₄, .inr ⟨⟨h₁, h₂, hne⟩, left, rfl, rfl⟩⟩
  · rw [if_pos hne]
    exact ⟨_, hmem₄, .inl ⟨.inr fun h => hne h.2.2, rfl⟩⟩

/-- Where the loop ends, what it returns there, and what it has read. -/
theorem strncmpLoop_ends (left i : Nat) (reads : List CharRead) :
    ∃ k, i ≤ k ∧ k ≤ i + left ∧ (∀ j, i ≤ j → j < k → GoOn s₁ s₂ j) ∧
      (k = i + left ∨ ¬ GoOn s₁ s₂ k) ∧
      (strncmpLoop s₁ s₂ left i reads).1 = (s₁ k).toInt - (s₂ k).toInt ∧
      ∀ r ∈ (strncmpLoop s₁ s₂ left i reads).2, r ∈ reads ∨ r.index ≤ k := by
  induction left using Nat.strongRecOn generalizing i reads with
  | ind left ih =>
    obtain ⟨reads', hreads, ⟨hstop, hrun⟩ | ⟨hgo, left', rfl, hrun⟩⟩ :=
      @strncmpLoop_round s₁ s₂ left i reads
    · obtain ⟨hval, hmem⟩ := @charDifference_eq s₁ s₂ i reads'
      rw [hrun]
      refine ⟨i, Nat.le_refl i, by omega, fun j h₁ h₂ => by omega, ?_, hval, fun r hr => ?_⟩
      · exact hstop.imp_left fun h => by omega
      · rcases hmem r hr with h | h
        · exact (hreads r h).imp_right Nat.le_of_eq
        · exact .inr (Nat.le_of_eq h)
    · obtain ⟨k, hik, hkl, hbefore, hend, hval, hmem⟩ := ih left' (by omega) (i + 1) reads'
      rw [hrun]
      refine ⟨k, by omega, by omega, fun j h₁ h₂ => ?_, ?_, hval, fun r hr => ?_⟩
      · by_cases hj : j = i
        · exact hj ▸ hgo
        · exact hbefore j (by omega) h₂
      · exact hend.imp_left fun h => by omega
      · rcases hmem r hr with h | h
        · exact (hreads r h).imp_right fun h => by omega
        · exact .inr h

/-- `strncmp` ends at an index below `n`. -/
theorem strncmpRun_ends (s₁ s₂ : Nat → Byte) (hn : 1 ≤ n) :
    ∃ k < n, (∀ j < k, GoOn s₁ s₂ j) ∧ (k + 1 = n ∨ ¬ GoOn s₁ s₂ k) ∧
      (strncmpRun s₁ s₂ n).1 = (s₁ k).toInt - (s₂ k).toInt ∧
      ∀ r ∈ (strncmpRun s₁ s₂ n).2, r.index ≤ k := by
  obtain ⟨k, -, hk, hbefore, hend, hval, hreads⟩ := @strncmpLoop_ends s₁ s₂ (n - 1) 0 []
  refine ⟨k, by omega, fun j hj => hbefore j (Nat.zero_le j) hj, hend.imp_left fun h => by omega,
    hval, fun r hr => (hreads r hr).resolve_left List.not_mem_nil⟩

/-! ## What `strncmp` is for -/

/-- The sequences agree on `n` bytes, or up to a common NUL before that. -/
def Agree (s₁ s₂ : Nat → Byte) (n : Nat) : Prop :=
  (∀ i < n, s₁ i = s₂ i) ∨ ∃ k < n, (∀ i ≤ k, s₁ i = s₂ i) ∧ s₁ k = 0

/-- What `strncmp` reads and returns. -/
structure BoundedCompare (s₁ s₂ : Nat → Byte) (n : Nat) : Prop where
  /-- Nothing from index `n` on, and nothing behind a NUL or a difference. -/
  reads : ∀ r ∈ (strncmpRun s₁ s₂ n).2, r.index < n ∧ ∀ i < r.index, GoOn s₁ s₂ i
  zero : (strncmpRun s₁ s₂ n).1 = 0 ↔ Agree s₁ s₂ n
  difference : ¬ Agree s₁ s₂ n → ∃ k < n, (∀ i < k, s₁ i = s₂ i) ∧ s₁ k ≠ s₂ k ∧
    (strncmpRun s₁ s₂ n).1 = (s₁ k).toInt - (s₂ k).toInt

theorem strncmpRun_spec (s₁ s₂ : Nat → Byte) (hn : 1 ≤ n) : BoundedCompare s₁ s₂ n := by
  obtain ⟨k, hk, hbefore, hend, hval, hreads⟩ := strncmpRun_ends s₁ s₂ hn
  have hagree : s₁ k = s₂ k ↔ Agree s₁ s₂ n := by
    constructor
    · intro heq
      have hle : ∀ i ≤ k, s₁ i = s₂ i := by
        intro i hi
        rcases Nat.lt_or_eq_of_le hi with h | rfl
        · exact (hbefore i h).2.2
        · exact heq
      rcases hend with hlast | hstop
      · exact .inl fun i hi => hle i (by omega)
      · -- the same byte, and the loop does not go on: a NUL
        refine .inr ⟨k, hk, hle, by_contra fun h₁ => hstop ⟨h₁, ?_, heq⟩⟩
        rwa [← heq]
    · rintro (hall | ⟨m, -, hle, hnul⟩)
      · exact hall k hk
      · refine hle k (Nat.le_of_not_lt fun hmk => ?_)
        exact (hbefore m hmk).1 hnul
  refine ⟨fun r hr => ?_, ?_, fun hno => ⟨k, hk, fun i hi => (hbefore i hi).2.2, ?_, hval⟩⟩
  · have := hreads r hr
    exact ⟨by omega, fun i hi => hbefore i (by omega)⟩
  · rw [hval, toInt_sub_eq_zero, hagree]
  · rwa [Ne, hagree]

/-- Bytes from index `n` on do not matter. -/
theorem strncmpRun_congr (hn : 1 ≤ n) (h₁ : ∀ i < n, s₁ i = t₁ i) (h₂ : ∀ i < n, s₂ i = t₂ i) :
    (strncmpRun s₁ s₂ n).1 = (strncmpRun t₁ t₂ n).1 := by
  obtain ⟨k, hk, hbefore, hend, hval, -⟩ := strncmpRun_ends s₁ s₂ hn
  obtain ⟨m, hm, hbefore', hend', hval', -⟩ := strncmpRun_ends t₁ t₂ hn
  have hgo : ∀ i < n, GoOn s₁ s₂ i ↔ GoOn t₁ t₂ i := by
    intro i hi
    rw [GoOn, GoOn, h₁ i hi, h₂ i hi]
  obtain rfl : k = m := by
    rcases Nat.lt_trichotomy k m with h | h | h
    · exact absurd ((hgo k hk).mpr (hbefore' k h)) (hend.resolve_left (by omega))
    · exact h
    · exact absurd ((hgo m hm).mp (hbefore m h)) (hend'.resolve_left (by omega))
  rw [hval, hval', h₁ k hk, h₂ k hk]

theorem charAt_drop (l : List Byte) (i : Nat) : charAt (l.drop i) 0 = charAt l i := by
  rw [charAt, charAt, List.getD_eq_getElem?_getD, List.getD_eq_getElem?_getD, List.getElem?_drop,
    Nat.add_zero]

/-- Of lists, the loop returns what `strncmp` does. -/
theorem strncmpLoop_list (l₁ l₂ : List Byte) (left i : Nat) (reads : List CharRead) :
    (strncmpLoop (charAt l₁) (charAt l₂) left i reads).1 =
      strncmp (l₁.drop i) (l₂.drop i) (left + 1) := by
  induction left using Nat.strongRecOn generalizing i reads with
  | ind left ih =>
    rw [strncmp, charAt_drop, charAt_drop]
    obtain ⟨reads', -, ⟨hstop, hrun⟩ | ⟨hgo, left', rfl, hrun⟩⟩ :=
      @strncmpLoop_round (charAt l₁) (charAt l₂) left i reads
    · rw [hrun, if_neg fun h => hstop.elim h.2.2.2 fun hno => hno ⟨h.1, h.2.1, h.2.2.1⟩]
      rfl
    · rw [hrun, if_pos ⟨hgo.1, hgo.2.1, hgo.2.2, Nat.succ_ne_zero left'⟩, List.tail_drop,
        List.tail_drop]
      exact ih left' (by omega) (i + 1) reads'

theorem strncmpRun_list (l₁ l₂ : List Byte) (hn : 1 ≤ n) :
    (strncmpRun (charAt l₁) (charAt l₂) n).1 = strncmp l₁ l₂ n := by
  obtain ⟨m, rfl⟩ := Nat.exists_eq_add_of_le' hn
  exact strncmpLoop_list l₁ l₂ m 0 []

/-- Arrays of `n` bytes without terminator, whatever lies behind them. -/
theorem strncmpRun_arrays {a b : List Byte} (hn : 1 ≤ n) (ha : a.length = n) (hb : b.length = n)
    (rest₁ rest₂ : List Byte) :
    (strncmpRun (charAt (a ++ rest₁)) (charAt (b ++ rest₂)) n).1 = strncmp a b n := by
  have hin : ∀ (l rest : List Byte), l.length = n → ∀ i < n, charAt (l ++ rest) i = charAt l i := by
    intro l rest hl i hi
    rw [charAt, charAt, List.getD_append _ _ _ _ (by omega)]
  rw [strncmpRun_congr hn (hin a rest₁ ha) (hin b rest₂ hb), strncmpRun_list a b hn]

end

end AvocadOS
