import AvocadOS.Config
import Mathlib.Data.List.Basic
import Mathlib.Data.List.TakeWhile

/-!
# `string.c`

The memory and string functions that the modelled code calls. A C string is the list of the bytes
from its pointer on; a read past the end of the list is a read of a NUL.
-/

namespace AvocadOS

/-- The byte `c` at address `a`. -/
def storeByte (m : Memory) (a : Word) (c : Byte) : Memory := Function.update m a c

/-- The dword `v` at address `a`, least significant byte first. -/
def storeDword (m : Memory) (a v : Word) : Memory :=
  storeByte (storeByte (storeByte (storeByte m a (v.extractLsb' 0 8))
    (a + 1) (v.extractLsb' 8 8)) (a + 2) (v.extractLsb' 16 8)) (a + 3) (v.extractLsb' 24 8)

/-- `memset`: a dword at a time, then the remaining bytes. `byte` is a signed `char`, so the
shifts work on its sign extension. -/
def memset (m : Memory) (s c : Word) (n : Nat) : Memory :=
  let dwords := n / 4
  let reminingBytes := n % 4
  let byte : Byte := c.setWidth 8
  let wide : Word := byte.signExtend 32
  let dwordValue := wide <<< 24 ||| wide <<< 16 ||| wide <<< 8 ||| wide
  let m := (List.range dwords).foldl
    (fun m dword => storeDword m (s + BitVec.ofNat 32 (4 * dword)) dwordValue) m
  (List.range reminingBytes).foldl
    (fun m i => storeByte m (s + BitVec.ofNat 32 (dwords * 4 + i)) byte) m

/-- The dword at `source + k`, least significant byte first. -/
def dwordAt (source : Nat → Byte) (k : Nat) : Word :=
  source (k + 3) ++ source (k + 2) ++ source (k + 1) ++ source k

/-- `memcpy` from an array that is not in the memory written to: dwords, then the remaining
bytes. -/
def memcpy (m : Memory) (dest : Word) (source : Nat → Byte) (n : Nat) : Memory :=
  let dwords := n / 4
  let reminingBytes := n % 4
  let m := (List.range dwords).foldl
    (fun m dword => storeDword m (dest + BitVec.ofNat 32 (4 * dword)) (dwordAt source (4 * dword))) m
  (List.range reminingBytes).foldl
    (fun m i => storeByte m (dest + BitVec.ofNat 32 (dwords * 4 + i)) (source (dwords * 4 + i))) m

/-- The dword at address `a`. -/
def loadDword (m : Memory) (a : Word) : Word := m (a + 3) ++ m (a + 2) ++ m (a + 1) ++ m a

/-- `memcpy` with both ranges in one memory: what is read may have been written before. -/
def memcpyWithin (m : Memory) (dest source : Word) (n : Nat) : Memory :=
  let dwords := n / 4
  let reminingBytes := n % 4
  let m := (List.range dwords).foldl
    (fun m dword => storeDword m (dest + BitVec.ofNat 32 (4 * dword))
      (loadDword m (source + BitVec.ofNat 32 (4 * dword)))) m
  (List.range reminingBytes).foldl
    (fun m i => storeByte m (dest + BitVec.ofNat 32 (dwords * 4 + i))
      (m (source + BitVec.ofNat 32 (dwords * 4 + i)))) m

/-- The bytes of a string literal of the source. -/
def ascii (s : String) : List Byte := s.toList.map fun c => BitVec.ofNat 8 c.toNat

/-- The byte at `str[i]`. -/
def charAt (str : List Byte) (i : Nat) : Byte := str.getD i 0

/-- The characters of a C string. -/
def cString (path : List Byte) : List Byte := path.takeWhile (· ≠ 0)

/-- `strlen`. -/
def strlen : List Byte → Nat
  | [] => 0
  | c :: str => if c = 0 then 0 else strlen str + 1

/-- `strnlen`. -/
def strnlen : List Byte → Nat → Nat
  | _, 0 => 0
  | [], _ + 1 => 0
  | c :: str, maxLen + 1 => if c = 0 then 0 else strnlen str maxLen + 1

/-- `memchr`: the index of the first `c` among `n` bytes. -/
def memchr (s : List Byte) (c : Byte) (n : Nat) : Option Nat := (s.take n).findIdx? (· == c)

/-- The `n` bytes that `strncpy` writes. -/
def strncpy : List Byte → Nat → List Byte
  | _, 0 => []
  | [], n + 1 => List.replicate (n + 1) 0
  | c :: src, n + 1 => if c = 0 then List.replicate (n + 1) 0 else c :: strncpy src n

/-- `strncmp` for `n ≥ 1`: `n` is what is left to compare. A `char` is signed. -/
def strncmp : List Byte → List Byte → Nat → Int
  | s₁, s₂, 0 => (charAt s₁ 0).toInt - (charAt s₂ 0).toInt
  | s₁, s₂, n + 1 =>
    if charAt s₁ 0 ≠ 0 ∧ charAt s₂ 0 ≠ 0 ∧ charAt s₁ 0 = charAt s₂ 0 ∧ n ≠ 0 then
      strncmp s₁.tail s₂.tail n
    else (charAt s₁ 0).toInt - (charAt s₂ 0).toInt

/-- `to_upper`. -/
def toUpper (c : Byte) : Int := if 97 ≤ c.toInt ∧ c.toInt ≤ 122 then c.toInt - (97 - 65) else c.toInt

/-- What `to_upper` leaves in a `char`. -/
def upperChar (c : Byte) : Byte := BitVec.ofInt 8 (toUpper c)

/-- The loop of `strcasecmp`; the `char`s keep what they had when it ends. -/
def strcasecmpLoop : List Byte → List Byte → Byte → Byte → Int
  | [], _, charS₁, charS₂ => charS₁.toInt - charS₂.toInt
  | c :: s₁, s₂, charS₁, charS₂ =>
    if c ≠ 0 ∧ charAt s₂ 0 ≠ 0 then
      if upperChar c ≠ upperChar (charAt s₂ 0) then
        (upperChar c).toInt - (upperChar (charAt s₂ 0)).toInt
      else strcasecmpLoop s₁ s₂.tail (upperChar c) (upperChar (charAt s₂ 0))
    else charS₁.toInt - charS₂.toInt

def strcasecmp (s₁ s₂ : List Byte) : Int := strcasecmpLoop s₁ s₂ 0 0

/-- The loop of `strncasecmp`, with its counter `i`. -/
def strncasecmpLoop (n : Nat) : List Byte → List Byte → Nat → Int
  | [], s₂, _ => (0 : Byte).toInt - (charAt s₂ 0).toInt
  | c :: s₁, s₂, i =>
    if c ≠ 0 ∧ charAt s₂ 0 ≠ 0 ∧ upperChar c = upperChar (charAt s₂ 0) ∧ i + 1 ≠ n then
      strncasecmpLoop n s₁ s₂.tail (i + 1)
    else c.toInt - (charAt s₂ 0).toInt

def strncasecmp (s₁ s₂ : List Byte) (n : Nat) : Int := strncasecmpLoop n s₁ s₂ 0

/-- `strncmp` of a string of `n` characters, none of them NUL, compares `n` bytes. -/
theorem strncmp_eq_zero {n : Nat} {s₁ s₂ : List Byte} (h₁ : s₁.length = n + 1)
    (h₂ : s₂.length = n + 1) (hnul : ∀ c ∈ s₁, c ≠ 0) : strncmp s₁ s₂ (n + 1) = 0 ↔ s₁ = s₂ := by
  have hchar : ∀ a b : Byte, a.toInt - b.toInt = 0 ↔ a = b := fun a b => by
    rw [Int.sub_eq_zero, BitVec.toInt_inj]
  induction n generalizing s₁ s₂ with
  | zero =>
    obtain ⟨a, rfl⟩ := List.length_eq_one_iff.mp h₁
    obtain ⟨b, rfl⟩ := List.length_eq_one_iff.mp h₂
    simp [strncmp, charAt, hchar]
  | succ n ih =>
    obtain ⟨a, s₁, rfl⟩ := List.exists_cons_of_length_eq_add_one h₁
    obtain ⟨b, s₂, rfl⟩ := List.exists_cons_of_length_eq_add_one h₂
    have ha : a ≠ 0#8 := hnul a List.mem_cons_self
    rw [strncmp]
    by_cases hab : a = b
    · subst hab
      have := ih (by simpa using h₁) (by simpa using h₂) fun c hc => hnul c (List.mem_cons_of_mem _ hc)
      simpa [charAt, ha] using this
    · simp [charAt, hab, hchar]

theorem strnlen_cString (path : List Byte) (n : Nat) :
    strnlen path n = min n (cString path).length := by
  induction n generalizing path with
  | zero => simp [strnlen]
  | succ n ih =>
    cases path with
    | nil => simp [strnlen, cString]
    | cons c path =>
      rw [strnlen]
      by_cases hc : c = 0
      · rw [if_pos hc, cString, List.takeWhile_cons_of_neg (by simpa using hc)]
        rfl
      · rw [if_neg hc, ih, cString, cString, List.takeWhile_cons_of_pos (by simpa using hc),
          List.length_cons]
        omega

theorem strnlen_le (str : List Byte) (maxLen : Nat) : strnlen str maxLen ≤ maxLen := by
  rw [strnlen_cString]
  exact Nat.min_le_left _ _

theorem strncpy_length (src : List Byte) (n : Nat) : (strncpy src n).length = n := by
  fun_induction strncpy src n with
  | case1 => rfl
  | case2 n => simp
  | case3 src n => simp
  | case4 c src n h ih => rw [List.length_cons, ih]

/-- The copy ends with a NUL exactly if the string is shorter than the array. -/
theorem zero_mem_strncpy (src : List Byte) (n : Nat) : 0 ∈ strncpy src n ↔ strlen src < n := by
  fun_induction strncpy src n with
  | case1 => simp
  | case2 n => simp [strlen]
  | case3 src n => simp [strlen]
  | case4 c src n h ih =>
    rw [strlen, if_neg h, List.mem_cons, ih, Nat.add_lt_add_iff_right]
    exact or_iff_right (Ne.symm h)

/-- Of a string with no NUL, `strnlen` counts all characters. -/
theorem strnlen_eq {str : List Byte} (h : ∀ c ∈ str, c ≠ 0) (maxLen : Nat) :
    strnlen str maxLen = min maxLen str.length := by
  have hall : cString str = str := by
    rw [cString, List.takeWhile_eq_self_iff]
    intro c hc
    simpa using h c hc
  rw [strnlen_cString, hall]

theorem memchr_none {s : List Byte} {c : Byte} (h : c ∉ s) (n : Nat) : memchr s c n = none := by
  unfold memchr
  rw [List.findIdx?_eq_none_iff]
  intro a ha
  rw [beq_eq_false_iff_ne]
  exact fun heq => h (heq ▸ List.mem_of_mem_take ha)

/-- `memchr` finds the first `c`, if it is among the `n` bytes. -/
theorem memchr_append {s rest : List Byte} {c : Byte} (h : c ∉ s) (n : Nat) :
    memchr (s ++ c :: rest) c n = if s.length < n then some s.length else none := by
  have hself := memchr_none h s.length
  rw [memchr, List.take_length] at hself
  split
  · rename_i hlt
    obtain ⟨m, rfl⟩ : ∃ m, n = s.length + (m + 1) := ⟨n - s.length - 1, by omega⟩
    rw [memchr, List.take_length_add_append, List.findIdx?_append, hself, List.take_succ_cons,
      List.findIdx?_cons]
    simp
  · rw [memchr, List.take_append_of_le_length (by omega)]
    exact memchr_none h n

/-- The characters that `strnlen` counts are not NUL. -/
theorem charAt_ne_zero_of_lt_strnlen {str : List Byte} {maxLen i : Nat}
    (h : i < strnlen str maxLen) : charAt str i ≠ 0 := by
  induction maxLen generalizing str i with
  | zero => simp [strnlen] at h
  | succ maxLen ih =>
    cases str with
    | nil => simp [strnlen] at h
    | cons c str =>
      rw [strnlen] at h
      split at h
      · omega
      · cases i with
        | zero => simpa [charAt]
        | succ i => simpa [charAt] using @ih str i (by omega)

/-! ## Addresses in a range -/

theorem eq_add_ofNat_iff {x p : Word} {k : Nat} (hk : k < 2 ^ 32) :
    x = p + BitVec.ofNat 32 k ↔ (x - p).toNat = k := by
  rw [← BitVec.toNat_inj, BitVec.toNat_add, BitVec.toNat_sub, BitVec.toNat_ofNat]
  omega

theorem offset_toNat (a : Word) {k : Nat} (hk : k < 2 ^ 32) :
    (a + BitVec.ofNat 32 k - a).toNat = k :=
  (eq_add_ofNat_iff hk).mp rfl

/-- A range that ends in the address space does not wrap. -/
theorem toNat_add_ofNat {a : Word} {n k : Nat} (ha : a.toNat + n ≤ 2 ^ 32) (hk : k < n) :
    (a + BitVec.ofNat 32 k).toNat = a.toNat + k := by
  rw [BitVec.toNat_add, BitVec.toNat_ofNat]
  omega

end AvocadOS
