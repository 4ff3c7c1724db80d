import AvocadOS.String
import Mathlib.Data.List.GetD
import Mathlib.Data.Nat.Digits.Lemmas

/-!
# What `itoa` prints

`itoa` takes an `int64_t` and works on a copy of type `int`. It counts the digits in one loop and
writes them, from the last to the first, in another.

* `itoaCount_eq`, `itoaDigits_eq`: the two loops;
* `itoa_text`: the text in the buffer;
* `itoa_prints_iff`: when it is the number in decimal.
-/

namespace AvocadOS

/-- A conversion to `int`. -/
def toInt32 (x : Int) : Int := x.bmod (2 ^ 32)

def digitToChar (c : Int) : Byte := if c < 0 ∨ 9 < c then 0x45 else BitVec.ofInt 8 (0x30 + c)

theorem natAbs_tdiv_lt {y : Int} (hy : y ≠ 0) : (y.tdiv 10).natAbs < y.natAbs := by
  rw [Int.natAbs_tdiv]
  exact Nat.div_lt_self (Int.natAbs_pos.mpr hy) (by decide)

/-- Both loops go on only while there is a digit left. -/
theorem ne_zero_of_tdiv {y : Int} (h : ¬ y.tdiv 10 = 0) : y ≠ 0 := by
  rintro rfl
  exact h rfl

/-- The loop that counts the digits. -/
def itoaCount (shifter ptr : Int) : Int :=
  let shifter' := shifter.tdiv 10
  let ptr := ptr + 1
  if shifter' = 0 then ptr else itoaCount shifter' ptr
termination_by shifter.natAbs
decreasing_by exact natAbs_tdiv_lt (ne_zero_of_tdiv ‹_›)

/-- The loop that writes them: the buffer and `ptr` behind it. -/
def itoaDigits (buf : Int → Byte) (shifter ptr : Int) : (Int → Byte) × Int :=
  let buf := Function.update buf ptr (digitToChar (shifter.tmod 10))
  let ptr := ptr - 1
  let shifter' := shifter.tdiv 10
  if shifter' = 0 then (buf, ptr) else itoaDigits buf shifter' ptr
termination_by shifter.natAbs
decreasing_by exact natAbs_tdiv_lt (ne_zero_of_tdiv ‹_›)

/-- `itoa`: the buffer afterwards. `-c` does not fit if `c` is the least `int64_t`; the conversion to
`int` drops the bits in which that shows. -/
def itoa (c : BitVec 64) (buf : Int → Byte) : Int → Byte :=
  let shifter := toInt32 c.toInt
  if shifter = 0 then Function.update (Function.update buf 0 0x30) 1 0
  else
    let isNegative : Bool := shifter < 0
    let ptr := itoaCount (if isNegative then toInt32 (shifter * -1) else shifter)
      (if isNegative then 1 else 0)
    let buf := Function.update buf ptr 0
    let (buf, ptr) := itoaDigits buf (toInt32 (if isNegative then -c.toInt else c.toInt)) (ptr - 1)
    if isNegative then Function.update buf ptr 0x2D else buf

/-- What a conversion to `int` does: it takes away a multiple of 2^32. -/
theorem toInt32_spec (x : Int) :
    (∃ k, toInt32 x = x - 2 ^ 32 * k) ∧ -2 ^ 31 ≤ toInt32 x ∧ toInt32 x < 2 ^ 31 := by
  refine ⟨⟨Int.bdiv x (2 ^ 32), Int.bmod_eq_self_sub_mul_bdiv x _⟩, ?_, ?_⟩
  · exact Int.le_bmod (by decide)
  · exact Int.bmod_lt (by decide)

/-! ## The two loops -/

/-- Both loops go on with the remaining digits. -/
theorem digits_tdiv {y : Int} (hy : y ≠ 0) :
    Nat.digits 10 y.natAbs = y.natAbs % 10 :: Nat.digits 10 (y.tdiv 10).natAbs := by
  rw [Nat.digits_def' (by decide) (Int.natAbs_pos.mpr hy), Int.natAbs_tdiv]
  rfl

theorem sign_tdiv {y : Int} (h : y.tdiv 10 ≠ 0) : (y.tdiv 10).sign = y.sign := by
  rw [Int.sign_tdiv]
  split
  · rename_i hlt
    refine absurd (Int.natAbs_eq_zero.mp ?_) h
    rw [Int.natAbs_tdiv]
    exact Nat.div_eq_of_lt hlt
  · exact Int.mul_one _

/-- A remainder has the sign of the dividend. -/
theorem tmod_ten (y : Int) : y.tmod 10 = y.sign * (y.natAbs % 10 : Nat) := by
  obtain ⟨n, rfl | rfl⟩ := Int.eq_nat_or_neg y
  · rcases Nat.eq_zero_or_pos n with rfl | hpos
    · rfl
    · rw [Int.sign_natCast_of_ne_zero (by omega), Int.natAbs_natCast, Int.one_mul]
      rfl
  · rcases Nat.eq_zero_or_pos n with rfl | hpos
    · rfl
    · rw [Int.sign_neg, Int.sign_natCast_of_ne_zero (by omega), Int.natAbs_neg, Int.natAbs_natCast,
        Int.neg_tmod, Int.neg_one_mul]
      rfl

theorem itoaCount_eq {n : Nat} {y ptr : Int} (hn : y.natAbs = n) (hy : y ≠ 0) :
    itoaCount y ptr = ptr + (Nat.digits 10 y.natAbs).length := by
  induction n using Nat.strong_induction_on generalizing y ptr with
  | h n ih =>
    rw [itoaCount, digits_tdiv hy, List.length_cons]
    split
    · rename_i hzero
      simp [hzero]
    · rename_i hne
      rw [ih _ (hn ▸ natAbs_tdiv_lt hy) rfl hne]
      omega

/-- What the second loop writes: behind it `ptr` is in front of the first digit. -/
theorem itoaDigits_eq {n : Nat} {y ptr : Int} {buf : Int → Byte} (hn : y.natAbs = n) (hy : y ≠ 0) :
    (itoaDigits buf y ptr).2 = ptr - (Nat.digits 10 y.natAbs).length ∧
      (∀ k < (Nat.digits 10 y.natAbs).length, (itoaDigits buf y ptr).1 (ptr - k) =
        digitToChar (y.sign * ((Nat.digits 10 y.natAbs).getD k 0 : Nat))) ∧
      ∀ a, (a ≤ ptr - (Nat.digits 10 y.natAbs).length ∨ ptr < a) →
        (itoaDigits buf y ptr).1 a = buf a := by
  induction n using Nat.strong_induction_on generalizing y ptr buf with
  | h n ih =>
    rw [itoaDigits, digits_tdiv hy, List.length_cons, tmod_ten]
    split
    · rename_i hzero
      rw [hzero]
      refine ⟨by simp, fun k hk => ?_, fun a ha => ?_⟩
      · obtain rfl : k = 0 := by simpa using hk
        simp
      · refine Function.update_of_ne ?_ _ _
        simp only [Int.natAbs_zero, Nat.digits_zero, List.length_nil] at ha
        omega
    · rename_i hne
      obtain ⟨hptr, hdigits, hframe⟩ := @ih _ (hn ▸ natAbs_tdiv_lt hy) (y.tdiv 10) (ptr - 1)
        (Function.update buf ptr (digitToChar (y.sign * (y.natAbs % 10 : Nat)))) rfl hne
      rw [sign_tdiv hne] at hdigits
      refine ⟨by rw [hptr]; omega, fun k hk => ?_, fun a ha => ?_⟩
      · cases k with
        | zero =>
          rw [hframe _ (by omega)]
          simp
        | succ k =>
          have := hdigits k (by omega)
          rw [show ptr - ((k + 1 : Nat) : Int) = ptr - 1 - k by omega, this, List.getD_cons_succ]
      · rw [hframe _ (by omega)]
        exact Function.update_of_ne (by omega) _ _

/-! ## Decimal numbers -/

/-- The C string `str` is in the buffer. -/
def TextAt (buf : Int → Byte) (str : List Byte) : Prop :=
  (∀ k < str.length, buf k = str.getD k 0) ∧ buf str.length = 0

/-- The digits of `n`, without leading zeros. -/
def decimalDigits (n : Nat) : List Byte :=
  if n = 0 then [0x30] else (Nat.digits 10 n).reverse.map fun d => BitVec.ofNat 8 (0x30 + d)

/-- The canonical decimal representation. -/
def decimal (c : Int) : List Byte :=
  if c < 0 then 0x2D :: decimalDigits c.natAbs else decimalDigits c.natAbs

/-- The value of a sequence of digits. -/
def digitsValue (str : List Byte) : Nat :=
  Nat.ofDigits 10 (str.reverse.map fun d => d.toNat - 0x30)

/-- The number that a decimal represents. -/
def readDecimal (str : List Byte) : Int :=
  if str.head? = some 0x2D then -digitsValue str.tail else digitsValue str

theorem digit_toNat {d : Nat} (hd : d < 10) : (BitVec.ofNat 8 (0x30 + d)).toNat = 0x30 + d := by
  rw [BitVec.toNat_ofNat, Nat.mod_eq_of_lt (by omega)]

theorem digitsValue_decimalDigits (n : Nat) : digitsValue (decimalDigits n) = n := by
  rw [decimalDigits]
  split
  · rename_i hzero
    rw [hzero]
    rfl
  · rw [digitsValue, ← List.map_reverse, List.reverse_reverse, List.map_map]
    have hdigits : (Nat.digits 10 n).map ((fun d : Byte => d.toNat - 0x30) ∘
        fun d => BitVec.ofNat 8 (0x30 + d)) = Nat.digits 10 n := by
      refine (List.map_congr_left fun d hd => ?_).trans (List.map_id _)
      have hlt := Nat.digits_lt_base (by decide) hd
      simp only [Function.comp_apply, digit_toNat hlt, Nat.add_sub_cancel_left, id_eq]
    rw [hdigits, Nat.ofDigits_digits]

/-- The characters of a number are digits. -/
theorem mem_decimalDigits {n : Nat} {d : Byte} (h : d ∈ decimalDigits n) :
    0x30 ≤ d.toNat ∧ d.toNat ≤ 0x39 := by
  rw [decimalDigits] at h
  split at h
  · obtain rfl := List.mem_singleton.mp h
    decide
  · obtain ⟨k, hk, rfl⟩ := List.mem_map.mp h
    have hlt := Nat.digits_lt_base (by decide) (List.mem_reverse.mp hk)
    rw [digit_toNat hlt]
    omega

theorem readDecimal_decimal (c : Int) : readDecimal (decimal c) = c := by
  rw [decimal]
  split
  · rename_i hneg
    rw [readDecimal, if_pos (by rfl), List.tail_cons, digitsValue_decimalDigits]
    omega
  · rename_i hpos
    rw [readDecimal, if_neg, digitsValue_decimalDigits]
    · omega
    · intro hhead
      have hd := mem_decimalDigits (List.mem_of_mem_head? hhead)
      exact absurd hd.1 (by decide)

theorem decimal_ne_zero {c : Int} {d : Byte} (h : d ∈ decimal c) : d ≠ 0 ∧ d ≠ 0x45 := by
  have hmem : d = 0x2D ∨ d ∈ decimalDigits c.natAbs := by
    rw [decimal] at h
    split at h
    · exact List.mem_cons.mp h
    · exact .inr h
  rcases hmem with rfl | hd
  · decide
  · have hrange := mem_decimalDigits hd
    constructor
    · rintro rfl
      exact absurd hrange.1 (by decide)
    · rintro rfl
      exact absurd hrange.2 (by decide)

/-- A buffer holds one string. -/
theorem TextAt.unique {buf : Int → Byte} {str str' : List Byte} (h : TextAt buf str)
    (h' : TextAt buf str') (hne : ∀ d ∈ str, d ≠ 0) (hne' : ∀ d ∈ str', d ≠ 0) : str = str' := by
  have hlen : ∀ {s t : List Byte}, TextAt buf s → TextAt buf t → (∀ d ∈ s, d ≠ 0) →
      s.length ≤ t.length := by
    intro s t hs ht hs0
    by_contra hlt
    have hchar := hs.1 t.length (by omega)
    rw [ht.2, List.getD_eq_getElem _ _ (by omega)] at hchar
    exact hs0 _ (List.getElem_mem _) hchar.symm
  have heq : str.length = str'.length := Nat.le_antisymm (hlen h h' hne) (hlen h' h hne')
  refine List.ext_getElem heq fun k hk hk' => ?_
  rw [← List.getD_eq_getElem str 0 hk, ← List.getD_eq_getElem str' 0 hk', ← h.1 k hk, h'.1 k hk']

/-! ## The text in the buffer -/

/-- The characters that the second loop writes. -/
def digitChars (y : Int) : List Byte :=
  (Nat.digits 10 y.natAbs).reverse.map fun d => digitToChar (y.sign * (d : Nat))

/-- The text, for the `int` values of `c` and of the number that is printed. -/
def itoaText (c : BitVec 64) : List Byte :=
  let shifter := toInt32 c.toInt
  if shifter = 0 then [0x30]
  else if shifter < 0 then 0x2D :: digitChars (toInt32 (-c.toInt)) else digitChars shifter

/-- The digits and the NUL behind them, from `start` on. -/
theorem itoaDigits_text {y start : Int} (buf : Int → Byte) (hy : y ≠ 0) :
    let res := itoaDigits (Function.update buf (itoaCount y start) 0) y (itoaCount y start - 1)
    res.2 = start - 1 ∧ (∀ k < (digitChars y).length, res.1 (start + k) = (digitChars y).getD k 0) ∧
      res.1 (start + (digitChars y).length) = 0 := by
  have hlen : (digitChars y).length = (Nat.digits 10 y.natAbs).length := by simp [digitChars]
  rw [itoaCount_eq rfl hy]
  obtain ⟨hptr, hdigits, hframe⟩ := @itoaDigits_eq _ y (start + (Nat.digits 10 y.natAbs).length - 1)
    (Function.update buf (start + (Nat.digits 10 y.natAbs).length) 0) rfl hy
  refine ⟨by rw [hptr]; omega, fun k hk => ?_, ?_⟩
  · rw [hlen] at hk
    have hpos : start + (k : Int) = start + (Nat.digits 10 y.natAbs).length - 1 -
        ((Nat.digits 10 y.natAbs).length - 1 - k : Nat) := by omega
    rw [hpos, hdigits _ (by omega), List.getD_eq_getElem _ _ (by omega), List.getD_eq_getElem _ _
      (by omega)]
    simp only [digitChars, List.getElem_map, List.getElem_reverse]
  · rw [hlen, hframe _ (by omega), Function.update_self]

/-- What `itoa` leaves in the buffer. -/
theorem itoa_text (c : BitVec 64) (buf : Int → Byte) : TextAt (itoa c buf) (itoaText c) := by
  rw [itoa, itoaText]
  by_cases hzero : toInt32 c.toInt = 0
  · rw [if_pos hzero, if_pos hzero]
    refine ⟨fun k hk => ?_, Function.update_self _ _ _⟩
    obtain rfl : k = 0 := by simpa using hk
    rfl
  rw [if_neg hzero, if_neg hzero]
  by_cases hneg : toInt32 c.toInt < 0
  · have hsame : toInt32 (toInt32 c.toInt * -1) = toInt32 (-c.toInt) := by
      rw [Int.mul_neg_one]
      exact Int.bmod_neg_bmod
    have hy : toInt32 (-c.toInt) ≠ 0 := by
      obtain ⟨⟨k, hk⟩, -⟩ := toInt32_spec (-c.toInt)
      obtain ⟨⟨j, hj⟩, hlow, hhigh⟩ := toInt32_spec c.toInt
      omega
    obtain ⟨hptr, hdigits, hend⟩ := @itoaDigits_text _ 1 buf hy
    simp only [hneg, decide_true, if_true, hsame, hptr]
    refine ⟨fun k hk => ?_, ?_⟩
    · cases k with
      | zero => rfl
      | succ k =>
        rw [Function.update_of_ne (show ((k + 1 : Nat) : Int) ≠ 1 - 1 by omega), List.getD_cons_succ,
          show ((k + 1 : Nat) : Int) = 1 + k by omega]
        exact hdigits k (by simpa using hk)
    · have hlen : ((digitChars (toInt32 (-c.toInt))).length + 1 : Nat) ≠ (1 - 1 : Int) := by omega
      rw [List.length_cons, Function.update_of_ne hlen,
        show ((_ + 1 : Nat) : Int) = 1 + (digitChars (toInt32 (-c.toInt))).length by omega]
      exact hend
  · obtain ⟨-, hdigits, hend⟩ := @itoaDigits_text _ 0 buf hzero
    simp only [hneg, decide_false, Bool.false_eq_true, if_false]
    simp only [Int.zero_add] at hdigits hend
    exact ⟨hdigits, hend⟩

/-! ## When it is the number -/

/-- The buffer holds the number in decimal, and reading it back gives the number. -/
def ItoaPrints (c : BitVec 64) (buf : Int → Byte) : Prop :=
  ∃ str, TextAt (itoa c buf) str ∧ str = decimal c.toInt ∧ readDecimal str = c.toInt

theorem digitToChar_ne_zero (d : Int) : digitToChar d ≠ 0 := by
  rw [digitToChar]
  split
  · decide
  · rename_i hrange
    obtain ⟨n, rfl⟩ := Int.eq_ofNat_of_zero_le (show 0 ≤ d by omega)
    intro hzero
    have hnat := digit_toNat (show n < 10 by omega)
    rw [show BitVec.ofNat 8 (0x30 + n) = 0 from hzero] at hnat
    change 0 = 0x30 + n at hnat
    omega

theorem digitToChar_natCast {d : Nat} (hd : d < 10) : digitToChar d = BitVec.ofNat 8 (0x30 + d) := by
  rw [digitToChar, if_neg (by omega)]
  rfl

theorem digitChars_pos {y : Int} (hy : 0 < y) : digitChars y = decimalDigits y.natAbs := by
  rw [digitChars, decimalDigits, if_neg (by omega), Int.sign_eq_one_of_pos hy]
  refine List.map_congr_left fun d hd => ?_
  rw [Int.one_mul]
  exact digitToChar_natCast (Nat.digits_lt_base (by decide) (List.mem_reverse.mp hd))

/-- The text is the decimal of the `int`, unless that is the least one. -/
theorem itoaText_eq {c : BitVec 64} (h : toInt32 c.toInt ≠ -2 ^ 31) :
    itoaText c = decimal (toInt32 c.toInt) := by
  have hneg : toInt32 c.toInt < 0 → toInt32 (-c.toInt) = -toInt32 c.toInt := by
    intro hlt
    obtain ⟨⟨k, hk⟩, hlow, hhigh⟩ := toInt32_spec (-c.toInt)
    obtain ⟨⟨j, hj⟩, hlow', hhigh'⟩ := toInt32_spec c.toInt
    omega
  rw [itoaText, decimal]
  split
  · rename_i hzero
    rw [hzero]
    rfl
  · split
    · rename_i hlt
      rw [hneg hlt, digitChars_pos (by omega), Int.natAbs_neg]
    · rw [digitChars_pos (by omega)]

/-- The remainders of the least `int` are negative. -/
theorem itoaText_min {c : BitVec 64} (h : toInt32 c.toInt = -2 ^ 31) : 0x45 ∈ itoaText c := by
  have hy : toInt32 (-c.toInt) = -2 ^ 31 := by
    obtain ⟨⟨k, hk⟩, hlow, hhigh⟩ := toInt32_spec (-c.toInt)
    obtain ⟨⟨j, hj⟩, -⟩ := toInt32_spec c.toInt
    omega
  have height : 8 ∈ Nat.digits 10 2147483648 := by norm_num
  rw [itoaText, h, hy]
  refine List.mem_cons_of_mem _ (List.mem_map.mpr ⟨8, List.mem_reverse.mpr height, by decide⟩)

theorem itoaText_ne_zero {c : BitVec 64} {d : Byte} (h : d ∈ itoaText c) : d ≠ 0 := by
  have hchars : ∀ y, d ∈ digitChars y → d ≠ 0 := by
    intro y hd
    obtain ⟨n, -, rfl⟩ := List.mem_map.mp hd
    exact digitToChar_ne_zero _
  rw [itoaText] at h
  split at h
  · obtain rfl := List.mem_singleton.mp h
    decide
  · split at h
    · rcases List.mem_cons.mp h with rfl | hd
      · decide
      · exact hchars _ hd
    · exact hchars _ h

/-- `itoa` prints its argument exactly if that is an `int` other than the least one. -/
theorem itoa_prints_iff (c : BitVec 64) (buf : Int → Byte) :
    ItoaPrints c buf ↔ -2 ^ 31 < c.toInt ∧ c.toInt < 2 ^ 31 := by
  obtain ⟨⟨k, hk⟩, hlow, hhigh⟩ := toInt32_spec c.toInt
  constructor
  · rintro ⟨str, htext, rfl, -⟩
    have heq : itoaText c = decimal c.toInt := (itoa_text c buf).unique htext
      (fun d hd => itoaText_ne_zero hd) fun d hd => (decimal_ne_zero hd).1
    by_cases hmin : toInt32 c.toInt = -2 ^ 31
    · have hmem := itoaText_min hmin
      rw [heq] at hmem
      exact absurd rfl (decimal_ne_zero hmem).2
    · rw [itoaText_eq hmin] at heq
      have hread := congrArg readDecimal heq
      rw [readDecimal_decimal, readDecimal_decimal] at hread
      omega
  · intro hrange
    have hself : toInt32 c.toInt = c.toInt := by omega
    have heq : itoaText c = decimal c.toInt := by
      rw [itoaText_eq (by omega), hself]
    exact ⟨_, itoa_text c buf, heq, by rw [heq, readDecimal_decimal]⟩

/-- The address at which the kernel is linked. -/
theorem itoa_kernel_address : ¬ ∀ c buf, ItoaPrints c buf := by
  intro hclaim
  obtain ⟨str, htext, rfl, -⟩ := hclaim 0xC0000000 fun _ => 0
  have heq := (itoa_text 0xC0000000 fun _ => 0).unique htext (fun d hd => itoaText_ne_zero hd)
    fun d hd => (decimal_ne_zero hd).1
  rw [itoaText_eq (by decide)] at heq
  have hread := congrArg readDecimal heq
  rw [readDecimal_decimal, readDecimal_decimal] at hread
  exact absurd hread (by decide)

end AvocadOS
