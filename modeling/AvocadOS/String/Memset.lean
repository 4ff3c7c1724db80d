import AvocadOS.String
import Mathlib.Tactic.SplitIfs

/-!
# What `memset` and `memcpy` write

Both write dwords as long as they can, and then bytes. `memset` puts a dword together from copies of
its byte, which is a `char` and so has a sign: a byte with its highest bit set overwrites the copies
above it.

* `storeDwords_eq`, `storeBytes_eq`: the two loops;
* `memset_eq`: what is in memory behind `memset`;
* `memset_fills_iff`: when that is the byte everywhere;
* `memcpy_eq`: what is in memory behind `memcpy`.
-/

namespace AvocadOS

/-- A byte at an offset from `p`. -/
theorem storeByte_eq (m : Memory) (p x : Word) (c : Byte) {k : Nat} (hk : k < 2 ^ 32) :
    storeByte m (p + BitVec.ofNat 32 k) c x = if (x - p).toNat = k then c else m x := by
  rw [storeByte, Function.update_apply]
  exact if_congr (eq_add_ofNat_iff hk) rfl rfl

/-- A dword at an offset from `p`. -/
theorem storeDword_eq (m : Memory) (p v x : Word) {k : Nat} (hk : k + 3 < 2 ^ 32) :
    storeDword m (p + BitVec.ofNat 32 k) v x =
      if k ≤ (x - p).toNat ∧ (x - p).toNat < k + 4 then v.extractLsb' (8 * ((x - p).toNat - k)) 8
      else m x := by
  have haddr : ∀ i, p + BitVec.ofNat 32 k + BitVec.ofNat 32 i = p + BitVec.ofNat 32 (k + i) := by
    intro i
    rw [BitVec.add_assoc, ← BitVec.ofNat_add]
  have h₁ : p + BitVec.ofNat 32 k + 1 = p + BitVec.ofNat 32 (k + 1) := haddr 1
  have h₂ : p + BitVec.ofNat 32 k + 2 = p + BitVec.ofNat 32 (k + 2) := haddr 2
  have h₃ : p + BitVec.ofNat 32 k + 3 = p + BitVec.ofNat 32 (k + 3) := haddr 3
  rw [storeDword, h₁, h₂, h₃, storeByte_eq _ _ _ _ hk, storeByte_eq _ _ _ _ (by omega),
    storeByte_eq _ _ _ _ (by omega), storeByte_eq _ _ _ _ (by omega)]
  by_cases hin : k ≤ (x - p).toNat ∧ (x - p).toNat < k + 4
  · obtain ⟨i, hi⟩ : ∃ i, (x - p).toNat = k + i := ⟨(x - p).toNat - k, by omega⟩
    rw [if_pos hin, hi, Nat.add_sub_cancel_left]
    have hi4 : i < 4 := by omega
    split_ifs with g₃ g₂ g₁ g₀
    · rw [show i = 3 by omega]
    · rw [show i = 2 by omega]
    · rw [show i = 1 by omega]
    · rw [show i = 0 by omega]
    · omega
  · rw [if_neg hin, if_neg (by omega), if_neg (by omega), if_neg (by omega), if_neg (by omega)]

/-- The dword that `memset` writes. -/
def fillDword (c : Word) : Word :=
  let wide : Word := (c.setWidth 8 : Byte).signExtend 32
  wide <<< 24 ||| wide <<< 16 ||| wide <<< 8 ||| wide

/-- Its bytes: the lowest is right, and the others have the sign of the byte in them. -/
theorem fillDword_byte (c : Word) {i : Nat} (hi : i < 4) :
    (fillDword c).extractLsb' (8 * i) 8 =
      if i = 0 ∨ (c.setWidth 8 : Byte).msb = false then c.setWidth 8 else 0xFF := by
  rw [fillDword]
  generalize (c.setWidth 8 : Byte) = byte
  obtain rfl | rfl | rfl | rfl : i = 0 ∨ i = 1 ∨ i = 2 ∨ i = 3 := by omega
  all_goals
    revert byte
    decide +kernel

/-- The dwords. -/
theorem storeDwords_eq (m : Memory) (p x : Word) (v : Nat → Word) {n : Nat} (hn : 4 * n ≤ 2 ^ 32) :
    (List.range n).foldl
        (fun m dword => storeDword m (p + BitVec.ofNat 32 (4 * dword)) (v dword)) m x =
      if (x - p).toNat < 4 * n then
        (v ((x - p).toNat / 4)).extractLsb' (8 * ((x - p).toNat % 4)) 8
      else m x := by
  induction n with
  | zero => rfl
  | succ n ih =>
    rw [List.range_succ, List.foldl_append, List.foldl_cons, List.foldl_nil,
      storeDword_eq _ p _ x (by omega), ih (by omega)]
    by_cases hin : 4 * n ≤ (x - p).toNat ∧ (x - p).toNat < 4 * n + 4
    · rw [if_pos hin, if_pos (by omega), show (x - p).toNat - 4 * n = (x - p).toNat % 4 by omega,
        show (x - p).toNat / 4 = n by omega]
    · rw [if_neg hin]
      exact if_congr (by omega) rfl rfl

/-- And the bytes behind them. -/
theorem storeBytes_eq (m : Memory) (p x : Word) (c : Nat → Byte) {k n : Nat}
    (hn : k + n ≤ 2 ^ 32) :
    (List.range n).foldl (fun m i => storeByte m (p + BitVec.ofNat 32 (k + i)) (c (k + i))) m x =
      if k ≤ (x - p).toNat ∧ (x - p).toNat < k + n then c (x - p).toNat else m x := by
  induction n with
  | zero => rw [if_neg (by omega)]; rfl
  | succ n ih =>
    rw [List.range_succ, List.foldl_append, List.foldl_cons, List.foldl_nil,
      storeByte_eq _ p x _ (by omega), ih (by omega)]
    by_cases hlast : (x - p).toNat = k + n
    · rw [if_pos hlast, if_pos (by omega), hlast]
    · rw [if_neg hlast]
      exact if_congr (by omega) rfl rfl

/-- What is in memory behind `memset`. -/
theorem memset_eq (m : Memory) (s c x : Word) (n : Word) :
    memset m s c n.toNat x =
      if (x - s).toNat < n.toNat then
        if (x - s).toNat < 4 * (n.toNat / 4) then (fillDword c).extractLsb' (8 * ((x - s).toNat % 4)) 8
        else c.setWidth 8
      else m x := by
  have hlt := n.isLt
  rw [show memset m s c n.toNat x = (List.range (n.toNat % 4)).foldl
    (fun m i => storeByte m (s + BitVec.ofNat 32 (n.toNat / 4 * 4 + i)) (c.setWidth 8))
    ((List.range (n.toNat / 4)).foldl
      (fun m dword => storeDword m (s + BitVec.ofNat 32 (4 * dword)) (fillDword c)) m) x from rfl,
    storeBytes_eq _ s x (fun _ => c.setWidth 8) (by omega),
    storeDwords_eq _ s x (fun _ => fillDword c) (by omega)]
  by_cases hin : (x - s).toNat < n.toNat
  · rw [if_pos hin]
    by_cases hword : (x - s).toNat < 4 * (n.toNat / 4)
    · rw [if_neg (by omega), if_pos hword, if_pos hword]
    · rw [if_pos (by omega), if_neg hword]
  · rw [if_neg (by omega), if_neg (by omega), if_neg hin]

/-! ## Copying -/

theorem dwordAt_byte (source : Nat → Byte) (k : Nat) {i : Nat} (hi : i < 4) :
    (dwordAt source k).extractLsb' (8 * i) 8 = source (k + i) := by
  rw [dwordAt]
  obtain rfl | rfl | rfl | rfl : i = 0 ∨ i = 1 ∨ i = 2 ∨ i = 3 := by omega
  all_goals
    refine BitVec.eq_of_getLsbD_eq fun j hj => ?_
    simp only [BitVec.getLsbD_extractLsb', BitVec.getLsbD_append]
    grind

/-- What is in memory behind `memcpy`. -/
theorem memcpy_eq (m : Memory) (dest x : Word) (source : Nat → Byte) {n : Nat} (hn : n ≤ 2 ^ 32) :
    memcpy m dest source n x =
      if (x - dest).toNat < n then source (x - dest).toNat else m x := by
  rw [memcpy]
  simp only [storeBytes_eq _ dest x source (show n / 4 * 4 + n % 4 ≤ 2 ^ 32 by omega),
    storeDwords_eq _ dest x (fun dword => dwordAt source (4 * dword))
      (show 4 * (n / 4) ≤ 2 ^ 32 by omega), dwordAt_byte source _ (Nat.mod_lt _ (by decide : 0 < 4)),
    Nat.div_add_mod]
  by_cases hin : (x - dest).toNat < n
  · rw [if_pos hin]
    by_cases hword : (x - dest).toNat < 4 * (n / 4)
    · rw [if_neg (by omega), if_pos hword]
    · rw [if_pos (by omega)]
  · rw [if_neg (by omega), if_neg (by omega), if_neg hin]

/-! ## Byte-wise filling -/

/-- Each of the `n` bytes at `s` is the low byte of `c`, and no other byte has changed. -/
def MemsetFills (m : Memory) (s c n : Word) : Prop :=
  ∀ x, memset m s c n.toNat x = if (x - s).toNat < n.toNat then c.setWidth 8 else m x

theorem memset_fills (m : Memory) (s c n : Word)
    (h : n.toNat < 4 ∨ (c.setWidth 8 : Byte).msb = false ∨ (c.setWidth 8 : Byte) = 0xFF) :
    MemsetFills m s c n := by
  intro x
  rw [memset_eq]
  by_cases hin : (x - s).toNat < n.toNat
  · rw [if_pos hin, if_pos hin]
    by_cases hword : (x - s).toNat < 4 * (n.toNat / 4)
    · rw [if_pos hword, fillDword_byte c (Nat.mod_lt _ (by decide))]
      rcases h with hsmall | hsign | hones
      · omega
      · rw [if_pos (.inr hsign)]
      · rw [hones, ite_self]
    · rw [if_neg hword]
  · rw [if_neg hin, if_neg hin]

/-- `memset` fills memory with its byte exactly if it writes no dword, or a byte without sign, or
0xFF. -/
theorem memset_fills_iff (m : Memory) (s c n : Word) : MemsetFills m s c n ↔
    n.toNat < 4 ∨ (c.setWidth 8 : Byte).msb = false ∨ (c.setWidth 8 : Byte) = 0xFF := by
  constructor
  · intro hfills
    by_contra hno
    simp only [not_or, Nat.not_lt, Bool.not_eq_false] at hno
    obtain ⟨hn, hsign, hbyte⟩ := hno
    -- the second byte
    have hsub : (s + 1 - s).toNat = 1 := by
      rw [BitVec.add_comm, BitVec.add_sub_cancel]
      rfl
    have hsecond := hfills (s + 1)
    rw [memset_eq, hsub, if_pos (by omega), if_pos (by omega), if_pos (by omega),
      fillDword_byte c (by decide), if_neg (by simp [hsign])] at hsecond
    exact hbyte hsecond.symm
  · exact memset_fills m s c n

/-- Four bytes 0x80. -/
theorem memset_sign_extended : ¬ ∀ m s c n, MemsetFills m s c n := by
  intro hclaim
  have hsecond := hclaim (fun _ => 0) 0 0x80 4 1
  exact absurd hsecond (by decide)

end AvocadOS
