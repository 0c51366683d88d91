import Mathlib.Tactic.Common
import Mathlib.Data.Nat.Notation
import Mathlib.Data.Int.Notation
import Mathlib.Data.Int.Order.Basic
import Mathlib.Algebra.Order.Group.Nat

/-!
# Single precision as bit patterns

`float` as its bits, with the conversions from and to `int`. Equality of `Binary32` is equality
of bits: it tells the zeros apart and a NaN is equal to itself.

A conversion to `float` may lose digits, but the result stands for an integer again, so there and
back a second time loses nothing (`ofInt_toInt_ofInt`).
-/

/-- A `float`: sign, eight bits of exponent, 23 of fraction. -/
structure Binary32 where
  bits : UInt32
deriving Repr, DecidableEq

namespace Binary32

def zero : Binary32 := ⟨0⟩

def negative (x : Binary32) : Bool := 2 ^ 31 ≤ x.bits.toNat

def exponent (x : Binary32) : ℕ := x.bits.toNat / 2 ^ 23 % 256

def fraction (x : Binary32) : ℕ := x.bits.toNat % 2 ^ 23

/-- `x == 0.f`, which both zeros satisfy. -/
def isZero (x : Binary32) : Bool := x.bits.toNat % 2 ^ 31 = 0

/-- `m / 2 ^ k` rounded to nearest, ties to even. -/
def roundShift (m k : ℕ) : ℕ :=
  let q := m / 2 ^ k
  let r := m % 2 ^ k
  if 2 * r < 2 ^ k ∨ 2 * r = 2 ^ k ∧ q % 2 = 0 then q else q + 1

/-- Conversion from an integer of at most 32 bits. -/
def ofInt (v : ℤ) : Binary32 :=
  let m := v.natAbs
  if m = 0 then zero
  else
    let e := m.log2
    let significand := if e ≤ 23 then m * 2 ^ (23 - e) else roundShift m (e - 23)
    -- the leading bit of the significand, and a carry out of it, add to the exponent
    ⟨UInt32.ofNat ((if v < 0 then 2 ^ 31 else 0) + (e + 126) * 2 ^ 23 + significand)⟩

/-- Conversion to `int`, towards zero. Out of range, where C++ defines nothing, it saturates and
takes a NaN to `0`, as the processor does. -/
def toInt (x : Binary32) : ℤ :=
  let significand := 2 ^ 23 + x.fraction
  let magnitude : ℕ := if 150 ≤ x.exponent then significand * 2 ^ (x.exponent - 150)
    else significand / 2 ^ (150 - x.exponent)
  if x.exponent = 255 ∧ x.fraction ≠ 0 then 0
  else if x.negative then max (-2147483648) (-(magnitude : ℤ))
  else min 2147483647 (magnitude : ℤ)

theorem ofInt_zero : ofInt 0 = zero := rfl

theorem toInt_zero : toInt zero = 0 := by decide

/-! ## Digits -/

/-- The bits for a positive integer, without the sign. -/
def intBits (m : ℕ) : ℕ := (m.log2 + 126) * 2 ^ 23 +
  if m.log2 ≤ 23 then m * 2 ^ (23 - m.log2) else roundShift m (m.log2 - 23)

/-- What the significand `s` stands for with the exponent `e`, without a fraction. -/
def magnitude (e s : ℕ) : ℕ := if 23 ≤ e then s * 2 ^ (e - 23) else s / 2 ^ (23 - e)

/-- The significand `s` has its leading bit, and no fraction with the exponent `e`. -/
structure Normal (e s : ℕ) : Prop where
  ge : 2 ^ 23 ≤ s
  lt : s < 2 ^ 24
  dvd : 2 ^ (23 - e) ∣ s

theorem roundShift_mul (s k : ℕ) : roundShift (s * 2 ^ k) k = s := by
  have hpos : 0 < 2 ^ k := Nat.two_pow_pos k
  rw [roundShift, Nat.mul_div_cancel _ hpos, Nat.mul_mod_left]
  exact if_pos (Or.inl (by omega))

theorem le_roundShift {m q k : ℕ} (h : q * 2 ^ k ≤ m) : q ≤ roundShift m k := by
  have hle : q ≤ m / 2 ^ k := (Nat.le_div_iff_mul_le (Nat.two_pow_pos k)).mpr h
  simp only [roundShift]
  split <;> omega

theorem roundShift_le {m q k : ℕ} (h : m < q * 2 ^ k) : roundShift m k ≤ q := by
  have hlt : m / 2 ^ k < q := (Nat.div_lt_iff_lt_mul (Nat.two_pow_pos k)).mpr h
  simp only [roundShift]
  split <;> omega

theorem intBits_magnitude {e s : ℕ} (h : Normal e s) :
    intBits (magnitude e s) = (e + 126) * 2 ^ 23 + s := by
  have hge := h.ge
  have hlt := h.lt
  by_cases he : 23 ≤ e
  · have hmag : magnitude e s = s * 2 ^ (e - 23) := if_pos he
    have hpow : 2 ^ e = 2 ^ 23 * 2 ^ (e - 23) := by rw [← pow_add]; congr 1; omega
    have hlog : (magnitude e s).log2 = e := by
      rw [hmag, Nat.log2_eq_iff (Nat.mul_ne_zero (by omega) (Nat.two_pow_pos _).ne'),
        pow_succ, hpow]
      constructor
      · exact Nat.mul_le_mul_right _ hge
      · rw [Nat.mul_right_comm]
        exact Nat.mul_lt_mul_of_pos_right (by omega) (Nat.two_pow_pos _)
    rw [intBits, hlog, hmag]
    by_cases h23 : e ≤ 23
    · obtain rfl : e = 23 := by omega
      simp
    · rw [if_neg h23, roundShift_mul]
  · obtain ⟨m, rfl⟩ := h.dvd
    have hmag : magnitude e (2 ^ (23 - e) * m) = m := by
      rw [magnitude, if_neg he, Nat.mul_div_cancel_left _ (Nat.two_pow_pos _)]
    have hpow : 2 ^ 23 = 2 ^ (23 - e) * 2 ^ e := by rw [← pow_add]; congr 1; omega
    have hlog : m.log2 = e := by
      have hm : m ≠ 0 := by
        rintro rfl
        simp at hge
      rw [Nat.log2_eq_iff hm]
      constructor
      · rw [hpow] at hge
        exact Nat.le_of_mul_le_mul_left hge (Nat.two_pow_pos _)
      · rw [show 2 ^ 24 = 2 ^ (23 - e) * 2 ^ (e + 1) by rw [← pow_add]; congr 1; omega] at hlt
        exact Nat.lt_of_mul_lt_mul_left hlt
    rw [hmag, intBits, hlog, if_pos (by omega), Nat.mul_comm m]

/-- Up to 24 digits fit in the significand. -/
theorem normal_of_lt {m : ℕ} (h0 : m ≠ 0) (h : m < 2 ^ 24) : m.log2 ≤ 23 ∧
    Normal m.log2 (m * 2 ^ (23 - m.log2)) ∧ magnitude m.log2 (m * 2 ^ (23 - m.log2)) = m := by
  rcases (Nat.log2_eq_iff h0).mp rfl with ⟨hlo, hhi⟩
  have hlog : m.log2 ≤ 23 := by
    by_contra hgt
    have hpow : 2 ^ 24 ≤ 2 ^ m.log2 := Nat.pow_le_pow_right (by decide) (by omega)
    omega
  have hup : m < 2 ^ m.log2 * 2 := hhi
  generalize m.log2 = e at *
  have hpow : 2 ^ 23 = 2 ^ e * 2 ^ (23 - e) := by rw [← pow_add]; congr 1; omega
  have hge : 2 ^ 23 ≤ m * 2 ^ (23 - e) := hpow ▸ Nat.mul_le_mul_right _ hlo
  have hlt : m * 2 ^ (23 - e) < 2 ^ 24 := by
    calc m * 2 ^ (23 - e) < 2 ^ e * 2 * 2 ^ (23 - e) :=
          Nat.mul_lt_mul_of_pos_right hup (Nat.two_pow_pos _)
      _ = 2 ^ 24 := by rw [Nat.mul_right_comm, ← hpow]; rfl
  refine ⟨hlog, ⟨hge, hlt, Nat.dvd_mul_left _ _⟩, ?_⟩
  unfold magnitude
  split
  · have hexp : 23 - e + (e - 23) = 0 := by omega
    rw [mul_assoc, ← pow_add, hexp, pow_zero, mul_one]
  · rw [Nat.mul_div_cancel _ (Nat.two_pow_pos _)]

/-- The conversion leaves a significand whose last digits are zero. -/
theorem exists_intBits {m : ℕ} (h0 : m ≠ 0) (hle : m ≤ 2 ^ 31) :
    ∃ e s, Normal e s ∧ e ≤ 31 ∧ intBits m = (e + 126) * 2 ^ 23 + s ∧ magnitude e s ≤ 2 ^ 31 := by
  rcases (Nat.log2_eq_iff h0).mp rfl with ⟨hlo, hhi⟩
  have hlog : m.log2 ≤ 31 := by
    by_contra hgt
    have hpow : 2 ^ 32 ≤ 2 ^ m.log2 := Nat.pow_le_pow_right (by decide) (by omega)
    omega
  have hup : m < 2 ^ m.log2 * 2 := hhi
  by_cases he : m.log2 ≤ 23
  · have hlt : m < 2 ^ 24 := by
      have hpow : 2 ^ m.log2 ≤ 2 ^ 23 := Nat.pow_le_pow_right (by decide) he
      omega
    rcases normal_of_lt h0 hlt with ⟨-, hnorm, hmag⟩
    exact ⟨_, _, hnorm, hlog, by rw [intBits, if_pos he], hmag.le.trans hle⟩
  · rw [intBits, if_neg he]
    generalize m.log2 = e at *
    have hpow : 2 ^ e = 2 ^ 23 * 2 ^ (e - 23) := by rw [← pow_add]; congr 1; omega
    have hge : 2 ^ 23 ≤ roundShift m (e - 23) := le_roundShift (hpow ▸ hlo)
    have hcarry : roundShift m (e - 23) ≤ 2 ^ 24 := by
      apply roundShift_le
      calc m < 2 ^ e * 2 := hup
        _ = 2 ^ 24 * 2 ^ (e - 23) := by rw [hpow, Nat.mul_right_comm]; rfl
    have hone : 2 ^ (23 - e) = 1 := by rw [show 23 - e = 0 by omega, pow_zero]
    rcases Nat.lt_or_eq_of_le hlog with hlt31 | rfl
    · have hscale : 2 ^ (e - 23) ≤ 2 ^ 7 := Nat.pow_le_pow_right (by decide) (by omega)
      rcases Nat.lt_or_eq_of_le hcarry with hlt | heq
      · refine ⟨e, _, ⟨hge, hlt, hone ▸ Nat.one_dvd _⟩, hlog, rfl, ?_⟩
        rw [magnitude, if_pos (by omega)]
        calc roundShift m (e - 23) * 2 ^ (e - 23) ≤ 2 ^ 24 * 2 ^ 7 := Nat.mul_le_mul hcarry hscale
          _ = 2 ^ 31 := by decide
      · -- the carry is the leading bit of the next exponent
        refine ⟨e + 1, 2 ^ 23, ⟨le_rfl, by decide, ?_⟩, hlt31, by rw [heq]; omega, ?_⟩
        · rw [show 23 - (e + 1) = 0 by omega, pow_zero]
          exact Nat.one_dvd _
        · rw [magnitude, if_pos (by omega), show e + 1 - 23 = e - 23 + 1 by omega, pow_succ]
          omega
    · -- only `2 ^ 31` itself
      obtain rfl : m = 2 ^ 23 * 2 ^ 8 := by omega
      rw [roundShift_mul]
      exact ⟨31, 2 ^ 23, ⟨le_rfl, by decide, by decide⟩, le_rfl, rfl, by decide⟩

/-! ## There and back -/

theorem ofInt_toNat {v : ℤ} (h0 : v ≠ 0) (hle : v.natAbs ≤ 2 ^ 31) :
    (ofInt v).bits.toNat = (if v < 0 then 2 ^ 31 else 0) + intBits v.natAbs := by
  obtain ⟨e, s, hnorm, he, hbits, -⟩ := exists_intBits (Int.natAbs_ne_zero.mpr h0) hle
  have hlt := hnorm.lt
  have hfits : (if v < 0 then 2 ^ 31 else 0) + intBits v.natAbs < 2 ^ 32 := by
    rw [hbits]
    split <;> omega
  have hsum : (if v < 0 then 2 ^ 31 else 0) + intBits v.natAbs
      = (if v < 0 then 2 ^ 31 else 0) + (v.natAbs.log2 + 126) * 2 ^ 23
        + if v.natAbs.log2 ≤ 23 then v.natAbs * 2 ^ (23 - v.natAbs.log2)
          else roundShift v.natAbs (v.natAbs.log2 - 23) := by
    rw [intBits, Nat.add_assoc]
  simp only [ofInt, if_neg (Int.natAbs_ne_zero.mpr h0), ← hsum]
  exact UInt32.toNat_ofNat_of_lt hfits

/-- The integer a normal number stands for, in range or not. -/
theorem toInt_eq {x : Binary32} {n : Bool} {e s : ℕ} (h : Normal e s) (he : e ≤ 31)
    (hx : x.bits.toNat = (if n then 2 ^ 31 else 0) + ((e + 126) * 2 ^ 23 + s)) :
    x.toInt = if n then max (-2147483648) (-(magnitude e s : ℤ))
      else min 2147483647 (magnitude e s : ℤ) := by
  have hge := h.ge
  have hlt := h.lt
  have hexp : x.exponent = e + 127 := by
    rw [exponent, hx]
    split <;> omega
  have hfrac : 2 ^ 23 + x.fraction = s := by
    rw [fraction, hx]
    split <;> omega
  have hneg : x.negative = n := by
    rw [negative, hx]
    cases n
    · simp
      omega
    · simp
  have hmag : (if 150 ≤ e + 127 then s * 2 ^ (e + 127 - 150) else s / 2 ^ (150 - (e + 127)))
      = magnitude e s := by
    rw [magnitude, show e + 127 - 150 = e - 23 by omega, show 150 - (e + 127) = 23 - e by omega]
    exact if_congr (by omega) rfl rfl
  rw [toInt]
  simp only [hfrac, hexp, hneg, hmag]
  rw [if_neg (by omega)]

/-- A `float` that came from an integer becomes the same integer every time. -/
theorem ofInt_toInt_ofInt {v : ℤ} (hlo : -2147483648 ≤ v) (hhi : v ≤ 2147483647) :
    ofInt (ofInt v).toInt = ofInt v := by
  by_cases h0 : v = 0
  · rw [h0, ofInt_zero, toInt_zero, ofInt_zero]
  · have hle : v.natAbs ≤ 2 ^ 31 := by omega
    obtain ⟨e, s, hnorm, he, hbits, hmag⟩ := exists_intBits (Int.natAbs_ne_zero.mpr h0) hle
    have hv := ofInt_toNat h0 hle
    rw [hbits] at hv
    have hback := intBits_magnitude hnorm
    have hpos : magnitude e s ≠ 0 := by
      intro hzero
      rw [hzero] at hback
      have hsmall : intBits 0 = 126 * 2 ^ 23 := by decide
      have hge := hnorm.ge
      omega
    apply congrArg Binary32.mk
    apply UInt32.toNat_inj.mp
    show (ofInt (ofInt v).toInt).bits.toNat = (ofInt v).bits.toNat
    by_cases hneg : v < 0
    · have hint : (ofInt v).toInt = -(magnitude e s : ℤ) := by
        rw [toInt_eq (n := true) hnorm he (by rw [hv, if_pos hneg]; rfl)]
        simp only [if_true]
        omega
      rw [hint, ofInt_toNat (by omega) (by omega), hv, if_pos (by omega), if_pos hneg,
        Int.natAbs_neg, Int.natAbs_natCast, hback]
    · have hint : (ofInt v).toInt = min 2147483647 (magnitude e s : ℤ) := by
        rw [toInt_eq (n := false) hnorm he (by rw [hv, if_neg hneg]; rfl)]
        rfl
      rw [hv, if_neg hneg, Nat.zero_add, ← hback]
      rcases Nat.lt_or_eq_of_le hmag with hlt | heq
      · rw [hint, min_eq_right (by omega), ofInt_toNat (by omega) (by omega), if_neg (by omega),
          Int.natAbs_natCast, Nat.zero_add]
      · -- the largest integer rounds up to the same number again
        rw [hint, heq]
        decide

/-- Small integers are exact. -/
theorem toInt_ofInt {v : ℤ} (h : v.natAbs < 2 ^ 24) : (ofInt v).toInt = v := by
  by_cases h0 : v = 0
  · rw [h0, ofInt_zero, toInt_zero]
  · rcases normal_of_lt (Int.natAbs_ne_zero.mpr h0) h with ⟨hlog, hnorm, hmag⟩
    have hv := ofInt_toNat h0 (by omega)
    rw [intBits, if_pos hlog] at hv
    by_cases hneg : v < 0
    · rw [toInt_eq (n := true) hnorm (by omega) (by rw [hv, if_pos hneg]; rfl), hmag]
      simp only [if_true]
      omega
    · rw [toInt_eq (n := false) hnorm (by omega) (by rw [hv, if_neg hneg]; rfl), hmag]
      simp only [Bool.false_eq_true, if_false]
      omega

/-- The result of a conversion is an `int`. -/
theorem toInt_bounds (x : Binary32) : -2147483648 ≤ x.toInt ∧ x.toInt ≤ 2147483647 := by
  simp only [toInt]
  split
  · decide
  · split <;> omega

end Binary32
