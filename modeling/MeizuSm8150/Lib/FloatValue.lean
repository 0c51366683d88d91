import MeizuSm8150.Lib.Binary32
import MeizuSm8150.Lib.FloatFormat

/-!
# The value of a bit pattern

What the bits of a `float` stand for as a number of the format. The conversion from `int` on the
bits is the rounding of the format, and the one to `int` cuts the value.
-/

namespace Binary32

open FloatFormat Format

/-- The number without its sign, of a pattern whose exponent is not that of the infinities. -/
def absValue (x : Binary32) : ℚ :=
  if x.exponent = 0 then x.fraction * 2 ^ (-149 : ℤ)
  else (2 ^ 23 + x.fraction : ℕ) * 2 ^ ((x.exponent : ℤ) - 150)

def value (x : Binary32) : ℚ := if x.negative then -x.absValue else x.absValue

theorem value_zero : value zero = 0 := by
  have hexp : zero.exponent = 0 := by decide
  have hfrac : zero.fraction = 0 := by decide
  have hneg : zero.negative = false := by decide
  simp [value, absValue, hexp, hfrac, hneg]

theorem absValue_nonneg (x : Binary32) : 0 ≤ x.absValue := by
  unfold absValue
  by_cases h : x.exponent = 0
  · rw [if_pos h]
    positivity
  · rw [if_neg h]
    exact mul_nonneg (Nat.cast_nonneg _) (two_zpow_pos _).le

/-! ## From integers -/

/-- Both roundings look at the same remainder. -/
theorem roundShift_eq_nearestEven (m k : ℕ) :
    (roundShift m k : ℤ) = nearestEven ((m : ℚ) / 2 ^ k) := by
  have hpos : (0 : ℚ) < 2 ^ k := by positivity
  have hlt : m % 2 ^ k < 2 ^ k := Nat.mod_lt _ (Nat.two_pow_pos k)
  have hm : (m : ℚ) = 2 ^ k * (m / 2 ^ k : ℕ) + (m % 2 ^ k : ℕ) := by
    exact_mod_cast (Nat.div_add_mod m (2 ^ k)).symm
  rw [roundShift]
  generalize m / 2 ^ k = q at *
  generalize m % 2 ^ k = r at *
  have hlt' : (r : ℚ) < 2 ^ k := by exact_mod_cast hlt
  have hsplit : (m : ℚ) / 2 ^ k = q + r / 2 ^ k := by
    rw [hm, add_div, mul_div_cancel_left₀ _ hpos.ne']
  have hfloor : ⌊(m : ℚ) / 2 ^ k⌋ = q := by
    rw [hsplit, Int.floor_eq_iff]
    constructor
    · exact le_add_of_nonneg_right (by positivity)
    · exact add_lt_add_right ((div_lt_one hpos).mpr hlt') _
  have hdown : GoesDown ((m : ℚ) / 2 ^ k) ↔ 2 * r < 2 ^ k ∨ 2 * r = 2 ^ k ∧ q % 2 = 0 := by
    have hrest : 2 * ((m : ℚ) / 2 ^ k - q) = (2 * r : ℕ) / 2 ^ k := by
      rw [hsplit]
      push_cast
      ring
    unfold GoesDown
    rw [hfloor, Int.cast_natCast, hrest, div_lt_one hpos, div_eq_one_iff_eq hpos.ne']
    refine or_congr ?_ (and_congr ?_ ?_)
    · exact_mod_cast Iff.rfl
    · exact_mod_cast Iff.rfl
    · omega
  rw [nearestEven, hfloor]
  by_cases h : GoesDown ((m : ℚ) / 2 ^ k)
  · rw [if_pos h, if_pos (hdown.mp h)]
  · rw [if_neg h, if_neg fun hbits => h (hdown.mpr hbits), Nat.cast_add_one]

/-- A significand of up to `2 ^ 24`, where the last is carried into the exponent. -/
theorem value_eq {x : Binary32} {n : Bool} {e s : ℕ} (hge : 2 ^ 23 ≤ s) (hle : s ≤ 2 ^ 24)
    (he : e ≤ 31) (hx : x.bits.toNat = (if n then 2 ^ 31 else 0) + ((e + 126) * 2 ^ 23 + s)) :
    x.value = (if n then -1 else 1) * (s * 2 ^ ((e : ℤ) - 23)) := by
  have hneg : x.negative = n := by
    rw [negative, hx]
    cases n
    · simp
      omega
    · simp
  have hmagnitude : (2 ^ 23 + x.fraction : ℕ) * (2 : ℚ) ^ ((x.exponent : ℤ) - 150)
      = s * 2 ^ ((e : ℤ) - 23) := by
    rcases Nat.lt_or_eq_of_le hle with hlt | heq
    · have hexp : x.exponent = e + 127 := by
        rw [exponent, hx]
        split <;> omega
      have hfrac : 2 ^ 23 + x.fraction = s := by
        rw [fraction, hx]
        split <;> omega
      rw [hfrac, hexp, show ((e + 127 : ℕ) : ℤ) - 150 = e - 23 by omega]
    · have hexp : x.exponent = e + 128 := by
        rw [exponent, hx]
        split <;> omega
      have hfrac : x.fraction = 0 := by
        rw [fraction, hx]
        split <;> omega
      have hpow : (2 : ℚ) ^ ((e : ℤ) - 22) = 2 * 2 ^ ((e : ℤ) - 23) := by
        rw [show (e : ℤ) - 22 = (e - 23) + 1 by omega, zpow_add_one₀ (by norm_num), mul_comm]
      rw [hfrac, hexp, heq, show ((e + 128 : ℕ) : ℤ) - 150 = e - 22 by omega, hpow]
      norm_num
      ring
  have hpos : x.exponent ≠ 0 := by
    rw [exponent, hx]
    split <;> omega
  rw [value, absValue, if_neg hpos, hmagnitude, hneg]
  cases n
  · simp
  · simp

/-- The rounding of the format for an integer of more digits than it has. -/
theorem round_natCast {m : ℕ} (h0 : m ≠ 0) (h : 23 ≤ m.log2) :
    binary32.round m = (roundShift m (m.log2 - 23) : ℕ) * 2 ^ ((m.log2 : ℤ) - 23) := by
  have hm : (m : ℚ) ≠ 0 := by exact_mod_cast h0
  have hlog : Int.log 2 |(m : ℚ)| = m.log2 := by
    rw [Nat.abs_cast, Int.log_natCast, Nat.log2_eq_log_two]
  have hexp : binary32.exponent m = (m.log2 : ℤ) - 23 := by
    rw [exponent_of_ne hm, hlog]
    simp only [binary32]
    omega
  have hpow : (2 : ℚ) ^ ((m.log2 : ℤ) - 23) = 2 ^ (m.log2 - 23) := by
    rw [← zpow_natCast]
    congr 1
    omega
  rw [Format.round, hexp, roundTo, hpow, ← roundShift_eq_nearestEven, Int.cast_natCast]

/-- An integer with its digits to spare is a number of the format. -/
theorem value_ofInt_of_le {v : ℤ} (h0 : v ≠ 0) (hlog : v.natAbs.log2 ≤ 23) :
    (ofInt v).value = (if v < 0 then -1 else 1) * binary32.round v.natAbs := by
  have hm : v.natAbs ≠ 0 := Int.natAbs_ne_zero.mpr h0
  have hlt : v.natAbs < 2 ^ 24 := (Nat.log2_lt hm).mp (by omega)
  have hbits := ofInt_toNat h0 (hlt.le.trans (by decide))
  rcases normal_of_lt hm hlt with ⟨-, hnorm, -⟩
  have hnumber : binary32.IsNumber ((v.natAbs : ℤ) : ℚ) := by
    refine isNumber_intCast (by decide) ?_
    rw [abs_of_nonneg (Int.natCast_nonneg _)]
    exact_mod_cast hlt.le
  have hround := hnumber.round_eq
  rw [Int.cast_natCast] at hround
  have hscale : ((v.natAbs * 2 ^ (23 - v.natAbs.log2) : ℕ) : ℚ) * 2 ^ ((v.natAbs.log2 : ℤ) - 23)
      = v.natAbs := by
    rw [Nat.cast_mul, Nat.cast_pow, Nat.cast_ofNat, mul_assoc, ← zpow_natCast,
      ← zpow_add₀ (by norm_num), show ((23 - v.natAbs.log2 : ℕ) : ℤ) + (v.natAbs.log2 - 23) = 0
        by omega, zpow_zero, mul_one]
  rw [intBits, if_pos hlog] at hbits
  rw [value_eq (n := decide (v < 0)) hnorm.ge hnorm.lt.le (hlog.trans (by decide))
    (by simpa using hbits), hround, hscale]
  simp

/-- The digits of a longer one are rounded. -/
theorem value_ofInt_of_lt {v : ℤ} (hle : v.natAbs ≤ 2 ^ 31) (hlog : 23 < v.natAbs.log2) :
    (ofInt v).value = (if v < 0 then -1 else 1) * binary32.round v.natAbs := by
  have hm : v.natAbs ≠ 0 := by
    intro h0
    rw [h0, Nat.log2_zero] at hlog
    cases hlog
  have hbits := ofInt_toNat (Int.natAbs_ne_zero.mp hm) hle
  have hlog' : v.natAbs.log2 ≤ 31 := by
    have hlt := (Nat.log2_lt hm).mpr (show v.natAbs < 2 ^ 32 by omega)
    omega
  rcases (Nat.log2_eq_iff hm).mp rfl with ⟨hlo, hhi⟩
  have hpow : 2 ^ v.natAbs.log2 = 2 ^ 23 * 2 ^ (v.natAbs.log2 - 23) := by
    rw [← pow_add]
    congr 1
    omega
  have hge : 2 ^ 23 ≤ roundShift v.natAbs (v.natAbs.log2 - 23) := le_roundShift (hpow ▸ hlo)
  have hle24 : roundShift v.natAbs (v.natAbs.log2 - 23) ≤ 2 ^ 24 := by
    apply roundShift_le
    calc v.natAbs < 2 ^ v.natAbs.log2 * 2 := hhi
      _ = 2 ^ 24 * 2 ^ (v.natAbs.log2 - 23) := by rw [hpow, Nat.mul_right_comm]; rfl
  rw [intBits, if_neg (Nat.not_le.mpr hlog)] at hbits
  rw [value_eq (n := decide (v < 0)) hge hle24 hlog' (by simpa using hbits),
    round_natCast hm hlog.le]
  simp

theorem value_ofInt_natAbs {v : ℤ} (h0 : v ≠ 0) (hle : v.natAbs ≤ 2 ^ 31) :
    (ofInt v).value = (if v < 0 then -1 else 1) * binary32.round v.natAbs := by
  by_cases hlog : v.natAbs.log2 ≤ 23
  · exact value_ofInt_of_le h0 hlog
  · exact value_ofInt_of_lt hle (Nat.not_le.mp hlog)

/-- On the bits as in the format: the nearest number, ties to even. -/
theorem value_ofInt {v : ℤ} (hle : v.natAbs ≤ 2 ^ 31) : (ofInt v).value = binary32.round v := by
  by_cases h0 : v = 0
  · rw [h0, ofInt_zero, value_zero, Int.cast_zero, round_zero]
  · rw [value_ofInt_natAbs h0 hle]
    by_cases hneg : v < 0
    · have hcast : (v : ℚ) = -(v.natAbs : ℚ) := by
        rw [← Int.cast_natCast, ← Int.cast_neg, show -(v.natAbs : ℤ) = v by omega]
      rw [if_pos hneg, hcast, round_neg, neg_one_mul]
    · have hcast : (v : ℚ) = (v.natAbs : ℚ) := by
        rw [← Int.cast_natCast, show (v.natAbs : ℤ) = v by omega]
      rw [if_neg hneg, hcast, one_mul]

/-! ## To integers -/

theorem natCast_div_eq_floor (s k : ℕ) : ((s / 2 ^ k : ℕ) : ℤ) = ⌊(s : ℚ) * 2 ^ (-(k : ℤ))⌋ := by
  rw [zpow_neg, zpow_natCast, ← div_eq_mul_inv]
  have h := Rat.floor_intCast_div_natCast s (2 ^ k)
  push_cast at h ⊢
  exact h.symm

/-- The digits in front of the point. -/
theorem natCast_eq_floor_absValue (x : Binary32) :
    ((if 150 ≤ x.exponent then (2 ^ 23 + x.fraction) * 2 ^ (x.exponent - 150)
      else (2 ^ 23 + x.fraction) / 2 ^ (150 - x.exponent) : ℕ) : ℤ) = ⌊x.absValue⌋ := by
  have hfrac : x.fraction < 2 ^ 23 := Nat.mod_lt _ (by decide)
  unfold absValue
  by_cases hzero : x.exponent = 0
  · -- below the least exponent there are none
    have hsmall : (x.fraction : ℚ) * 2 ^ (-149 : ℤ) < 1 := by
      have hlt : (x.fraction : ℚ) < 2 ^ 23 := by exact_mod_cast hfrac
      calc (x.fraction : ℚ) * 2 ^ (-149 : ℤ) ≤ 2 ^ 23 * 2 ^ (-149 : ℤ) :=
            mul_le_mul_of_nonneg_right hlt.le (by positivity)
        _ < 1 := by norm_num
    have hdiv : (2 ^ 23 + x.fraction) / 2 ^ 150 = 0 := Nat.div_eq_of_lt (by omega)
    rw [if_pos hzero, hzero, if_neg (by decide), Nat.sub_zero, hdiv]
    exact (Int.floor_eq_iff.mpr ⟨by push_cast; positivity, by simpa using hsmall⟩).symm
  · rw [if_neg hzero]
    by_cases hlarge : 150 ≤ x.exponent
    · have hpow : (2 : ℚ) ^ ((x.exponent : ℤ) - 150) = (2 ^ (x.exponent - 150) : ℕ) := by
        rw [Nat.cast_pow, Nat.cast_ofNat, ← zpow_natCast]
        congr 1
        omega
      rw [if_pos hlarge, hpow, ← Nat.cast_mul, Int.floor_natCast]
    · rw [if_neg hlarge, natCast_div_eq_floor, show (x.exponent : ℤ) - 150
        = -((150 - x.exponent : ℕ) : ℤ) by omega]

/-- What is cut off a number is its fraction. -/
theorem toInt_eq_trunc {x : Binary32} (hfinite : x.exponent ≠ 255)
    (hlo : -2147483648 ≤ trunc x.value) (hhi : trunc x.value ≤ 2147483647) :
    x.toInt = trunc x.value := by
  have hdigits := natCast_eq_floor_absValue x
  have h0 := x.absValue_nonneg
  rw [toInt, if_neg fun h => hfinite h.1, hdigits]
  unfold value at hlo hhi ⊢
  by_cases hneg : x.negative = true
  · rw [if_pos hneg] at hlo ⊢
    rw [if_pos hneg, trunc_neg, trunc, if_pos h0]
    rw [trunc_neg, trunc, if_pos h0] at hlo
    exact max_eq_right hlo
  · rw [if_neg hneg] at hhi ⊢
    rw [if_neg hneg, trunc, if_pos h0]
    rw [trunc, if_pos h0] at hhi
    exact min_eq_right hhi

end Binary32
