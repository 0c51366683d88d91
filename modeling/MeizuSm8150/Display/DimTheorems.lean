import MeizuSm8150.Display.FingerprintInscreen
import Mathlib.Analysis.SpecialFunctions.Pow.Real

/-!
# The amount to dim by

What `getDimAmount` returns is `255 * (1 - (brightness / 1023) ^ 0.455)` in floating point,
rounded towards zero. Of `pow` it needs a result within one part in `2 ^ 50` of the power. That is
much finer than the numbers of `float` are apart, so a brighter panel is never dimmed more
(`dimAmount_antitone`), and the error of all steps together is small (`dimAmount_accurate`).
-/

namespace MeizuSm8150.Display

open CMachine CDecimal FloatFormat Format

/-- `pow` is given the exponent `0.455` and returns the power of `x` up to one part in
`2 ^ 50`. -/
def AccurateAt (pow : ℚ → ℚ → Option ℚ) (x : ℚ) : Prop :=
  ∃ p, pow x dimExponent = some p ∧
    |(p : ℝ) - (x : ℝ) ^ (dimExponent : ℝ)| ≤ (x : ℝ) ^ (dimExponent : ℝ) / 2 ^ 50

/-! ## The exponent -/

theorem dimExponent_bounds : 1 / 4 ≤ dimExponent ∧ dimExponent ≤ 1 := by
  have hquarter : binary64.IsNumber (2 ^ (-2 : ℤ)) := isNumber_two_zpow (by decide)
  have hone : binary64.IsNumber (2 ^ (0 : ℤ)) := isNumber_two_zpow (by decide)
  constructor
  · calc (1 / 4 : ℚ) = binary64.round (2 ^ (-2 : ℤ)) := by rw [hquarter.round_eq]; norm_num
      _ ≤ dimExponent := round_mono (by norm_num)
  · calc dimExponent ≤ binary64.round (2 ^ (0 : ℤ)) := round_mono (by norm_num)
      _ = 1 := by rw [hone.round_eq, zpow_zero]

theorem real_dimExponent_bounds : 1 / 4 ≤ (dimExponent : ℝ) ∧ (dimExponent : ℝ) ≤ 1 := by
  have hlo : ((1 / 4 : ℚ) : ℝ) ≤ dimExponent := Rat.cast_le.mpr dimExponent_bounds.1
  have hhi : (dimExponent : ℝ) ≤ (1 : ℚ) := Rat.cast_le.mpr dimExponent_bounds.2
  push_cast at hlo hhi
  exact ⟨hlo, hhi⟩

section Power
variable {s : ℝ}

/-- Powers of different numbers of `float` are apart by much more than the error of `pow`. -/
theorem rpow_gap (hs : 1 / 4 ≤ s) {x y : ℝ} (hx : 0 ≤ x) (h : x + x / 2 ^ 24 ≤ y) :
    x ^ s * (1 + 1 / 2 ^ 27) ≤ y ^ s := by
  have hs0 : 0 ≤ s := by linarith
  -- in the worst case the power is a fourth root
  have hfour : (1 + 1 / 2 ^ 27 : ℝ) ^ (4 : ℝ) ≤ 1 + 1 / 2 ^ 24 := by
    rw [show (4 : ℝ) = (4 : ℕ) by norm_num, Real.rpow_natCast]
    norm_num
  have hgrow : (1 + 1 / 2 ^ 27 : ℝ) ≤ (1 + 1 / 2 ^ 24) ^ s := by
    calc (1 + 1 / 2 ^ 27 : ℝ) = (1 + 1 / 2 ^ 27) ^ (1 : ℝ) := (Real.rpow_one _).symm
      _ ≤ (1 + 1 / 2 ^ 27) ^ (4 * s) :=
          Real.rpow_le_rpow_of_exponent_le (by norm_num) (by linarith)
      _ = ((1 + 1 / 2 ^ 27) ^ (4 : ℝ)) ^ s := Real.rpow_mul (by norm_num) 4 s
      _ ≤ (1 + 1 / 2 ^ 24) ^ s := Real.rpow_le_rpow (by positivity) hfour hs0
  calc x ^ s * (1 + 1 / 2 ^ 27) ≤ x ^ s * (1 + 1 / 2 ^ 24) ^ s :=
        mul_le_mul_of_nonneg_left hgrow (Real.rpow_nonneg hx s)
    _ = (x * (1 + 1 / 2 ^ 24)) ^ s := (Real.mul_rpow hx (by norm_num)).symm
    _ ≤ y ^ s := Real.rpow_le_rpow (by positivity) (by linarith) hs0

/-- A power with an exponent of at most one is not larger than its base, or than one. -/
theorem rpow_le_of_le (hs0 : 0 ≤ s) (hs : s ≤ 1) {x B : ℝ} (hx : 0 ≤ x) (hB : 1 ≤ B)
    (h : x ≤ B) : x ^ s ≤ B := by
  calc x ^ s ≤ B ^ s := Real.rpow_le_rpow hx h hs0
    _ ≤ B ^ (1 : ℝ) := Real.rpow_le_rpow_of_exponent_le hB hs
    _ = B := Real.rpow_one B

/-- A relative error of the base is at least as large as that of the power. -/
theorem abs_rpow_sub_le (hs0 : 0 ≤ s) (hs : s ≤ 1) {x y u : ℝ} (hx : 0 ≤ x) (hu0 : 0 ≤ u)
    (hu : u ≤ 1) (h : |y - x| ≤ x * u) : |y ^ s - x ^ s| ≤ x ^ s * u := by
  rcases abs_le.mp h with ⟨hlo, hhi⟩
  have hpow := Real.rpow_nonneg hx s
  have hup : (1 + u) ^ s ≤ 1 + u := rpow_le_of_le hs0 hs (by linarith) (by linarith) le_rfl
  have hdown : 1 - u ≤ (1 - u) ^ s := by
    calc 1 - u = (1 - u) ^ (1 : ℝ) := (Real.rpow_one _).symm
      _ ≤ (1 - u) ^ s := by
          rcases eq_or_lt_of_le hu with rfl | hlt
          · rw [sub_self, Real.zero_rpow one_ne_zero]
            exact Real.rpow_nonneg le_rfl s
          · exact Real.rpow_le_rpow_of_exponent_ge (by linarith) (by linarith) hs
  have hyup : y ^ s ≤ x ^ s * (1 + u) := by
    calc y ^ s ≤ (x * (1 + u)) ^ s := Real.rpow_le_rpow (by nlinarith) (by linarith) hs0
      _ = x ^ s * (1 + u) ^ s := Real.mul_rpow hx (by linarith)
      _ ≤ x ^ s * (1 + u) := mul_le_mul_of_nonneg_left hup hpow
  have hydown : x ^ s * (1 - u) ≤ y ^ s := by
    calc x ^ s * (1 - u) ≤ x ^ s * (1 - u) ^ s := mul_le_mul_of_nonneg_left hdown hpow
      _ = (x * (1 - u)) ^ s := (Real.mul_rpow hx (by linarith)).symm
      _ ≤ y ^ s := Real.rpow_le_rpow (mul_nonneg hx (by linarith)) (by linarith) hs0
  rw [abs_le]
  constructor <;> linarith

end Power

/-! ## The steps -/

/-- The quotient, where the conversion to `float` rounds. -/
def ratio (b : ℤ) : ℚ := binary32.round (binary32.round b / 1023)

theorem ratio_mono {b b' : ℤ} (h : b ≤ b') : ratio b ≤ ratio b' := by
  have hcast : (b : ℚ) ≤ b' := by exact_mod_cast h
  exact round_mono (div_le_div_of_nonneg_right (round_mono hcast) (by norm_num))

theorem ratio_nonneg {b : ℤ} (h : 0 ≤ b) : 0 ≤ ratio b :=
  round_nonneg (div_nonneg (round_nonneg (by exact_mod_cast h)) (by norm_num))

theorem abs_round_int_le {b : ℤ} (h0 : 0 ≤ b) (hmax : b ≤ intMax) :
    |(b : ℚ)| ≤ 2 ^ (31 : ℤ) ∧ |binary32.round b / 1023| ≤ 2 ^ (22 : ℤ) := by
  have hb : |(b : ℚ)| ≤ 2 ^ (31 : ℤ) := by
    have hle : b ≤ 2147483648 := by simp only [intMax] at hmax; omega
    rw [abs_of_nonneg (by exact_mod_cast h0)]
    norm_num
    exact_mod_cast hle
  have hround := (isNumber_two_zpow (F := binary32) (k := 31) (by decide)).abs_round_le hb
  refine ⟨hb, ?_⟩
  rw [abs_div, abs_of_pos (show (0 : ℚ) < 1023 by norm_num), div_le_iff₀ (by norm_num)]
  norm_num at hround ⊢
  linarith

/-- No brightness is too large for the quotient. -/
theorem brightnessRatio_eq {b : ℤ} (h0 : 0 ≤ b) (hmax : b ≤ intMax) :
    brightnessRatio b = some (ratio b) := by
  rcases abs_round_int_le h0 hmax with ⟨hb, hquot⟩
  rw [brightnessRatio, make_eq (k := 31) (by decide) (by decide) hb]
  exact make_eq (k := 22) (by decide) (by decide) hquot

theorem ratio_le {b : ℤ} (h0 : 0 ≤ b) (hmax : b ≤ intMax) : ratio b ≤ 2 ^ (22 : ℤ) :=
  (abs_le.mp ((isNumber_two_zpow (by decide)).abs_round_le (abs_round_int_le h0 hmax).2)).2

/-- The product before it is converted to an integer. -/
def dim (p : ℚ) : ℚ := binary32.round (255 * binary32.round (binary64.round (1 - p)))

theorem dim_antitone {p p' : ℚ} (h : p ≤ p') : dim p' ≤ dim p := by
  have hdiff : 1 - p' ≤ 1 - p := by linarith
  exact round_mono (mul_le_mul_of_nonneg_left (round_mono (round_mono hdiff)) (by norm_num))

theorem dim_zero : dim 0 = 255 := by
  have hone : binary64.IsNumber ((1 : ℤ) : ℚ) := isNumber_intCast (by decide) (by decide)
  have hone' : binary32.IsNumber ((1 : ℤ) : ℚ) := isNumber_intCast (by decide) (by decide)
  have hfull : binary32.IsNumber ((255 : ℤ) : ℚ) := isNumber_intCast (by decide) (by decide)
  have h64 := hone.round_eq
  have h32 := hone'.round_eq
  have hround := hfull.round_eq
  push_cast at h64 h32 hround
  rw [dim, sub_zero, h64, h32, mul_one, hround]

/-- The roundings of the difference do not cross a power of two. -/
theorem abs_alpha_le {k : ℤ} (hk : -149 ≤ k) {p : ℚ} (h : |1 - p| ≤ 2 ^ k) :
    |binary32.round (binary64.round (1 - p))| ≤ 2 ^ k := by
  have h64 : binary64.IsNumber (2 ^ k) := isNumber_two_zpow (le_trans (by decide) hk)
  have h32 : binary32.IsNumber (2 ^ k) := isNumber_two_zpow hk
  exact h32.abs_round_le (h64.abs_round_le h)

/-- Up to `2 ^ 23` no step leaves the finite numbers. -/
theorem dimOfPower_eq {p : ℚ} (h0 : 0 ≤ p) (hle : p ≤ 2 ^ (23 : ℤ)) :
    dimOfPower p = some (trunc (dim p)) := by
  have hdiff : |1 - p| ≤ 2 ^ (23 : ℤ) := by
    rw [abs_le]
    norm_num at hle ⊢
    constructor <;> linarith
  have h64 := (isNumber_two_zpow (F := binary64) (k := 23) (by decide)).abs_round_le hdiff
  have h32 := abs_alpha_le (by decide) hdiff
  have hlarge : binary32.IsNumber (255 * 2 ^ (23 : ℤ)) := by
    refine isNumber_of_onGrid (e := 23) (by decide) ⟨255, by norm_num⟩ ?_
    simp only [binary32]
    norm_num
  have hprod : |255 * binary32.round (binary64.round (1 - p))| ≤ 255 * 2 ^ (23 : ℤ) := by
    rw [abs_mul, abs_of_pos (show (0 : ℚ) < 255 by norm_num)]
    exact mul_le_mul_of_nonneg_left h32 (by norm_num)
  have hdim := abs_le.mp (hlarge.abs_round_le hprod)
  have hfits : FitsInt (trunc (dim p)) := by
    have hlo := trunc_mono hdim.1
    have hhi := trunc_mono hdim.2
    rw [show -(255 * 2 ^ (23 : ℤ)) = ((-2139095040 : ℤ) : ℚ) by norm_num, trunc_intCast] at hlo
    rw [show 255 * 2 ^ (23 : ℤ) = ((2139095040 : ℤ) : ℚ) by norm_num, trunc_intCast] at hhi
    simp only [FitsInt, intMax]
    constructor
    · exact le_trans (by norm_num) hlo
    · exact le_trans hhi (by norm_num)
  have hprod' : |255 * binary32.round (binary64.round (1 - p))| ≤ 2 ^ (31 : ℤ) :=
    hprod.trans (by norm_num)
  -- each result is below a power of two that the format can hold
  rw [dimOfPower, make_eq (k := 23) (by decide) (by decide) hdiff]
  simp only [bind, Option.bind_some]
  rw [make_eq (k := 23) (by decide) (by decide) h64]
  simp only [Option.bind_some]
  rw [make_eq (k := 31) (by decide) (by decide) hprod']
  simp only [Option.bind_some]
  exact if_pos hfits

/-- With an accurate `pow` every step has a result. -/
theorem AccurateAt.dimAmount_eq {pow : ℚ → ℚ → Option ℚ} {b : ℤ} (h : AccurateAt pow (ratio b))
    (h0 : 0 ≤ b) (hmax : b ≤ intMax) :
    ∃ p, pow (ratio b) dimExponent = some p ∧
      |(p : ℝ) - (ratio b : ℝ) ^ (dimExponent : ℝ)| ≤
        (ratio b : ℝ) ^ (dimExponent : ℝ) / 2 ^ 50 ∧
      0 ≤ p ∧ dimAmount pow b = some (trunc (dim p)) := by
  obtain ⟨p, hp, hacc⟩ := h
  rcases real_dimExponent_bounds with ⟨hs, hs1⟩
  have hx : (0 : ℝ) ≤ ratio b := by exact_mod_cast ratio_nonneg h0
  have hpow := Real.rpow_nonneg hx dimExponent
  have hle : (ratio b : ℝ) ^ (dimExponent : ℝ) ≤ 2 ^ 22 :=
    rpow_le_of_le (by linarith) hs1 hx (by norm_num) (by exact_mod_cast ratio_le h0 hmax)
  have hbounds := abs_le.mp hacc
  have hp0 : (0 : ℝ) ≤ p := by linarith [hbounds.1]
  have hp23 : (p : ℝ) ≤ 2 ^ 23 := by linarith [hbounds.2]
  refine ⟨p, hp, hacc, by exact_mod_cast hp0, ?_⟩
  simp only [dimAmount, brightnessRatio_eq h0 hmax, bind, Option.bind_some, hp]
  exact dimOfPower_eq (by exact_mod_cast hp0) (by exact_mod_cast hp23)

/-! ## Order -/

/-- `pow` does not put two numbers of `float` in the wrong order. -/
theorem pow_mono {x y p q : ℚ} (hx : binary32.IsNumber x) (hy : binary32.IsNumber y) (h0 : 0 ≤ x)
    (h : x < y)
    (hp : |(p : ℝ) - (x : ℝ) ^ (dimExponent : ℝ)| ≤ (x : ℝ) ^ (dimExponent : ℝ) / 2 ^ 50)
    (hq : |(q : ℝ) - (y : ℝ) ^ (dimExponent : ℝ)| ≤ (y : ℝ) ^ (dimExponent : ℝ) / 2 ^ 50) :
    p ≤ q := by
  have hs := real_dimExponent_bounds.1
  have hx0 : (0 : ℝ) ≤ x := by exact_mod_cast h0
  have hxy : (x : ℝ) + x / 2 ^ 24 ≤ y := by exact_mod_cast hx.gap hy h0 h
  have hgap := rpow_gap hs hx0 hxy
  have hpow := Real.rpow_nonneg hx0 dimExponent
  have hp' := (abs_le.mp hp).2
  have hq' := (abs_le.mp hq).1
  have hle : (p : ℝ) ≤ q := by linarith
  exact_mod_cast hle

theorem ratio_full : ratio 1023 = 1 := by
  have hfull : binary32.IsNumber ((1023 : ℤ) : ℚ) := isNumber_intCast (by decide) (by decide)
  have hone : binary32.IsNumber ((1 : ℤ) : ℚ) := isNumber_intCast (by decide) (by decide)
  have h1023 := hfull.round_eq
  have h1 := hone.round_eq
  push_cast at h1023 h1
  rw [ratio]
  push_cast
  rw [h1023, div_self (by norm_num), h1]

/-- A power within `2 ^ (-50)` of one has a product within `2 ^ (-42)` of zero. -/
theorem abs_dim_lt_one {p : ℚ} (h : |1 - p| ≤ 2 ^ (-50 : ℤ)) : |dim p| < 1 := by
  have halpha := abs_alpha_le (by decide) h
  have hprod : |255 * binary32.round (binary64.round (1 - p))| ≤ 2 ^ (-42 : ℤ) := by
    rw [abs_mul, abs_of_pos (show (0 : ℚ) < 255 by norm_num)]
    norm_num at halpha ⊢
    linarith
  have hnum : binary32.IsNumber (2 ^ (-42 : ℤ)) := isNumber_two_zpow (by decide)
  calc |dim p| ≤ 2 ^ (-42 : ℤ) := hnum.abs_round_le hprod
    _ < 1 := by norm_num

/-- The error of `pow` at the top is lost in the conversion to an integer. -/
theorem neg_one_lt_dim {p : ℚ} (h : p ≤ 1 + 2 ^ (-50 : ℤ)) : -1 < dim p := by
  have htop : |1 - (1 + 2 ^ (-50 : ℤ))| ≤ (2 ^ (-50 : ℤ) : ℚ) := by norm_num
  calc -1 < dim (1 + 2 ^ (-50 : ℤ)) := (abs_lt.mp (abs_dim_lt_one htop)).1
    _ ≤ dim p := dim_antitone h

section Amount
variable {pow : ℚ → ℚ → Option ℚ} {b b' d d' : ℤ}

/-- Within the range of the panel `pow` returns at most one, up to its error. -/
theorem power_le_of_accurate (h0 : 0 ≤ b) (hle : b ≤ 1023) {p : ℚ}
    (hacc : |(p : ℝ) - (ratio b : ℝ) ^ (dimExponent : ℝ)| ≤
      (ratio b : ℝ) ^ (dimExponent : ℝ) / 2 ^ 50) : p ≤ 1 + 2 ^ (-50 : ℤ) := by
  rcases real_dimExponent_bounds with ⟨hs, hs1⟩
  have hx : (0 : ℝ) ≤ ratio b := by exact_mod_cast ratio_nonneg h0
  have hr : ratio b ≤ 1 := ratio_full ▸ ratio_mono hle
  have hle1 := rpow_le_of_le (by linarith) hs1 hx le_rfl (by exact_mod_cast hr)
  have hreal : (p : ℝ) ≤ (1 + 2 ^ (-50 : ℤ) : ℚ) := by
    norm_num
    linarith [(abs_le.mp hacc).2]
  exact Rat.cast_le.mp hreal

theorem dimAmount_le_max (h0 : 0 ≤ b) (hmax : b ≤ intMax) (hpow : AccurateAt pow (ratio b)) :
    ∃ d, dimAmount pow b = some d ∧ d ≤ 255 := by
  obtain ⟨p, -, -, hp0, hd⟩ := hpow.dimAmount_eq h0 hmax
  refine ⟨_, hd, ?_⟩
  calc trunc (dim p) ≤ trunc (dim 0) := trunc_mono (dim_antitone hp0)
    _ = 255 := by rw [dim_zero, show (255 : ℚ) = ((255 : ℤ) : ℚ) by norm_num, trunc_intCast]

theorem dimAmount_le_of_le (h0 : 0 ≤ b) (hle : b ≤ b') (hmax : b' ≤ intMax)
    (hpow : AccurateAt pow (ratio b)) (hpow' : AccurateAt pow (ratio b'))
    (hd : dimAmount pow b = some d) (hd' : dimAmount pow b' = some d') : d' ≤ d := by
  obtain ⟨p, hp, hacc, -, heq⟩ := hpow.dimAmount_eq h0 (hle.trans hmax)
  obtain ⟨p', hp', hacc', -, heq'⟩ := hpow'.dimAmount_eq (h0.trans hle) hmax
  obtain rfl := Option.some.inj (heq.symm.trans hd)
  obtain rfl := Option.some.inj (heq'.symm.trans hd')
  -- quotients that are rounded to the same number have the same power
  have hpp : p ≤ p' := by
    rcases lt_or_eq_of_le (ratio_mono hle) with hlt | hratio
    · exact pow_mono (isNumber_round _) (isNumber_round _) (ratio_nonneg h0) hlt hacc hacc'
    · rw [hratio, hp'] at hp
      exact (Option.some.inj hp).ge
  exact trunc_mono (dim_antitone hpp)

theorem dimAmount_zero (hpow : AccurateAt pow (ratio 0)) : dimAmount pow 0 = some 255 := by
  obtain ⟨p, -, hacc, hp0, hd⟩ := hpow.dimAmount_eq le_rfl (by decide)
  have hp1 : p ≤ 0 := by
    have hzero : ratio 0 = 0 := by rw [ratio, Int.cast_zero, round_zero, zero_div, round_zero]
    rw [hzero, Rat.cast_zero, Real.zero_rpow (by linarith [real_dimExponent_bounds.1]), zero_div,
      sub_zero] at hacc
    exact_mod_cast abs_nonpos_iff.mp hacc |>.le
  rw [hd, le_antisymm hp1 hp0, dim_zero, show (255 : ℚ) = ((255 : ℤ) : ℚ) by norm_num,
    trunc_intCast]

theorem dimAmount_nonneg (h0 : 0 ≤ b) (hle : b ≤ 1023) (hpow : AccurateAt pow (ratio b))
    (hd : dimAmount pow b = some d) : 0 ≤ d := by
  obtain ⟨p, -, hacc, -, heq⟩ := hpow.dimAmount_eq h0 (hle.trans (by decide))
  obtain rfl := Option.some.inj (heq.symm.trans hd)
  exact trunc_nonneg (neg_one_lt_dim (power_le_of_accurate h0 hle hacc))

theorem dimAmount_max (hpow : AccurateAt pow (ratio 1023)) : dimAmount pow 1023 = some 0 := by
  obtain ⟨p, -, hacc, -, hd⟩ := hpow.dimAmount_eq (by decide) (by decide)
  rw [ratio_full, Rat.cast_one, Real.one_rpow] at hacc
  have hreal : ((|1 - p| : ℚ) : ℝ) ≤ (2 ^ (-50 : ℤ) : ℚ) := by
    rw [abs_sub_comm]
    norm_num at hacc ⊢
    exact hacc
  rw [hd, trunc_eq_zero (abs_dim_lt_one (Rat.cast_le.mp hreal))]

end Amount

/-- A brighter panel is never dimmed more, a dark one is dimmed by 255 and a full one not at
all. -/
theorem dimAmount_antitone (pow : ℚ → ℚ → Option ℚ) {b b' : ℤ} (h0 : 0 ≤ b) (hle : b ≤ b')
    (hmax : b' ≤ intMax) (hpow : AccurateAt pow (ratio b)) (hpow' : AccurateAt pow (ratio b')) :
    ∃ d d', dimAmount pow b = some d ∧ dimAmount pow b' = some d' ∧ d' ≤ d ∧ d ≤ 255 ∧
      (b = 0 → d = 255) ∧ (b' ≤ 1023 → 0 ≤ d') ∧ (b' = 1023 → d' = 0) := by
  obtain ⟨d, hd, h255⟩ := dimAmount_le_max h0 (hle.trans hmax) hpow
  obtain ⟨d', hd', -⟩ := dimAmount_le_max (h0.trans hle) hmax hpow'
  refine ⟨d, d', hd, hd', dimAmount_le_of_le h0 hle hmax hpow hpow' hd hd', h255, ?_, ?_, ?_⟩
  · intro hb
    subst hb
    exact Option.some.inj (hd.symm.trans (dimAmount_zero hpow))
  · exact fun hb' => dimAmount_nonneg (h0.trans hle) hb' hpow' hd'
  · intro hb'
    subst hb'
    exact Option.some.inj (hd'.symm.trans (dimAmount_max hpow'))

/-- The powers of zero and one are the numbers themselves. -/
theorem accurateAt_dark : AccurateAt (fun x _ => some x) (ratio 0) := by
  refine ⟨_, rfl, ?_⟩
  have hzero : ratio 0 = 0 := by rw [ratio, Int.cast_zero, round_zero, zero_div, round_zero]
  rw [hzero, Rat.cast_zero, Real.zero_rpow (by linarith [real_dimExponent_bounds.1])]
  norm_num

theorem accurateAt_full : AccurateAt (fun x _ => some x) (ratio 1023) := by
  refine ⟨_, rfl, ?_⟩
  rw [ratio_full, Rat.cast_one, Real.one_rpow]
  norm_num

theorem dimAmount_antitone_ends :
    ∃ d d', dimAmount (fun x _ => some x) 0 = some d ∧
      dimAmount (fun x _ => some x) 1023 = some d' ∧ d' ≤ d ∧ d ≤ 255 ∧
      ((0 : ℤ) = 0 → d = 255) ∧ ((1023 : ℤ) ≤ 1023 → 0 ≤ d') ∧ ((1023 : ℤ) = 1023 → d' = 0) :=
  dimAmount_antitone (fun x _ => some x) le_rfl (by decide) (by decide) accurateAt_dark
    accurateAt_full

/-! ## Accuracy -/

theorem abs_ratio_sub_le {b : ℤ} (h0 : 0 ≤ b) (hle : b ≤ 1023) :
    |ratio b - b / 1023| ≤ b / 1023 * (1 / 2 ^ 24) := by
  have hexact : binary32.IsNumber b := by
    refine isNumber_intCast (by decide) ?_
    rw [abs_of_nonneg h0]
    exact hle.trans (by decide)
  rw [ratio, hexact.round_eq]
  rcases eq_or_lt_of_le h0 with rfl | hpos
  · rw [Int.cast_zero, zero_div, round_zero]
    norm_num
  · have hb : (1 : ℚ) ≤ b := by exact_mod_cast hpos
    have hquot : |(b : ℚ) / 1023| = b / 1023 := abs_of_nonneg (by positivity)
    have hsize : (2 : ℚ) ^ (binary32.emin + binary32.prec) ≤ |(b : ℚ) / 1023| := by
      rw [hquot]
      calc (2 : ℚ) ^ (binary32.emin + binary32.prec) ≤ 1 / 1023 := by
            norm_num [binary32]
        _ ≤ b / 1023 := div_le_div_of_nonneg_right hb (by norm_num)
    have herr := abs_round_sub_le_div hsize
    rw [hquot] at herr
    rw [mul_one_div]
    exact herr

/-- The power of the quotient is as close as `pow` and the rounding of its argument allow. -/
theorem abs_pow_sub_le {b : ℤ} (h0 : 0 ≤ b) (hle : b ≤ 1023) {p : ℚ}
    (hacc : |(p : ℝ) - (ratio b : ℝ) ^ (dimExponent : ℝ)| ≤
      (ratio b : ℝ) ^ (dimExponent : ℝ) / 2 ^ 50) :
    |(p : ℝ) - ((b : ℝ) / 1023) ^ (dimExponent : ℝ)| ≤ 1 / 2 ^ 23 := by
  rcases real_dimExponent_bounds with ⟨hs, hs1⟩
  have hb : (0 : ℝ) ≤ b := by exact_mod_cast h0
  have hb1 : (b : ℝ) ≤ 1023 := by exact_mod_cast hle
  have hratio : |(ratio b : ℝ) - (b : ℝ) / 1023| ≤ (b : ℝ) / 1023 * (1 / 2 ^ 24) := by
    have hcast : ((|ratio b - b / 1023| : ℚ) : ℝ) ≤ (b / 1023 * (1 / 2 ^ 24) : ℚ) :=
      Rat.cast_le.mpr (abs_ratio_sub_le h0 hle)
    push_cast at hcast
    exact hcast
  have hpow : ((b : ℝ) / 1023) ^ (dimExponent : ℝ) ≤ 1 :=
    rpow_le_of_le (by linarith) hs1 (by positivity) le_rfl (by linarith)
  have hr1 : (ratio b : ℝ) ^ (dimExponent : ℝ) ≤ 1 := by
    have hr : ratio b ≤ 1 := ratio_full ▸ ratio_mono hle
    exact rpow_le_of_le (by linarith) hs1 (by exact_mod_cast ratio_nonneg h0) le_rfl
      (by exact_mod_cast hr)
  have hstep := abs_rpow_sub_le (by linarith) hs1 (by positivity) (by norm_num) (by norm_num) hratio
  -- the error of `pow`, and what the rounded quotient does to the power
  calc |(p : ℝ) - ((b : ℝ) / 1023) ^ (dimExponent : ℝ)|
      ≤ |(p : ℝ) - (ratio b : ℝ) ^ (dimExponent : ℝ)| +
        |(ratio b : ℝ) ^ (dimExponent : ℝ) - ((b : ℝ) / 1023) ^ (dimExponent : ℝ)| :=
        abs_sub_le _ _ _
    _ ≤ 1 / 2 ^ 23 := by linarith

/-- The three roundings after `pow`. -/
theorem abs_dim_sub_le {p : ℚ} (h : |1 - p| ≤ 1) : |dim p - 255 * (1 - p)| ≤ 1 / 2 ^ 15 := by
  have h0 : |1 - p| ≤ 2 ^ (0 : ℤ) := by rwa [zpow_zero]
  have hone : binary64.IsNumber (2 ^ (0 : ℤ)) := isNumber_two_zpow (by decide)
  have hdiff := hone.abs_round_le h0
  have halpha := abs_alpha_le (by decide) h0
  have hprod : |255 * binary32.round (binary64.round (1 - p))| ≤ 2 ^ (8 : ℤ) := by
    rw [abs_mul, abs_of_pos (show (0 : ℚ) < 255 by norm_num)]
    norm_num at halpha ⊢
    linarith
  -- each step is off by half a unit of the last digit it keeps
  have e1 : |binary64.round (1 - p) - (1 - p)| ≤ 2 ^ (-53 : ℤ) :=
    abs_round_sub_le (k := 0) (by decide) h0
  have e2 : |binary32.round (binary64.round (1 - p)) - binary64.round (1 - p)| ≤ 2 ^ (-24 : ℤ) :=
    abs_round_sub_le (k := 0) (by decide) hdiff
  have e3 : |dim p - 255 * binary32.round (binary64.round (1 - p))| ≤ 2 ^ (-16 : ℤ) :=
    abs_round_sub_le (k := 8) (by decide) hprod
  norm_num at e1 e2 e3
  rw [abs_le]
  rw [abs_le] at e1 e2 e3
  constructor <;> linarith [e1.1, e1.2, e2.1, e2.2, e3.1, e3.2]

/-- Within the range of the panel the roundings and the error of `pow` together do not change
the result by more than one part in ten thousand, before it is rounded towards zero. -/
theorem dimAmount_accurate (pow : ℚ → ℚ → Option ℚ) {b : ℤ} (h0 : 0 ≤ b) (hle : b ≤ 1023)
    (hpow : AccurateAt pow (ratio b)) :
    ∃ p, pow (ratio b) dimExponent = some p ∧ dimAmount pow b = some (trunc (dim p)) ∧
      |(dim p : ℝ) - 255 * (1 - ((b : ℝ) / 1023) ^ (dimExponent : ℝ))| ≤ 1 / 10000 ∧
      (trunc (dim p) : ℝ) ≤ 255 * (1 - ((b : ℝ) / 1023) ^ (dimExponent : ℝ)) + 1 / 10000 ∧
      255 * (1 - ((b : ℝ) / 1023) ^ (dimExponent : ℝ)) < trunc (dim p) + 1 + 1 / 10000 := by
  obtain ⟨p, hp, hacc, hp0, hd⟩ := hpow.dimAmount_eq h0 (hle.trans (by decide))
  have hb : (0 : ℝ) ≤ b := by exact_mod_cast h0
  have hb1 : (b : ℝ) ≤ 1023 := by exact_mod_cast hle
  rcases real_dimExponent_bounds with ⟨hs, hs1⟩
  have hpow1 : ((b : ℝ) / 1023) ^ (dimExponent : ℝ) ≤ 1 :=
    rpow_le_of_le (by linarith) hs1 (by positivity) le_rfl (by linarith)
  have hpow0 : (0 : ℝ) ≤ p := by exact_mod_cast hp0
  have herr := abs_le.mp (abs_pow_sub_le h0 hle hacc)
  have hsmall : |1 - p| ≤ 1 := by
    have hreal : |1 - (p : ℝ)| ≤ 1 := by
      rw [abs_le]
      constructor <;> linarith [herr.2]
    exact_mod_cast hreal
  have hdim : |(dim p : ℝ) - 255 * (1 - p)| ≤ 1 / 2 ^ 15 := by
    have hcast : ((|dim p - 255 * (1 - p)| : ℚ) : ℝ) ≤ (1 / 2 ^ 15 : ℚ) :=
      Rat.cast_le.mpr (abs_dim_sub_le hsmall)
    push_cast at hcast
    exact hcast
  have hround := abs_le.mp hdim
  have hdiff : |(dim p : ℝ) - 255 * (1 - ((b : ℝ) / 1023) ^ (dimExponent : ℝ))| ≤ 1 / 10000 := by
    rw [abs_le]
    constructor <;> linarith [hround.1, hround.2, herr.1, herr.2]
  have hvalue := abs_le.mp hdiff
  have htrunc : ((trunc (dim p) : ℚ) : ℝ) ≤ (max (dim p) 0 : ℚ) := Rat.cast_le.mpr (trunc_le_max _)
  have htrunc' : (dim p : ℝ) < ((trunc (dim p) + 1 : ℚ) : ℝ) := Rat.cast_lt.mpr (lt_trunc_add_one _)
  push_cast at htrunc htrunc'
  -- cutting moves a negative product up to zero, and any other down by less than one
  refine ⟨p, hp, hd, hdiff, htrunc.trans (max_le ?_ ?_), ?_⟩
  · linarith [hvalue.2]
  · linarith
  · linarith [hvalue.1]

/-- Some `pow` is accurate, since there are rational numbers next to every power. -/
theorem exists_accurateAt {x : ℚ} (hx : 0 < x) : ∃ pow, AccurateAt pow x := by
  have hpow : (0 : ℝ) < (x : ℝ) ^ (dimExponent : ℝ) :=
    Real.rpow_pos_of_pos (by exact_mod_cast hx) _
  obtain ⟨q, hlo, hhi⟩ := exists_rat_btwn (show (x : ℝ) ^ (dimExponent : ℝ) <
    (x : ℝ) ^ (dimExponent : ℝ) + (x : ℝ) ^ (dimExponent : ℝ) / 2 ^ 50 by linarith)
  refine ⟨fun _ _ => some q, q, rfl, ?_⟩
  rw [abs_of_pos (by linarith)]
  linarith

/-- Half way up, where every step rounds. -/
theorem dimAmount_accurate_half : ∃ (pow : ℚ → ℚ → Option ℚ) (p : ℚ),
    pow (ratio 512) dimExponent = some p ∧ dimAmount pow 512 = some (trunc (dim p)) ∧
      |(dim p : ℝ) - 255 * (1 - (((512 : ℤ) : ℝ) / 1023) ^ (dimExponent : ℝ))| ≤ 1 / 10000 := by
  have hratio : 0 < ratio 512 := by
    have hlo := (abs_le.mp (abs_ratio_sub_le (b := 512) (by decide) (by decide))).1
    push_cast at hlo
    linarith
  obtain ⟨pow, hpow⟩ := exists_accurateAt hratio
  obtain ⟨p, hp, hd, hdiff, -⟩ := dimAmount_accurate pow (b := 512) (by decide) (by decide) hpow
  exact ⟨pow, p, hp, hd, hdiff⟩

end MeizuSm8150.Display
