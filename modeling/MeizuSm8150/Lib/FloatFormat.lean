import Mathlib.Data.Int.Log
import Mathlib.Data.Rat.Floor
import Mathlib.Algebra.Order.Field.Rat
import Mathlib.Tactic.Linarith
import Mathlib.Tactic.Ring
import Mathlib.Tactic.NormNum

/-!
# Floating-point formats

The finite numbers of a binary floating-point format are rational numbers. An operation rounds
its exact result to the nearest number of the format, ties to even, and gives no number where
there is no result or it is too large for the format.

Rounding is monotone, leaves the numbers of the format alone, and different numbers are apart
by at least one part in `2 ^ prec`.
-/

namespace FloatFormat

/-! ## Nearest integers -/

/-- `x` is rounded down to `⌊x⌋`. -/
def GoesDown (x : ℚ) : Prop := 2 * (x - ⌊x⌋) < 1 ∨ 2 * (x - ⌊x⌋) = 1 ∧ ⌊x⌋ % 2 = 0

instance (x : ℚ) : Decidable (GoesDown x) := inferInstanceAs (Decidable (_ ∨ _))

/-- The nearest integer, ties to even. -/
def nearestEven (x : ℚ) : ℤ := if GoesDown x then ⌊x⌋ else ⌊x⌋ + 1

theorem le_nearestEven (x : ℚ) : ⌊x⌋ ≤ nearestEven x := by
  unfold nearestEven
  split
  · exact le_refl _
  · exact le_add_of_nonneg_right (by decide)

theorem nearestEven_le (x : ℚ) : nearestEven x ≤ ⌊x⌋ + 1 := by
  unfold nearestEven
  split
  · exact le_add_of_nonneg_right (by decide)
  · exact le_refl _

@[simp] theorem nearestEven_intCast (n : ℤ) : nearestEven n = n := by
  simp [nearestEven, GoesDown]

theorem nearestEven_mono {x y : ℚ} (h : x ≤ y) : nearestEven x ≤ nearestEven y := by
  rcases lt_or_eq_of_le (Int.floor_le_floor h) with hlt | heq
  · calc nearestEven x ≤ ⌊x⌋ + 1 := nearestEven_le x
      _ ≤ ⌊y⌋ := hlt
      _ ≤ nearestEven y := le_nearestEven y
  · -- between the same two integers `x` goes down if `y` does
    by_cases hy : GoesDown y
    · have hx : GoesDown x := by
        unfold GoesDown at hy ⊢
        rw [heq]
        rcases hy with hlt | ⟨htie, heven⟩
        · exact Or.inl (by linarith)
        · rcases lt_or_eq_of_le h with hxy | rfl
          · exact Or.inl (by linarith)
          · exact Or.inr ⟨htie, heven⟩
      rw [nearestEven, nearestEven, if_pos hx, if_pos hy, heq]
    · calc nearestEven x ≤ ⌊x⌋ + 1 := nearestEven_le x
        _ = nearestEven y := by rw [nearestEven, if_neg hy, heq]

theorem nearestEven_neg (x : ℚ) : nearestEven (-x) = -nearestEven x := by
  by_cases hint : (⌊x⌋ : ℚ) = x
  · rw [← hint, ← Int.cast_neg, nearestEven_intCast, nearestEven_intCast]
  · have hlt : (⌊x⌋ : ℚ) < x := lt_of_le_of_ne (Int.floor_le x) hint
    have hfloor : ⌊-x⌋ = -⌊x⌋ - 1 := by
      rw [Int.floor_eq_iff]
      push_cast
      constructor <;> linarith [Int.lt_floor_add_one x]
    -- the fractions of `x` and `-x` add up to one
    have hdown : GoesDown (-x) ↔ ¬ GoesDown x := by
      unfold GoesDown
      rw [hfloor]
      push_cast
      constructor
      · intro h hx
        rcases h with h | ⟨h, heven⟩
        · rcases hx with hx | ⟨hx, -⟩ <;> linarith
        · rcases hx with hx | ⟨-, heven'⟩
          · linarith
          · omega
      · intro h
        rw [not_or, not_and] at h
        rcases lt_or_eq_of_le (not_lt.mp h.1) with hgt | heq
        · exact Or.inl (by linarith)
        · have hodd := h.2 heq.symm
          exact Or.inr ⟨by linarith, by omega⟩
    unfold nearestEven
    rw [hfloor]
    by_cases hx : GoesDown x
    · rw [if_neg fun h => hdown.mp h hx, if_pos hx]
      ring
    · rw [if_pos (hdown.mpr hx), if_neg hx]
      ring

/-! ## Grids -/

theorem two_zpow_pos (e : ℤ) : (0 : ℚ) < 2 ^ e := zpow_pos (by norm_num) e

/-- `x` is a multiple of `2 ^ e`. -/
def OnGrid (e : ℤ) (x : ℚ) : Prop := ∃ n : ℤ, x = n * 2 ^ e

theorem OnGrid.of_le {e e' : ℤ} (h : e ≤ e') {x : ℚ} (hx : OnGrid e' x) : OnGrid e x := by
  obtain ⟨n, rfl⟩ := hx
  refine ⟨n * 2 ^ (e' - e).toNat, ?_⟩
  have hsplit : (2 : ℚ) ^ e' = 2 ^ (e' - e).toNat * 2 ^ e := by
    rw [← zpow_natCast, Int.toNat_of_nonneg (by omega), ← zpow_add₀ (by norm_num)]
    congr 1
    omega
  rw [hsplit]
  push_cast
  ring

theorem onGrid_two_zpow {e k : ℤ} (h : e ≤ k) : OnGrid e (2 ^ k) :=
  OnGrid.of_le h ⟨1, by simp⟩

theorem OnGrid.neg {e : ℤ} {x : ℚ} (h : OnGrid e x) : OnGrid e (-x) := by
  obtain ⟨n, rfl⟩ := h
  exact ⟨-n, by push_cast; ring⟩

theorem onGrid_abs {e : ℤ} {x : ℚ} : OnGrid e |x| ↔ OnGrid e x := by
  rcases abs_choice x with h | h
  · rw [h]
  · rw [h]
    exact ⟨fun hx => by simpa using hx.neg, OnGrid.neg⟩

/-- Different points of a grid are apart by its spacing. -/
theorem OnGrid.add_le {e : ℤ} {x y : ℚ} (hx : OnGrid e x) (hy : OnGrid e y) (h : x < y) :
    x + 2 ^ e ≤ y := by
  obtain ⟨n, rfl⟩ := hx
  obtain ⟨m, rfl⟩ := hy
  have hpos := two_zpow_pos e
  have hlt : n < m := by exact_mod_cast lt_of_mul_lt_mul_right h hpos.le
  have hle : (n : ℚ) + 1 ≤ m := by exact_mod_cast hlt
  calc (n : ℚ) * 2 ^ e + 2 ^ e = (n + 1) * 2 ^ e := by ring
    _ ≤ m * 2 ^ e := mul_le_mul_of_nonneg_right hle hpos.le

theorem abs_nearestEven_sub_le (x : ℚ) : |nearestEven x - x| ≤ 1 / 2 := by
  have hlo := Int.floor_le x
  have hhi := Int.lt_floor_add_one x
  unfold nearestEven
  by_cases h : GoesDown x
  · rw [if_pos h, abs_of_nonpos (by linarith)]
    rcases h with h | ⟨h, -⟩ <;> linarith
  · have hge := not_lt.mp (not_or.mp h).1
    rw [if_neg h]
    push_cast
    rw [abs_of_nonneg (by linarith)]
    linarith

/-- The nearest point of a grid. -/
def roundTo (e : ℤ) (x : ℚ) : ℚ := nearestEven (x / 2 ^ e) * 2 ^ e

theorem roundTo_onGrid (e : ℤ) (x : ℚ) : OnGrid e (roundTo e x) := ⟨_, rfl⟩

theorem OnGrid.roundTo_eq {e : ℤ} {x : ℚ} (h : OnGrid e x) : roundTo e x = x := by
  obtain ⟨n, rfl⟩ := h
  rw [roundTo, mul_div_cancel_right₀ _ (two_zpow_pos e).ne', nearestEven_intCast]

theorem roundTo_mono (e : ℤ) {x y : ℚ} (h : x ≤ y) : roundTo e x ≤ roundTo e y := by
  have hpos := two_zpow_pos e
  have hn : nearestEven (x / 2 ^ e) ≤ nearestEven (y / 2 ^ e) :=
    nearestEven_mono (div_le_div_of_nonneg_right h hpos.le)
  exact mul_le_mul_of_nonneg_right (by exact_mod_cast hn) hpos.le

theorem roundTo_neg (e : ℤ) (x : ℚ) : roundTo e (-x) = -roundTo e x := by
  rw [roundTo, roundTo, neg_div, nearestEven_neg]
  push_cast
  ring

theorem abs_roundTo_sub_le (e : ℤ) (x : ℚ) : |roundTo e x - x| ≤ 2 ^ e / 2 := by
  have hpos := two_zpow_pos e
  have hscale : roundTo e x - x = (nearestEven (x / 2 ^ e) - x / 2 ^ e) * 2 ^ e := by
    rw [roundTo, sub_mul, div_mul_cancel₀ x hpos.ne']
  rw [hscale, abs_mul, abs_of_pos hpos]
  calc |nearestEven (x / 2 ^ e) - x / 2 ^ e| * 2 ^ e ≤ 1 / 2 * 2 ^ e :=
        mul_le_mul_of_nonneg_right (abs_nearestEven_sub_le _) hpos.le
    _ = 2 ^ e / 2 := by ring

/-! ## Formats -/

/-- `prec` binary digits, the least of them worth at least `2 ^ emin`; numbers are less than
`2 ^ (emax + 1)`. -/
structure Format where
  prec : ℕ
  emin : ℤ
  emax : ℤ
  prec_pos : 1 ≤ prec

/-- `float`. -/
def binary32 : Format := ⟨24, -149, 127, by decide⟩

/-- `double`. -/
def binary64 : Format := ⟨53, -1074, 1023, by decide⟩

namespace Format

variable (F : Format)

/-- What the last digit of a number of the size of `x` is worth. -/
def exponent (x : ℚ) : ℤ := if x = 0 then F.emin else max F.emin (Int.log 2 |x| - (F.prec - 1))

/-- The nearest number, ties to even, whatever its size. -/
def round (x : ℚ) : ℚ := roundTo (F.exponent x) x

/-- The number an exact result is rounded to; `none` is no finite number. -/
def make (x : ℚ) : Option ℚ := if |F.round x| < 2 ^ (F.emax + 1) then some (F.round x) else none

variable {F}

theorem exponent_of_ne {x : ℚ} (h : x ≠ 0) :
    F.exponent x = max F.emin (Int.log 2 |x| - (F.prec - 1)) := if_neg h

theorem emin_le_exponent (x : ℚ) : F.emin ≤ F.exponent x := by
  unfold exponent
  split
  · exact le_refl _
  · exact le_max_left _ _

theorem exponent_neg (x : ℚ) : F.exponent (-x) = F.exponent x := by
  simp only [exponent, neg_eq_zero, abs_neg]

theorem exponent_mono {x y : ℚ} (h : |x| ≤ |y|) : F.exponent x ≤ F.exponent y := by
  by_cases hx : x = 0
  · rw [hx, exponent, if_pos rfl]
    exact emin_le_exponent y
  · have hpos : 0 < |x| := abs_pos.mpr hx
    have hy : y ≠ 0 := abs_pos.mp (lt_of_lt_of_le hpos h)
    rw [exponent_of_ne hx, exponent_of_ne hy]
    exact max_le_max_left _ (sub_le_sub_right (Int.log_mono_right hpos h) _)

/-- A number of the size of `x` has `prec` digits. -/
theorem abs_lt_two_zpow (x : ℚ) : |x| < 2 ^ (F.exponent x + F.prec) := by
  by_cases hx : x = 0
  · rw [hx, abs_zero]
    exact two_zpow_pos _
  · have hlog : Int.log 2 |x| + 1 ≤ F.exponent x + F.prec := by
      rw [exponent_of_ne hx]
      omega
    calc |x| < 2 ^ (Int.log 2 |x| + 1) := by
          exact_mod_cast Int.lt_zpow_succ_log_self (by decide) |x|
      _ ≤ 2 ^ (F.exponent x + F.prec) := zpow_le_zpow_right₀ (by norm_num) hlog

/-- Above the least exponent the first of the digits is not zero. -/
theorem two_zpow_le_abs {x : ℚ} (h : F.emin < F.exponent x) :
    2 ^ (F.exponent x + F.prec - 1) ≤ |x| := by
  by_cases hx : x = 0
  · rw [hx, exponent, if_pos rfl] at h
    omega
  · have hlog : F.exponent x + F.prec - 1 = Int.log 2 |x| := by
      rw [exponent_of_ne hx] at h ⊢
      omega
    rw [hlog]
    exact_mod_cast Int.zpow_log_le_self (by decide) (abs_pos.mpr hx)

/-! ## Rounding -/

theorem round_neg (x : ℚ) : F.round (-x) = -F.round x := by
  rw [round, round, exponent_neg, roundTo_neg]

theorem round_zero : F.round 0 = 0 := OnGrid.roundTo_eq ⟨0, by simp⟩

theorem round_mono_of_nonneg {x y : ℚ} (hx : 0 ≤ x) (h : x ≤ y) : F.round x ≤ F.round y := by
  have hexp : F.exponent x ≤ F.exponent y :=
    exponent_mono (by rwa [abs_of_nonneg hx, abs_of_nonneg (hx.trans h)])
  rcases lt_or_eq_of_le hexp with hlt | heq
  · -- a power of two that is on both grids lies in between
    have hprec := F.prec_pos
    have hx' := abs_lt_two_zpow (F := F) x
    have hy' := two_zpow_le_abs (F := F) (lt_of_le_of_lt (emin_le_exponent x) hlt)
    rw [abs_of_nonneg hx] at hx'
    rw [abs_of_nonneg (hx.trans h)] at hy'
    have hle : (2 : ℚ) ^ (F.exponent x + F.prec) ≤ 2 ^ (F.exponent y + F.prec - 1) :=
      zpow_le_zpow_right₀ (by norm_num) (by omega)
    calc F.round x ≤ roundTo (F.exponent x) (2 ^ (F.exponent y + F.prec - 1)) :=
          roundTo_mono _ (hx'.le.trans hle)
      _ = 2 ^ (F.exponent y + F.prec - 1) := (onGrid_two_zpow (by omega)).roundTo_eq
      _ = roundTo (F.exponent y) (2 ^ (F.exponent y + F.prec - 1)) :=
          (onGrid_two_zpow (by omega)).roundTo_eq.symm
      _ ≤ F.round y := roundTo_mono _ hy'
  · rw [round, round, heq]
    exact roundTo_mono _ h

theorem round_nonneg {x : ℚ} (h : 0 ≤ x) : 0 ≤ F.round x := by
  have hmono := round_mono_of_nonneg (F := F) le_rfl h
  rwa [round_zero] at hmono

theorem round_mono {x y : ℚ} (h : x ≤ y) : F.round x ≤ F.round y := by
  rcases le_total 0 x with hx | hx
  · exact round_mono_of_nonneg hx h
  · rcases le_total 0 y with hy | hy
    · calc F.round x = -F.round (-x) := by rw [round_neg, neg_neg]
        _ ≤ 0 := neg_nonpos.mpr (round_nonneg (neg_nonneg.mpr hx))
        _ ≤ F.round y := round_nonneg hy
    · have hneg := round_mono_of_nonneg (F := F) (neg_nonneg.mpr hy) (neg_le_neg h)
      rw [round_neg, round_neg] at hneg
      exact neg_le_neg_iff.mp hneg

variable (F) in
/-- `x` has no digits beyond those of the format. -/
def IsNumber (x : ℚ) : Prop := OnGrid (F.exponent x) x

theorem IsNumber.round_eq {x : ℚ} (h : F.IsNumber x) : F.round x = x := h.roundTo_eq

/-- `prec` digits from `2 ^ e` on are a number. -/
theorem isNumber_of_onGrid {e : ℤ} {x : ℚ} (he : F.emin ≤ e) (hx : OnGrid e x)
    (hle : |x| ≤ 2 ^ (e + F.prec)) : F.IsNumber x := by
  have hprec := F.prec_pos
  rcases lt_or_eq_of_le hle with hlt | heq
  · refine hx.of_le ?_
    by_cases h0 : x = 0
    · rwa [h0, exponent, if_pos rfl]
    · have hlog : Int.log 2 |x| < e + F.prec :=
        (Int.lt_zpow_iff_log_lt (by decide) (abs_pos.mpr h0)).mp (by exact_mod_cast hlt)
      rw [exponent_of_ne h0]
      omega
  · -- the next power of two
    have h0 : x ≠ 0 := abs_pos.mp (by rw [heq]; exact two_zpow_pos _)
    rw [IsNumber, ← onGrid_abs, heq]
    refine onGrid_two_zpow ?_
    have hlog : Int.log 2 ((2 : ℚ) ^ (e + F.prec)) = e + F.prec := by
      exact_mod_cast Int.log_zpow (R := ℚ) (b := 2) (by decide) (e + F.prec)
    rw [exponent_of_ne h0, heq, hlog]
    omega

theorem isNumber_round (x : ℚ) : F.IsNumber (F.round x) := by
  have hgrid := roundTo_onGrid (F.exponent x) x
  refine isNumber_of_onGrid (emin_le_exponent x) hgrid ?_
  have hpow : OnGrid (F.exponent x) (2 ^ (F.exponent x + F.prec)) := onGrid_two_zpow (by omega)
  have hx := abs_le.mp (abs_lt_two_zpow (F := F) x).le
  rw [abs_le]
  constructor
  · rw [← hpow.neg.roundTo_eq]
    exact roundTo_mono _ hx.1
  · rw [← hpow.roundTo_eq]
    exact roundTo_mono _ hx.2

theorem isNumber_two_zpow {k : ℤ} (h : F.emin ≤ k) : F.IsNumber (2 ^ k) := by
  refine isNumber_of_onGrid h (onGrid_two_zpow le_rfl) ?_
  rw [abs_of_pos (two_zpow_pos k)]
  exact zpow_le_zpow_right₀ (by norm_num) (by omega)

/-- An integer of at most `prec` digits is a number. -/
theorem isNumber_intCast {n : ℤ} (he : F.emin ≤ 0) (h : |n| ≤ 2 ^ F.prec) : F.IsNumber n := by
  refine isNumber_of_onGrid he ⟨n, by simp⟩ ?_
  rw [zero_add, zpow_natCast]
  exact_mod_cast h

/-- Rounding does not cross a number. -/
theorem IsNumber.abs_round_le {x y : ℚ} (hy : F.IsNumber y) (h : |x| ≤ y) : |F.round x| ≤ y := by
  have hx := abs_le.mp h
  rw [abs_le]
  constructor
  · calc -y = F.round (-y) := by rw [round_neg, hy.round_eq]
      _ ≤ F.round x := round_mono hx.1
  · calc F.round x ≤ F.round y := round_mono hx.2
      _ = y := hy.round_eq

/-- Different numbers are apart by one part in `2 ^ prec`. -/
theorem IsNumber.gap {x y : ℚ} (hx : F.IsNumber x) (hy : F.IsNumber y) (h0 : 0 ≤ x) (h : x < y) :
    x + x / 2 ^ F.prec ≤ y := by
  have hexp : F.exponent x ≤ F.exponent y :=
    exponent_mono (by rw [abs_of_nonneg h0, abs_of_nonneg (h0.trans h.le)]; exact h.le)
  have hlt := abs_lt_two_zpow (F := F) x
  rw [abs_of_nonneg h0, zpow_add₀ (by norm_num), zpow_natCast] at hlt
  have hpart : x / 2 ^ F.prec ≤ 2 ^ F.exponent x := by
    rw [div_le_iff₀ (by positivity)]
    exact hlt.le
  -- the larger number is on the grid of the smaller one
  calc x + x / 2 ^ F.prec ≤ x + 2 ^ F.exponent x := by linarith
    _ ≤ y := OnGrid.add_le hx (hy.of_le hexp) h

/-- The error of a result of at most `2 ^ k`. -/
theorem abs_round_sub_le {k : ℤ} (hk : F.emin ≤ k - F.prec) {x : ℚ} (h : |x| ≤ 2 ^ k) :
    |F.round x - x| ≤ 2 ^ (k - F.prec) := by
  have hexp : F.exponent x ≤ k - F.prec + 1 := by
    by_cases hx : x = 0
    · rw [hx, exponent, if_pos rfl]
      omega
    · have hlog : Int.log 2 |x| ≤ k := by
        rw [← Int.log_zpow (R := ℚ) (b := 2) (by decide) k]
        exact Int.log_mono_right (abs_pos.mpr hx) (by exact_mod_cast h)
      rw [exponent_of_ne hx]
      omega
  calc |F.round x - x| ≤ 2 ^ F.exponent x / 2 := abs_roundTo_sub_le _ x
    _ ≤ 2 ^ (k - F.prec + 1) / 2 :=
        div_le_div_of_nonneg_right (zpow_le_zpow_right₀ (by norm_num) hexp) (by norm_num)
    _ = 2 ^ (k - F.prec) := by
      rw [zpow_add_one₀ (by norm_num), mul_div_cancel_right₀ _ (by norm_num)]

/-- The error of a result that is not too small is one part in `2 ^ prec`. -/
theorem abs_round_sub_le_div {x : ℚ} (h : 2 ^ (F.emin + F.prec) ≤ |x|) :
    |F.round x - x| ≤ |x| / 2 ^ F.prec := by
  have hx : x ≠ 0 := abs_pos.mp (lt_of_lt_of_le (two_zpow_pos _) h)
  have hlog : F.emin + F.prec ≤ Int.log 2 |x| :=
    (Int.zpow_le_iff_le_log (by decide) (abs_pos.mpr hx)).mp (by exact_mod_cast h)
  have hlead := two_zpow_le_abs (F := F) (x := x) (by rw [exponent_of_ne hx]; omega)
  have hsplit : (2 : ℚ) ^ (F.exponent x + F.prec - 1) = 2 ^ F.exponent x / 2 * 2 ^ F.prec := by
    rw [zpow_sub_one₀ (by norm_num), zpow_add₀ (by norm_num), zpow_natCast]
    ring
  calc |F.round x - x| ≤ 2 ^ F.exponent x / 2 := abs_roundTo_sub_le _ x
    _ ≤ |x| / 2 ^ F.prec := by
        rw [le_div_iff₀ (by positivity), ← hsplit]
        exact hlead

/-! ## Results -/

theorem make_eq {k : ℤ} (hk : F.emin ≤ k) (hmax : k ≤ F.emax) {x : ℚ} (h : |x| ≤ 2 ^ k) :
    F.make x = some (F.round x) := by
  refine if_pos ?_
  calc |F.round x| ≤ 2 ^ k := (isNumber_two_zpow hk).abs_round_le h
    _ < 2 ^ (F.emax + 1) := zpow_lt_zpow_right₀ (by norm_num) (by omega)

end Format

/-! ## Conversion to integers -/

/-- Towards zero. -/
def trunc (x : ℚ) : ℤ := if 0 ≤ x then ⌊x⌋ else ⌈x⌉

@[simp] theorem trunc_intCast (n : ℤ) : trunc n = n := by simp [trunc]

theorem trunc_neg (x : ℚ) : trunc (-x) = -trunc x := by
  unfold trunc
  rcases lt_trichotomy x 0 with hlt | rfl | hgt
  · rw [if_pos (neg_nonneg.mpr hlt.le), if_neg (not_le.mpr hlt), Int.floor_neg]
  · simp
  · rw [if_neg (not_le.mpr (neg_lt_zero.mpr hgt)), if_pos hgt.le, Int.ceil_neg]

theorem trunc_mono {x y : ℚ} (h : x ≤ y) : trunc x ≤ trunc y := by
  unfold trunc
  by_cases hx : 0 ≤ x
  · rw [if_pos hx, if_pos (hx.trans h)]
    exact Int.floor_le_floor h
  · rw [if_neg hx]
    by_cases hy : 0 ≤ y
    · rw [if_pos hy]
      -- zero lies in between
      calc ⌈x⌉ ≤ 0 := Int.ceil_le.mpr (by exact_mod_cast (not_le.mp hx).le)
        _ ≤ ⌊y⌋ := Int.floor_nonneg.mpr hy
    · rw [if_neg hy]
      exact Int.ceil_le_ceil h

theorem trunc_nonneg {x : ℚ} (h : -1 < x) : 0 ≤ trunc x := by
  unfold trunc
  split
  · exact Int.floor_nonneg.mpr ‹_›
  · exact Int.le_ceil_iff.mpr (by simpa using h)

theorem trunc_le_max (x : ℚ) : (trunc x : ℚ) ≤ max x 0 := by
  unfold trunc
  split
  · exact (Int.floor_le x).trans (le_max_left x 0)
  · have hneg : ⌈x⌉ ≤ 0 := Int.ceil_le.mpr (by simpa using (not_le.mp ‹_›).le)
    exact le_max_of_le_right (by exact_mod_cast hneg)

theorem lt_trunc_add_one (x : ℚ) : x < trunc x + 1 := by
  unfold trunc
  split
  · exact Int.lt_floor_add_one x
  · linarith [Int.le_ceil x]

/-- Less than one away from zero. -/
theorem trunc_eq_zero {x : ℚ} (h : |x| < 1) : trunc x = 0 := by
  rcases abs_lt.mp h with ⟨hlo, hhi⟩
  unfold trunc
  by_cases hx : 0 ≤ x
  · rw [if_pos hx, Int.floor_eq_zero_iff]
    exact ⟨hx, hhi⟩
  · rw [if_neg hx, Int.ceil_eq_zero_iff]
    exact ⟨hlo, (not_le.mp hx).le⟩

end FloatFormat
