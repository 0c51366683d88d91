import MeizuSm8150.Lights.LedTheorems

/-!
# The panel backlight

The value written to the panel is the weighted brightness of the colour scaled to the maximum of
the panel, rounded down. For every maximum whose product with `255` fits `uint32_t` no operation
wraps, so the code computes that value exactly, with the path for a maximum of `255` as the case
in which scaling changes nothing.
-/

namespace MeizuSm8150.Lights

open CMachine

/-! ## The colour -/

def red (state : LightState) : ℕ := state.color.toNat / 2 ^ 16 % 2 ^ 8

def green (state : LightState) : ℕ := state.color.toNat / 2 ^ 8 % 2 ^ 8

def blue (state : LightState) : ℕ := state.color.toNat % 2 ^ 8

/-- The weights add up to `256`. -/
def luma (state : LightState) : ℕ := (77 * red state + 150 * green state + 29 * blue state) / 256

theorem red_lt (state : LightState) : red state < 2 ^ 8 := Nat.mod_lt _ (by decide)

theorem green_lt (state : LightState) : green state < 2 ^ 8 := Nat.mod_lt _ (by decide)

theorem blue_lt (state : LightState) : blue state < 2 ^ 8 := Nat.mod_lt _ (by decide)

theorem luma_le (state : LightState) : luma state ≤ 255 := by
  have hr := red_lt state
  have hg := green_lt state
  have hb := blue_lt state
  rw [luma]
  omega

theorem luma_mono {s s' : LightState} (hr : red s ≤ red s') (hg : green s ≤ green s')
    (hb : blue s ≤ blue s') : luma s ≤ luma s' := by
  rw [luma, luma]
  omega

/-- A grey level is its own brightness. -/
theorem luma_grey {state : LightState} {g : ℕ} (hr : red state = g) (hg : green state = g)
    (hb : blue state = g) : luma state = g := by
  rw [luma, hr, hg, hb]
  omega

/-- The channels are the bytes of the colour, and the alpha byte is in none of them. -/
theorem channels_eq (state : LightState) : red state = rgb state / 2 ^ 16 ∧
    green state = rgb state / 2 ^ 8 % 2 ^ 8 ∧ blue state = rgb state % 2 ^ 8 := by
  unfold red green blue rgb
  omega

theorem luma_congr {s s' : LightState} (h : rgb s = rgb s') : luma s = luma s' := by
  rcases channels_eq s with ⟨hr, hg, hb⟩
  rcases channels_eq s' with ⟨hr', hg', hb'⟩
  rw [luma, luma, hr, hg, hb, hr', hg', hb', h]

theorem luma_black {state : LightState} (h : rgb state = 0) : luma state = 0 := by
  rcases channels_eq state with ⟨hr, hg, hb⟩
  rw [luma, hr, hg, hb, h]
  rfl

theorem luma_white {state : LightState} (h : rgb state = 0xffffff) : luma state = 255 := by
  rcases channels_eq state with ⟨hr, hg, hb⟩
  rw [luma, hr, hg, hb, h]
  rfl

/-! ## `rgbToBrightness` -/

theorem toNat_byte (c k : UInt32) : ((c &&& 0x00ffffff) >>> k &&& 0xff).toNat
    = c.toNat % 2 ^ 24 / 2 ^ (k.toNat % 32) % 2 ^ 8 := by
  have hmask : (c &&& 0x00ffffff).toNat = c.toNat % 2 ^ 24 := by
    rw [UInt32.toNat_and]
    exact Nat.and_two_pow_sub_one_eq_mod _ 24
  rw [UInt32.toNat_and, UInt32.toNat_shiftRight, hmask, Nat.shiftRight_eq_div_pow]
  exact Nat.and_two_pow_sub_one_eq_mod _ 8

theorem toNat_red (state : LightState) :
    ((state.color &&& 0x00ffffff) >>> (16 : UInt32) &&& 0xff).toNat = red state := by
  rw [toNat_byte, red, show (16 : UInt32).toNat % 32 = 16 from rfl]
  omega

theorem toNat_green (state : LightState) :
    ((state.color &&& 0x00ffffff) >>> (8 : UInt32) &&& 0xff).toNat = green state := by
  rw [toNat_byte, green, show (8 : UInt32).toNat % 32 = 8 from rfl]
  omega

theorem toNat_blue (state : LightState) :
    ((state.color &&& 0x00ffffff) &&& 0xff).toNat = blue state := by
  have h := toNat_byte state.color 0
  rw [show (0 : UInt32).toNat % 32 = 0 from rfl, UInt32.shiftRight_zero] at h
  rw [h, blue]
  omega

theorem toNat_rgbToBrightness (state : LightState) :
    (rgbToBrightness state).toNat = luma state := by
  have hr := red_lt state
  have hg := green_lt state
  have hb := blue_lt state
  simp only [rgbToBrightness, UInt32.toNat_shiftRight, UInt32.toNat_add, UInt32.toNat_mul,
    toNat_red, toNat_green, toNat_blue]
  rw [luma, Nat.shiftRight_eq_div_pow]
  -- the sum is at most `255 * 256`, far from wrapping
  simp only [UInt32.reduceToNat, Nat.reduceMod, Nat.reducePow] at *
  omega

/-! ## The scaled value -/

/-- No operation wraps, and the path for a maximum of `255` scales by one. -/
theorem setPanelBacklight_eq {l : Light} {m : ℕ} (hl : l.mPanelMaxBrightness = m)
    (hmax : m ≤ 16843009) (state : LightState) :
    setPanelBacklight l state = (l, [⟨.panelBrightness, luma state * m / 255⟩]) := by
  have hle := luma_le state
  rw [setPanelBacklight, hl]
  by_cases h255 : (m : ℤ) = defaultMaxBrightness
  · rw [if_neg (not_not.mpr h255), toNat_rgbToBrightness]
    have hm : m = 255 := by
      rw [defaultMaxBrightness] at h255
      omega
    rw [hm, Nat.mul_div_cancel _ (by decide)]
  · have hprod : luma state * m ≤ 255 * 16843009 := Nat.mul_le_mul hle hmax
    have hscale : (UInt32.ofNat (toU32 m)).toNat = m := by
      rw [UInt32.toNat_ofNat', toU32]
      omega
    have hdflt : (UInt32.ofNat (toU32 defaultMaxBrightness)).toNat = 255 := by decide
    rw [if_pos h255, UInt32.toNat_div, UInt32.toNat_mul, toNat_rgbToBrightness, hscale, hdflt,
      Nat.mod_eq_of_lt (by omega)]

/-- A maximum of at least `255` keeps grey levels apart. -/
theorem scaled_lt {m g g' : ℕ} (hm : 255 ≤ m) (h : g < g') : g * m / 255 < g' * m / 255 := by
  have hstep : g * m + 255 ≤ g' * m := by
    calc g * m + 255 ≤ g * m + m := Nat.add_le_add_left hm _
      _ = (g + 1) * m := (Nat.succ_mul g m).symm
      _ ≤ g' * m := Nat.mul_le_mul_right m h
  calc g * m / 255 < g * m / 255 + 1 := Nat.lt_succ_self _
    _ = (g * m + 255) / 255 := (Nat.add_div_right _ (by decide)).symm
    _ ≤ g' * m / 255 := Nat.div_le_div_right hstep

/-- What is written to the panel, for every maximum that does not overflow and every colour. -/
theorem setPanelBacklight_scaled (l : Light) (m : ℕ) (hl : l.mPanelMaxBrightness = m)
    (hmax : m ≤ 16843009) :
    ∃ v : LightState → ℕ,
      (∀ s, setPanelBacklight l s = (l, [⟨.panelBrightness, v s⟩])) ∧
      (∀ s, v s = (77 * red s + 150 * green s + 29 * blue s) / 256 * m / 255) ∧
      (∀ s, (77 * red s + 150 * green s + 29 * blue s) / 256 ≤ 255) ∧
      (∀ s, v s ≤ m) ∧
      (∀ s s', rgb s = rgb s' → v s = v s') ∧
      (∀ s s', red s ≤ red s' → green s ≤ green s' → blue s ≤ blue s' → v s ≤ v s') ∧
      (∀ s, rgb s = 0 → v s = 0) ∧
      (∀ s, rgb s = 0xffffff → v s = m) ∧
      (∀ s g, red s = g → green s = g → blue s = g → v s = g * m / 255) ∧
      (255 ≤ m → ∀ s s' g g', red s = g → green s = g → blue s = g → red s' = g' →
        green s' = g' → blue s' = g' → g ≠ g' → v s ≠ v s') := by
  have hgrey : ∀ s g, red s = g → green s = g → blue s = g → luma s * m / 255 = g * m / 255 := by
    intro s g hr hg hb
    rw [luma_grey hr hg hb]
  refine ⟨fun s => luma s * m / 255, setPanelBacklight_eq hl hmax, fun s => rfl, luma_le,
    fun s => ?_, fun s s' h => ?_, fun s s' hr hg hb => ?_, fun s h => ?_, fun s h => ?_, hgrey,
    fun hm s s' g g' hr hg hb hr' hg' hb' hne => ?_⟩
  · calc luma s * m / 255 ≤ 255 * m / 255 :=
        Nat.div_le_div_right (Nat.mul_le_mul_right m (luma_le s))
      _ = m := Nat.mul_div_cancel_left m (by decide)
  · dsimp only
    rw [luma_congr h]
  · exact Nat.div_le_div_right (Nat.mul_le_mul_right m (luma_mono hr hg hb))
  · dsimp only
    rw [luma_black h, Nat.zero_mul, Nat.zero_div]
  · dsimp only
    rw [luma_white h, Nat.mul_div_cancel_left m (by decide)]
  · dsimp only
    rw [hgrey s g hr hg hb, hgrey s' g' hr' hg' hb']
    rcases Nat.lt_or_gt_of_ne hne with hlt | hgt
    · exact Nat.ne_of_lt (scaled_lt hm hlt)
    · exact Nat.ne_of_gt (scaled_lt hm hgt)

/-- White on a panel of `1023` steps. -/
theorem setPanelBacklight_scaled_white :
    (setPanelBacklight ⟨1023, ⟨0⟩, ⟨0⟩⟩ ⟨0xffffffff⟩).2 = [⟨.panelBrightness, 1023⟩] := by
  obtain ⟨v, hv, -, -, -, -, -, -, hwhite, -, -⟩ :=
    setPanelBacklight_scaled ⟨1023, ⟨0⟩, ⟨0⟩⟩ 1023 rfl (by decide)
  rw [hv, hwhite _ (by decide)]

end MeizuSm8150.Lights
