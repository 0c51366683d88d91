import MeizuSm8150.Lights.BacklightTheorems
import Mathlib.Data.Finset.Basic
import Mathlib.Data.Finset.Filter

/-!
# What the light service is for

The LED blinks while one of the lights that share it is lit, and the panel is as bright as the
colour asks for. The lit lights as a set are all of the object that its writes depend on
(`light_refines`). The panel value is exact for the maxima whose product with `255` does not wrap
and for no others (`panel_exact_iff`).
-/

namespace MeizuSm8150.Lights

open CMachine CDecimal Machine

/-! ## Every maximum -/

/-- What is written to the panel for a maximum of any size or sign: the product wraps. -/
def panelValue (max : ℤ) (state : LightState) : ℕ := luma state * toU32 max % 2 ^ 32 / 255

theorem setPanelBacklight_panelValue (l : Light) (state : LightState) : setPanelBacklight l state
    = (l, [⟨.panelBrightness, panelValue l.mPanelMaxBrightness state⟩]) := by
  rw [setPanelBacklight]
  by_cases h255 : l.mPanelMaxBrightness = defaultMaxBrightness
  · have hle := luma_le state
    have hscale : toU32 defaultMaxBrightness = 255 := by decide
    rw [if_neg (not_not.mpr h255), toNat_rgbToBrightness, panelValue, h255, hscale,
      Nat.mod_eq_of_lt (by omega), Nat.mul_div_cancel _ (by decide)]
  · have hlt : toU32 l.mPanelMaxBrightness < 2 ^ 32 := by
      rw [toU32]
      omega
    have hdflt : (UInt32.ofNat (toU32 defaultMaxBrightness)).toNat = 255 := by decide
    rw [if_pos h255, UInt32.toNat_div, UInt32.toNat_mul, toNat_rgbToBrightness, hdflt,
      UInt32.toNat_ofNat', Nat.mod_eq_of_lt hlt, panelValue]

theorem panelValue_le (max : ℤ) (state : LightState) : panelValue max state ≤ 16843009 := by
  rw [panelValue]
  omega

/-- Without wrapping. -/
theorem panelValue_eq {m : ℕ} (hmax : m ≤ 16843009) (state : LightState) :
    panelValue m state = luma state * m / 255 := by
  have hle := luma_le state
  have hprod : luma state * m ≤ 255 * 16843009 := Nat.mul_le_mul hle hmax
  have hscale : toU32 m = m := by
    rw [toU32]
    omega
  rw [panelValue, hscale, Nat.mod_eq_of_lt (by omega)]

/-- Exactly for these maxima is every colour scaled as it should be: beyond them white is already
written wrong. -/
theorem panel_exact_iff (l : Light) :
    (∀ state, ∃ v : ℕ, setPanelBacklight l state = (l, [⟨.panelBrightness, v⟩]) ∧
      (v : ℤ) = luma state * l.mPanelMaxBrightness / 255) ↔
      0 ≤ l.mPanelMaxBrightness ∧ l.mPanelMaxBrightness ≤ 16843009 := by
  simp only [setPanelBacklight_panelValue]
  constructor
  · intro h
    obtain ⟨v, hv, hexact⟩ := h ⟨0xffffff⟩
    have hle : v ≤ 16843009 :=
      (Write.mk.inj (List.cons.inj (Prod.mk.inj hv).2).1).2 ▸ panelValue_le _ _
    rw [luma_white (by decide)] at hexact
    omega
  · intro hmax state
    rcases hmax with ⟨h0, hle⟩
    obtain ⟨m, hm⟩ := Int.eq_ofNat_of_zero_le h0
    rw [hm] at hle ⊢
    refine ⟨_, rfl, ?_⟩
    rw [panelValue_eq (by omega), Int.natCast_ediv, Int.natCast_mul]
    rfl

/-- The value last written to a file. -/
def lastWrite (path : Path) (writes : List Write) : Option ℕ :=
  lastSome (fun w => if w.path = path then some w.value else none) writes

theorem lastWrite_append (path : Path) (writes writes' : List Write) :
    lastWrite path (writes ++ writes') = (lastWrite path writes').or (lastWrite path writes) :=
  lastSome_append _ _ _

theorem lastWrite_concat (path : Path) (writes : List Write) (w : Write) :
    lastWrite path (writes ++ [w])
      = (if w.path = path then some w.value else none).or (lastWrite path writes) :=
  lastSome_concat _ _ _

/-- The panel shows the last colour it was given. -/
theorem run_lastPanel (l : Light) (calls : List Call) : lastWrite .panelBrightness (run step l calls).2
    = (latest .backlight calls).map (panelValue l.mPanelMaxBrightness) := by
  refine (run_history step (fun calls r => r.1.mPanelMaxBrightness = l.mPanelMaxBrightness ∧
    lastWrite .panelBrightness r.2 = (latest .backlight calls).map (panelValue l.mPanelMaxBrightness))
    ⟨rfl, rfl⟩ ?_ calls).2
  intro calls c r ih
  rcases ih with ⟨hmax, hlast⟩
  refine ⟨(run_maxBrightness r.1 [c]).trans hmax, ?_⟩
  rw [latest_concat]
  rcases c with ⟨type, state⟩
  cases type with
  | attention => simp [step_attention, lastWrite_concat, hlast]
  | notifications => simp [step_notifications, lastWrite_concat, hlast]
  | backlight =>
    have hpanel : step r.1 ⟨.backlight, state⟩
        = (r.1, [⟨.panelBrightness, panelValue r.1.mPanelMaxBrightness state⟩]) :=
      setPanelBacklight_panelValue r.1 state
    rw [hpanel, lastWrite_concat, hmax]
    rfl
  | other raw => simp [step_other, hlast]

/-! ## The lit lights -/

/-- The colour a light was last set to; only the two that share the LED are kept. -/
def shown (l : Light) : LightType → ℕ
  | .attention => rgb l.mAttentionState
  | .notifications => rgb l.mNotificationState
  | _ => 0

def litLights (l : Light) : Finset LightType :=
  ({.attention, .notifications} : Finset LightType).filter fun type => shown l type ≠ 0

/-- A light is lit or put out, and the LED blinks as long as some light is lit. -/
def putLight (lit : Finset LightType) (type : LightType) (state : LightState) :
    Finset LightType × List Write :=
  let lit := if rgb state ≠ 0 then insert type lit else lit.erase type
  (lit, [⟨.mxLedBlink, if lit.Nonempty then 10 else 0⟩])

/-- The service over the set of lit lights. -/
def litStep (max : ℤ) (lit : Finset LightType) (c : Call) : Finset LightType × List Write :=
  match c.type with
  | .attention => putLight lit .attention c.state
  | .notifications => putLight lit .notifications c.state
  | .backlight => (lit, [⟨.panelBrightness, panelValue max c.state⟩])
  | .other _ => (lit, [])

theorem mem_litLights (l : Light) (type : LightType) : type ∈ litLights l ↔ shown l type ≠ 0 := by
  rw [litLights, Finset.mem_filter, and_iff_right_of_imp]
  intro hlit
  cases type with
  | attention => decide
  | notifications => decide
  | backlight => exact absurd rfl hlit
  | other raw => exact absurd rfl hlit

/-- The LED shows whether any light is lit. -/
theorem ledValue_litLights (l : Light) :
    ledValue l.mNotificationState l.mAttentionState = if (litLights l).Nonempty then 10 else 0 := by
  have hlit : (litLights l).Nonempty ↔ rgb l.mNotificationState ≠ 0 ∨ rgb l.mAttentionState ≠ 0 := by
    constructor
    · intro h
      obtain ⟨type, htype⟩ := h
      rw [mem_litLights] at htype
      cases type with
      | attention => exact Or.inr htype
      | notifications => exact Or.inl htype
      | backlight => exact absurd rfl htype
      | other raw => exact absurd rfl htype
    · intro h
      rcases h with hn | ha
      · exact ⟨.notifications, (mem_litLights l _).mpr hn⟩
      · exact ⟨.attention, (mem_litLights l _).mpr ha⟩
  simp only [ledValue, hlit]

/-- To set the colour of one light is to light it or put it out. -/
theorem litLights_set {l l' : Light} {type : LightType} {state : LightState}
    (hset : shown l' type = rgb state) (hkept : ∀ t, t ≠ type → shown l' t = shown l t) :
    litLights l' = (putLight (litLights l) type state).1 := by
  ext t
  rw [mem_litLights, putLight]
  by_cases ht : t = type
  · rw [ht, hset]
    by_cases hrgb : rgb state ≠ 0
    · simp [hrgb]
    · simp [not_not.mp hrgb]
  · rw [hkept t ht, ← mem_litLights]
    by_cases hrgb : rgb state ≠ 0
    · simp [hrgb, ht]
    · simp [not_not.mp hrgb, ht]

/-- One call, seen through the set of lit lights. -/
theorem step_litStep (l : Light) (c : Call) :
    litLights (step l c).1 = (litStep l.mPanelMaxBrightness (litLights l) c).1 ∧
      (step l c).2 = (litStep l.mPanelMaxBrightness (litLights l) c).2 := by
  rcases c with ⟨type, state⟩
  cases type with
  | attention =>
    have hlit : litLights { l with mAttentionState := state }
        = (putLight (litLights l) .attention state).1 :=
      litLights_set rfl fun t ht => by cases t <;> first | rfl | exact absurd rfl ht
    have hled := ledValue_litLights { l with mAttentionState := state }
    rw [hlit] at hled
    rw [step_attention]
    exact ⟨hlit, congrArg (fun v => [Write.mk .mxLedBlink v]) hled⟩
  | notifications =>
    have hlit : litLights { l with mNotificationState := state }
        = (putLight (litLights l) .notifications state).1 :=
      litLights_set rfl fun t ht => by cases t <;> first | rfl | exact absurd rfl ht
    have hled := ledValue_litLights { l with mNotificationState := state }
    rw [hlit] at hled
    rw [step_notifications]
    exact ⟨hlit, congrArg (fun v => [Write.mk .mxLedBlink v]) hled⟩
  | backlight =>
    have hpanel : step l ⟨.backlight, state⟩
        = (l, [⟨.panelBrightness, panelValue l.mPanelMaxBrightness state⟩]) :=
      setPanelBacklight_panelValue l state
    rw [hpanel]
    exact ⟨rfl, rfl⟩
  | other raw =>
    rw [step_other]
    exact ⟨rfl, rfl⟩

/-- The object refines the set of lit lights: over any calls it writes what the set asks for, and
keeps exactly the set. -/
theorem light_refines (l : Light) (calls : List Call) :
    litLights (run step l calls).1
        = (run (litStep l.mPanelMaxBrightness) (litLights l) calls).1 ∧
      (run step l calls).2
        = (run (litStep l.mPanelMaxBrightness) (litLights l) calls).2 := by
  have hproj : Projects step (litStep l.mPanelMaxBrightness)
      (fun l' => l'.mPanelMaxBrightness = l.mPanelMaxBrightness) litLights some some := by
    refine ⟨fun l' c h => ?_, fun l' c c' h hc => ?_, fun l' c h hc => nomatch hc⟩
    · exact (run_maxBrightness l' [c]).trans h
    · cases hc
      rw [List.filterMap_some, ← h]
      exact step_litStep l' c
  have hrun := hproj.run_eq rfl calls
  rwa [List.filterMap_some, List.filterMap_some] at hrun

end MeizuSm8150.Lights
