import MeizuSm8150.Lib.CDecimal
import MeizuSm8150.Lib.Machine

/-!
# The light service

`light/Light.cpp`. The LED is shared by the attention and the notification light, whose last
states the object keeps; the panel backlight keeps nothing. Every handler holds `mLock` for its
whole body, so concurrent callers are served in some order, one call at a time.
-/

namespace MeizuSm8150.Lights

open CMachine CDecimal Machine

def ledOff : ℕ := 0

def ledBlink : ℕ := 10

def defaultMaxBrightness : ℤ := 255

/-! ## The interface -/

/-- The types with a handler, and every other value a caller may pass. -/
inductive LightType where
  | attention
  | backlight
  | notifications
  | other (raw : ℤ)
deriving Repr, DecidableEq

/-- The part of a state that the handlers read. -/
structure LightState where
  color : UInt32
deriving Repr, DecidableEq

inductive Status where
  | success
  | lightNotSupported
deriving Repr, DecidableEq

/-- The files the service writes. -/
inductive Path where
  | panelBrightness
  | mxLedBlink
deriving Repr, DecidableEq

structure Write where
  path : Path
  value : ℕ
deriving Repr, DecidableEq

def rgbToBrightness (state : LightState) : UInt32 :=
  let color := state.color &&& 0x00ffffff
  let red := color >>> (16 : UInt32) &&& 0xff
  let green := color >>> (8 : UInt32) &&& 0xff
  let blue := color &&& 0xff
  (77 * red + 150 * green + 29 * blue) >>> (8 : UInt32)

def isLit (state : LightState) : Bool := (state.color &&& 0x00ffffff) != 0

/-- `get` of an `int` from a file, `none` where it cannot be opened. -/
def get (content : Option Mem) (dflt : ℤ) : ℤ := (content.bind readInt).getD dflt

/-! ## The object -/

structure Light where
  mPanelMaxBrightness : ℤ
  mAttentionState : LightState
  mNotificationState : LightState
deriving Repr, DecidableEq

/-- What the memory of a new object holds where the constructor writes nothing. -/
structure Memory where
  attention : LightState
  notification : LightState
deriving Repr, DecidableEq

/-- `Light::Light`. -/
def Light.new (maxBrightness : Option Mem) (memory : Memory) : Light where
  mPanelMaxBrightness := get maxBrightness defaultMaxBrightness
  mAttentionState := memory.attention
  mNotificationState := memory.notification

def setSpeakerBatteryLightLocked (l : Light) : List Write :=
  if isLit l.mNotificationState then [⟨.mxLedBlink, ledBlink⟩]
  else if isLit l.mAttentionState then [⟨.mxLedBlink, ledBlink⟩]
  else [⟨.mxLedBlink, ledOff⟩]

def setAttentionLight (l : Light) (state : LightState) : Light × List Write :=
  let l := { l with mAttentionState := state }
  (l, setSpeakerBatteryLightLocked l)

/-- The scaling is in `uint32_t`, to which the `int` operands are converted. -/
def setPanelBacklight (l : Light) (state : LightState) : Light × List Write :=
  let brightness := rgbToBrightness state
  let brightness :=
    if l.mPanelMaxBrightness ≠ defaultMaxBrightness then
      brightness * UInt32.ofNat (toU32 l.mPanelMaxBrightness)
        / UInt32.ofNat (toU32 defaultMaxBrightness)
    else brightness
  (l, [⟨.panelBrightness, brightness.toNat⟩])

def setNotificationLight (l : Light) (state : LightState) : Light × List Write :=
  let l := { l with mNotificationState := state }
  (l, setSpeakerBatteryLightLocked l)

def mLights : List (LightType × (Light → LightState → Light × List Write)) :=
  [(.attention, setAttentionLight), (.backlight, setPanelBacklight),
    (.notifications, setNotificationLight)]

def setLight (l : Light) (type : LightType) (state : LightState) : Status × Light × List Write :=
  match mLights.lookup type with
  | none => (.lightNotSupported, l, [])
  | some light => (.success, light l state)

def getSupportedTypes : List LightType := mLights.map Prod.fst

/-- The service is asked for exactly what it says it supports. -/
theorem setLight_success_iff (l : Light) (type : LightType) (state : LightState) :
    (setLight l type state).1 = .success ↔ type ∈ getSupportedTypes := by
  cases type with
  | attention => exact iff_of_true rfl (by decide)
  | backlight => exact iff_of_true rfl (by decide)
  | notifications => exact iff_of_true rfl (by decide)
  | other raw => exact iff_of_false Status.noConfusion (by simp [getSupportedTypes, mLights])

/-! ## Runs -/

structure Call where
  type : LightType
  state : LightState
deriving Repr, DecidableEq

def step (l : Light) (c : Call) : Light × List Write := (setLight l c.type c.state).2

/-- The state of the last call of a type. -/
def latest (type : LightType) (calls : List Call) : Option LightState :=
  lastSome (fun c => if c.type = type then some c.state else none) calls

/-- The value last written to the LED. -/
def lastLed (writes : List Write) : Option ℕ :=
  lastSome (fun w => if w.path = .mxLedBlink then some w.value else none) writes

end MeizuSm8150.Lights
