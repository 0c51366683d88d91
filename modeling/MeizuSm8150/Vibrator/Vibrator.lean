import Mathlib.Tactic.Common
import Mathlib.Data.Nat.Notation
import Mathlib.Data.Int.Notation

/-!
# The vibrator service

The effects of `vibrator/Vibrator.cpp`. Each of the three entry points checks the effect against
the enumerators its interface knows, and all three end in one function that maps effect and
strength to what the device is asked to play. Nothing checks the raw values of a call before
that.
-/

namespace MeizuSm8150.Vibrator

/-! ## The interfaces -/

/-- An effect as its raw value. -/
abbrev Effect : Type := UInt32

/-- A strength as its raw value. -/
abbrev EffectStrength : Type := UInt8

namespace Effect

def click : Effect := 0

def doubleClick : Effect := 1

def tick : Effect := 2

def thud : Effect := 3

def pop : Effect := 4

def heavyClick : Effect := 5

def ringtone1 : Effect := 6

def ringtone15 : Effect := 20

end Effect

namespace EffectStrength

def light : EffectStrength := 0

def medium : EffectStrength := 1

def strong : EffectStrength := 2

end EffectStrength

inductive Status where
  | ok
  | unknownError
  | unsupportedOperation
deriving Repr, DecidableEq

/-- The versions of the interface that have an entry point. -/
inductive Version where
  | v1_0
  | v1_1
  | v1_2
deriving Repr, DecidableEq

/-- `hidl_enum_range`, by its first and its last enumerator. -/
structure EnumRange where
  first : Effect
  last : Effect
deriving Repr, DecidableEq

def EnumRange.Contains (range : EnumRange) (effect : Effect) : Prop :=
  range.first ≤ effect ∧ effect ≤ range.last

instance (range : EnumRange) (effect : Effect) : Decidable (range.Contains effect) :=
  inferInstanceAs (Decidable (_ ∧ _))

/-- The enumerators of the public interfaces. -/
def publicRange : Version → EnumRange
  | .v1_0 => ⟨Effect.click, Effect.doubleClick⟩
  | .v1_1 => ⟨Effect.click, Effect.tick⟩
  | .v1_2 => ⟨Effect.click, Effect.ringtone15⟩

/-! ## `perform` -/

/-- The arguments of one call of `vibrator_perform_effect`; a strength that was never assigned
is `none`. -/
structure DeviceCall where
  id : ℕ
  strn : Option ℕ
deriving Repr, DecidableEq

/-- What a call of the service does, in order: callbacks with status and length, and calls of
the device. -/
structure Outcome where
  callbacks : List (Status × ℕ)
  deviceCalls : List DeviceCall
deriving Repr, DecidableEq

/-- The switch on the effect. -/
def effectId (effect : Effect) : Option ℕ :=
  if effect = Effect.click then some 31008
  else if effect = Effect.doubleClick then some 31003
  else if effect = Effect.tick then some 21000
  else if effect = Effect.thud then some 30900
  else if effect = Effect.pop then some 22520
  else if effect = Effect.heavyClick then some 30900
  else none

/-- The switch on the strength, which has no default. -/
def strengthLevel (strength : EffectStrength) : Option ℕ :=
  if strength = EffectStrength.light then some 50
  else if strength = EffectStrength.medium then some 120
  else if strength = EffectStrength.strong then some 255
  else none

/-- `Vibrator::perform(Effect, EffectStrength, perform_cb)`, with what the device returns. -/
def performEffect (device : DeviceCall → ℤ) (effect : Effect) (strength : EffectStrength) :
    Outcome :=
  let status := Status.ok
  match effectId effect with
  | none => ⟨[(status, 0)], []⟩
  | some id =>
    let call : DeviceCall := ⟨id, strengthLevel strength⟩
    if device call ≠ 0 then
      let status := Status.unknownError
      ⟨[(status, 0)], [call]⟩
    else ⟨[(status, 200)], [call]⟩

/-- `Vibrator::perform<T>`. -/
def performT (validRange : EnumRange) (device : DeviceCall → ℤ) (effect : Effect)
    (strength : EffectStrength) : Outcome :=
  if effect < validRange.first ∨ effect > validRange.last then
    ⟨[(Status.unsupportedOperation, 0)], []⟩
  else performEffect device effect strength

section EntryPoints
variable (range : Version → EnumRange) (device : DeviceCall → ℤ)

def perform : Effect → EffectStrength → Outcome := performT (range .v1_0) device

def perform_1_1 : Effect → EffectStrength → Outcome := performT (range .v1_1) device

def perform_1_2 : Effect → EffectStrength → Outcome := performT (range .v1_2) device

/-- The entry point of each version. -/
def entryPoint : Version → Effect → EffectStrength → Outcome
  | .v1_0 => perform range device
  | .v1_1 => perform_1_1 range device
  | .v1_2 => perform_1_2 range device

end EntryPoints

/-! ## The service -/

/-- The functions of the device behind the service, over the state it keeps. -/
structure VibratorDevice (δ : Type) where
  vibratorOn : UInt32 → δ → ℤ × δ
  vibratorOff : δ → ℤ × δ
  vibratorPerformEffect : DeviceCall → δ → ℤ × δ

inductive DeviceOp where
  | on (timeoutMs : UInt32)
  | off
  | perform (call : DeviceCall)
deriving Repr, DecidableEq

inductive ServiceCall where
  | on (timeoutMs : UInt32)
  | off
  | supportsAmplitudeControl
  | setAmplitude (amplitude : UInt8)
  | perform (version : Version) (effect : Effect) (strength : EffectStrength)
deriving Repr, DecidableEq

/-- What a call does, in order: the device with what it returned, and the answer. -/
inductive ServiceEvent where
  | device (op : DeviceOp) (ret : ℤ)
  | status (s : Status)
  | bool (b : Bool)
  | callback (s : Status) (lengthMs : ℕ)
deriving Repr, DecidableEq

section Service
variable {δ : Type} (range : Version → EnumRange) (device : VibratorDevice δ)

def on (d : δ) (timeoutMs : UInt32) : δ × List ServiceEvent :=
  let (ret, d) := device.vibratorOn timeoutMs d
  if ret ≠ 0 then (d, [.device (.on timeoutMs) ret, .status .unknownError])
  else (d, [.device (.on timeoutMs) ret, .status .ok])

def off (d : δ) : δ × List ServiceEvent :=
  let (ret, d) := device.vibratorOff d
  if ret ≠ 0 then (d, [.device .off ret, .status .unknownError])
  else (d, [.device .off ret, .status .ok])

def supportsAmplitudeControl : Bool := false

def setAmplitude (_ : UInt8) : Status := .unsupportedOperation

/-- An entry point on the device as it is now. -/
def performOn (d : δ) (version : Version) (effect : Effect) (strength : EffectStrength) :
    δ × List ServiceEvent :=
  let out := entryPoint range (fun call => (device.vibratorPerformEffect call d).1) version effect
    strength
  (out.deviceCalls.foldl (fun d call => (device.vibratorPerformEffect call d).2) d,
    out.deviceCalls.map (fun call =>
      .device (.perform call) (device.vibratorPerformEffect call d).1)
      ++ out.callbacks.map fun c => .callback c.1 c.2)

/-- Serve one call. The object keeps nothing but the device. -/
def vibratorStep (d : δ) : ServiceCall → δ × List ServiceEvent
  | .on timeoutMs => on device d timeoutMs
  | .off => off device d
  | .supportsAmplitudeControl => (d, [.bool supportsAmplitudeControl])
  | .setAmplitude amplitude => (d, [.status (setAmplitude amplitude)])
  | .perform version effect strength => performOn range device d version effect strength

end Service

end MeizuSm8150.Vibrator
