import MeizuSm8150.Lib.Machine
import MeizuSm8150.Display.FingerprintInscreen
import MeizuSm8150.Display.SunlightEnhancement

/-!
# One attribute, two services

The fingerprint service and the sunlight service write the same attribute and do not know of
each other, so whatever the order of their steps the attribute holds what was written last: a
press or a release overwrites the user's setting, and a setting made under a finger stands until
the finger is lifted.
-/

namespace MeizuSm8150.Display

open CMachine CDecimal Sysfs Machine

/-! ## The two services together -/

inductive HbmStep where
  | onPress
  | onRelease
  | onShowFODView
  | onHideFODView
  | setEnabled (enabled : Bool)
deriving Repr, DecidableEq

/-- A step of either service on the files they share. -/
def hbmStep (files : Files) : HbmStep → Files × List ℤ
  | .onPress => onPress files
  | .onRelease => onRelease files
  | .onShowFODView => onShowFODView files
  | .onHideFODView => onHideFODView files
  | .setEnabled enabled => (setEnabled files enabled, [])

/-- Whether a press or release leaves a finger down. -/
def HbmStep.finger : HbmStep → Option Bool
  | .onPress => some true
  | .onRelease => some false
  | _ => none

/-- The argument of `setEnabled`. -/
def HbmStep.setting : HbmStep → Option Bool
  | .setEnabled enabled => some enabled
  | _ => none

/-- The last press or release is a press. -/
def fingerDown (steps : List HbmStep) : Bool := (lastSome HbmStep.finger steps).getD false

/-- The steps after the last press or release. -/
def sinceFinger (steps : List HbmStep) : List HbmStep :=
  (steps.reverse.takeWhile fun s => s.finger.isNone).reverse

def lastSetting (steps : List HbmStep) : Option Bool := lastSome HbmStep.setting steps

/-- The number the attribute holds. -/
def hbmValue (files : Files) : Option ℤ := (files hbmEnablePath).bind leadingInt

/-! ## What the attribute holds -/

theorem fileHbm_eq : fileHbm = hbmEnablePath := rfl

theorem boostEnablePath_ne : hbmEnablePath ≠ boostEnablePath := by decide

/-- The attribute as some step left it. -/
def Holds (files : Files) (on : Bool) : Prop :=
  files hbmEnablePath = some (ascii (if on then "1" else "0"))

theorem Holds.isEnabled {files : Files} {on : Bool} (h : Holds files on) :
    isEnabled files = .ok on := by
  unfold Holds at h
  rw [Display.isEnabled, fileHbm_eq, h]
  cases on <;> decide

theorem Holds.hbmValue {files : Files} {on : Bool} (h : Holds files on) :
    hbmValue files = some (if on then 1 else 0) := by
  unfold Holds at h
  rw [Display.hbmValue, h]
  cases on <;> decide

/-- Each step writes its own value or leaves the attribute alone. -/
theorem Holds.step {files : Files} {on : Bool} (h : Holds files on) (s : HbmStep) :
    Holds (hbmStep files s).1 ((s.setting.or s.finger).getD on) := by
  cases s with
  | onPress => exact files.set_same hbmEnablePath 1
  | onRelease => exact files.set_same hbmEnablePath 0
  | onShowFODView => exact (files.set_other boostEnablePath_ne 1).trans h
  | onHideFODView => exact h
  | setEnabled enabled => exact files.write_same fileHbm (ascii (if enabled then "1" else "0"))

theorem sinceFinger_concat (steps : List HbmStep) (s : HbmStep) :
    sinceFinger (steps ++ [s]) = if s.finger.isNone then sinceFinger steps ++ [s] else [] := by
  rw [sinceFinger, List.reverse_concat, List.takeWhile_cons]
  by_cases h : s.finger.isNone
  · rw [if_pos h, if_pos h, List.reverse_cons, sinceFinger]
  · rw [if_neg h, if_neg h, List.reverse_nil]

/-- What was written last: a setting since the finger last moved, or what the finger wrote. -/
def lastWritten (steps : List HbmStep) : Bool :=
  (lastSetting (sinceFinger steps)).getD (fingerDown steps)

theorem lastWritten_concat (steps : List HbmStep) (s : HbmStep) :
    lastWritten (steps ++ [s]) = (s.setting.or s.finger).getD (lastWritten steps) := by
  rw [lastWritten, lastWritten, sinceFinger_concat, fingerDown, lastSome_concat]
  cases s with
  | onPress => rfl
  | onRelease => rfl
  | onShowFODView => simp [lastSetting, HbmStep.setting, HbmStep.finger, fingerDown]
  | onHideFODView => simp [lastSetting, HbmStep.setting, HbmStep.finger, fingerDown]
  | setEnabled enabled => simp [lastSetting, HbmStep.setting, HbmStep.finger]

theorem run_holds {files : Files} (h0 : Holds files false) (steps : List HbmStep) :
    Holds (run hbmStep files steps).1 (lastWritten steps) := by
  -- the invariant relates the attribute to the steps so far
  refine run_history hbmStep (fun steps r => Holds r.1 (lastWritten steps)) h0 ?_ steps
  intro steps s r ih
  rw [lastWritten_concat]
  exact ih.step s

/-- Whatever the interleaving, under a finger the attribute is zero exactly when the last
setting since the press is off, and without one `isEnabled` returns the last setting since the
release, or off. -/
theorem hbm_last_writer (files : Files) (h0 : files hbmEnablePath = some (ascii "0"))
    (steps : List HbmStep) :
    (fingerDown steps = true →
      ∃ v, hbmValue (run hbmStep files steps).1 = some v ∧
        (v ≠ 0 ↔ lastSetting (sinceFinger steps) ≠ some false)) ∧
    (fingerDown steps = false →
      isEnabled (run hbmStep files steps).1
        = .ok ((lastSetting (sinceFinger steps)).getD false)) := by
  have hholds := run_holds h0 steps
  constructor
  · intro hdown
    refine ⟨_, hholds.hbmValue, ?_⟩
    rw [lastWritten, hdown]
    cases lastSetting (sinceFinger steps) with
    | none => decide
    | some enabled => cases enabled <;> decide
  · intro hup
    rw [hholds.isEnabled, lastWritten, hup]

/-- A run that starts with the attribute at `0`. -/
theorem hbm_last_writer_press :
    ∃ v, hbmValue (run hbmStep (Files.write (fun _ => none) hbmEnablePath (ascii "0"))
        [.setEnabled false, .onPress]).1 = some v ∧
      (v ≠ 0 ↔ lastSetting (sinceFinger [.setEnabled false, .onPress]) ≠ some false) :=
  (hbm_last_writer (Files.write (fun _ => none) hbmEnablePath (ascii "0"))
    (Files.write_same _ _ _) [.setEnabled false, .onPress]).1 (by decide)

/-- A press and a release lose the setting, and a setting under a finger turns the attribute
off. -/
theorem hbm_lost_update :
    (fingerDown [.setEnabled true, .onPress, .onRelease] = false ∧
      lastSetting [.setEnabled true, .onPress, .onRelease] = some true ∧
      isEnabled (run hbmStep (Files.write (fun _ => none) hbmEnablePath (ascii "0"))
        [.setEnabled true, .onPress, .onRelease]).1 = .ok false) ∧
    fingerDown [.onPress, .setEnabled false] = true ∧
      hbmValue (run hbmStep (Files.write (fun _ => none) hbmEnablePath (ascii "0"))
        [.onPress, .setEnabled false]).1 = some 0 := by
  decide +kernel

end MeizuSm8150.Display
