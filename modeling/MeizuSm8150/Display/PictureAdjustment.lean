import MeizuSm8150.Lib.Binary32
import MeizuSm8150.Lib.Machine

/-!
# Picture adjustment

`livedisplay/PictureAdjustment.cpp`. The vendor library behind it is a parameter: the state it
keeps, and for each of its functions, found or not by `dlsym`, the status and the out parameter
of a call.
-/

namespace MeizuSm8150.Display

open Machine

def pictureAdjustmentFeature : ℕ := 1

/-! ## Data of the vendor library -/

structure SdmFeatureVersion where
  x : ℕ
  y : ℕ
  z : ℕ
deriving Repr, DecidableEq

structure HsicData where
  hue : ℤ
  saturation : Binary32
  intensity : Binary32
  contrast : Binary32
  saturationThreshold : Binary32
deriving Repr, DecidableEq

structure HsicConfig where
  unused : ℕ
  data : HsicData
deriving Repr, DecidableEq

structure HsicIntRange where
  max : ℤ
  min : ℤ
  step : ℕ
deriving Repr, DecidableEq

/-- A range of `float`; also `FloatRange` of the interface. -/
structure FloatRange where
  max : Binary32
  min : Binary32
  step : Binary32
deriving Repr, DecidableEq

structure HsicRanges where
  unused : ℕ
  hue : HsicIntRange
  saturation : FloatRange
  intensity : FloatRange
  contrast : FloatRange
  saturationThreshold : FloatRange
deriving Repr, DecidableEq

/-- The functions of the vendor library. Each takes the cookie first; those of the global
picture adjustment take a display next. -/
structure DispApi (β : Type) where
  getFeatureVersion : Option (ℕ → ℕ → β → ℤ × SdmFeatureVersion)
  getGlobalPaRange : Option (ℕ → ℕ → β → ℤ × HsicRanges)
  getGlobalPaConfig : Option (ℕ → ℕ → β → ℤ × HsicConfig)
  /-- Cookie, display, enable, configuration. -/
  setGlobalPaConfig : Option (ℕ → ℕ → ℕ → HsicConfig → β → ℤ × β)

/-- A library that stores the configuration it is given and never fails. -/
def DispApi.store (version : SdmFeatureVersion) (ranges : HsicRanges) : DispApi HsicConfig where
  getFeatureVersion := some fun _ _ _ => (0, version)
  getGlobalPaRange := some fun _ _ _ => (0, ranges)
  getGlobalPaConfig := some fun _ _ config => (0, config)
  setGlobalPaConfig := some fun _ _ _ config _ => (0, config)

/-! ## The object -/

/-- `HSIC` of the interface. -/
structure Hsic where
  hue : Binary32
  saturation : Binary32
  intensity : Binary32
  contrast : Binary32
  saturationThreshold : Binary32
deriving Repr, DecidableEq

/-- `HSIC{}`, all bits zero. -/
def Hsic.zero : Hsic := ⟨.zero, .zero, .zero, .zero, .zero⟩

/-- `FloatRange{}`. -/
def FloatRange.zero : FloatRange := ⟨.zero, .zero, .zero⟩

structure PictureAdjustment (β : Type) where
  mCookie : ℕ
  api : DispApi β
  mDefaultPictureAdjustment : Hsic

section Methods
variable {β : Type}

/-- `PictureAdjustment::PictureAdjustment`. -/
def PictureAdjustment.new (api : DispApi β) (cookie : ℕ) : PictureAdjustment β :=
  ⟨cookie, api, Hsic.zero⟩

/-- `isSupported`: the value the static `supported` is left with, which is what it returns. -/
def isSupported (pa : PictureAdjustment β) (backend : β) (supported : ℤ) : ℤ :=
  if supported ≥ 0 then supported
  else
    match pa.api.getFeatureVersion with
    | none => 0
    | some getFeatureVersion =>
      let (status, version) := getFeatureVersion pa.mCookie pictureAdjustmentFeature backend
      if status ≠ 0 then 0
      else if version.x ≤ 0 ∧ version.y ≤ 0 ∧ version.z ≤ 0 then 0
      else
        match pa.api.getGlobalPaRange with
        | none => 0
        | some getGlobalPaRange =>
          let (status, r) := getGlobalPaRange pa.mCookie 0 backend
          if status ≠ 0 then 0
          else if r.hue.max ≠ 0 ∧ r.hue.min ≠ 0 ∧
              ¬ r.saturation.max.isZero ∧ ¬ r.saturation.min.isZero ∧
              ¬ r.intensity.max.isZero ∧ ¬ r.intensity.min.isZero ∧
              ¬ r.contrast.max.isZero ∧ ¬ r.contrast.min.isZero then 1
          else 0

/-- The values of a configuration as the interface has them. -/
def HsicConfig.toHsic (config : HsicConfig) : Hsic :=
  ⟨.ofInt config.data.hue, config.data.saturation, config.data.intensity, config.data.contrast,
    config.data.saturationThreshold⟩

def getPictureAdjustmentInternal (pa : PictureAdjustment β) (backend : β) : Hsic :=
  match pa.api.getGlobalPaConfig with
  | none => Hsic.zero
  | some getGlobalPaConfig =>
    let (status, config) := getGlobalPaConfig pa.mCookie 0 backend
    if status = 0 then config.toHsic else Hsic.zero

/-- `sInstance` is the object the constructor ran on last. -/
def updateDefaultPictureAdjustment (sInstance : Option (PictureAdjustment β)) (backend : β) :
    Option (PictureAdjustment β) :=
  sInstance.map fun pa =>
    { pa with mDefaultPictureAdjustment := getPictureAdjustmentInternal pa backend }

/-- The body the five range queries share. -/
def getRange (select : HsicRanges → FloatRange) (pa : PictureAdjustment β) (backend : β) :
    FloatRange :=
  match pa.api.getGlobalPaRange with
  | none => FloatRange.zero
  | some getGlobalPaRange =>
    let (status, r) := getGlobalPaRange pa.mCookie 0 backend
    if status = 0 then select r else FloatRange.zero

/-- The bounds and the step of the hue are integers. -/
def getHueRange : PictureAdjustment β → β → FloatRange :=
  getRange fun r => ⟨.ofInt r.hue.max, .ofInt r.hue.min, .ofInt r.hue.step⟩

def getSaturationRange : PictureAdjustment β → β → FloatRange := getRange HsicRanges.saturation

def getIntensityRange : PictureAdjustment β → β → FloatRange := getRange HsicRanges.intensity

def getContrastRange : PictureAdjustment β → β → FloatRange := getRange HsicRanges.contrast

def getSaturationThresholdRange : PictureAdjustment β → β → FloatRange :=
  getRange HsicRanges.saturationThreshold

def getPictureAdjustment (pa : PictureAdjustment β) (backend : β) : Hsic :=
  getPictureAdjustmentInternal pa backend

def getDefaultPictureAdjustment (pa : PictureAdjustment β) : Hsic := pa.mDefaultPictureAdjustment

def setPictureAdjustment (pa : PictureAdjustment β) (hsic : Hsic) (backend : β) : Bool × β :=
  let config : HsicConfig := ⟨0, ⟨hsic.hue.toInt, hsic.saturation, hsic.intensity, hsic.contrast,
    hsic.saturationThreshold⟩⟩
  match pa.api.setGlobalPaConfig with
  | none => (false, backend)
  | some setGlobalPaConfig =>
    let (status, backend) := setGlobalPaConfig pa.mCookie 0 1 config backend
    (status = 0, backend)

end Methods

/-! ## Clients -/

inductive PaCall where
  | getHueRange
  | getSaturationRange
  | getIntensityRange
  | getContrastRange
  | getSaturationThresholdRange
  | getPictureAdjustment
  | getDefaultPictureAdjustment
  | setPictureAdjustment (hsic : Hsic)
deriving Repr, DecidableEq

inductive PaReply where
  | range (r : FloatRange)
  | hsic (h : Hsic)
  | bool (b : Bool)
deriving Repr, DecidableEq

/-- Serve one call with the object and the state of the vendor library. -/
def paStep {β : Type} : PictureAdjustment β × β → PaCall → (PictureAdjustment β × β) × List PaReply
  | (pa, backend), call =>
    match call with
    | .getHueRange => ((pa, backend), [.range (getHueRange pa backend)])
    | .getSaturationRange => ((pa, backend), [.range (getSaturationRange pa backend)])
    | .getIntensityRange => ((pa, backend), [.range (getIntensityRange pa backend)])
    | .getContrastRange => ((pa, backend), [.range (getContrastRange pa backend)])
    | .getSaturationThresholdRange =>
      ((pa, backend), [.range (getSaturationThresholdRange pa backend)])
    | .getPictureAdjustment => ((pa, backend), [.hsic (getPictureAdjustment pa backend)])
    | .getDefaultPictureAdjustment => ((pa, backend), [.hsic (getDefaultPictureAdjustment pa)])
    | .setPictureAdjustment hsic =>
      let (done, backend) := setPictureAdjustment pa hsic backend
      ((pa, backend), [.bool done])

end MeizuSm8150.Display
