import MeizuSm8150.Lib.CDecimal
import MeizuSm8150.Lib.FloatValue
import MeizuSm8150.Display.PictureAdjustment

/-!
# Reading back the picture adjustment

The interface has the hue as a `float` and the vendor library as an integer, so what is set is
read back with the hue cut to an integer, and everything else as it was. What was once read can
be written and read again without a further change.
-/

namespace MeizuSm8150.Display

open CDecimal Machine FloatFormat

/-- The values after they went through the vendor library. -/
def Hsic.stored (h : Hsic) : Hsic := { h with hue := .ofInt h.hue.toInt }

def PaCall.set : PaCall → Option Hsic
  | .setPictureAdjustment hsic => some hsic
  | _ => none

def PaReply.done : PaReply → Option Bool
  | .bool b => some b
  | _ => none

section Store
variable {pa : PictureAdjustment HsicConfig} {version : SdmFeatureVersion} {ranges : HsicRanges}

theorem getPictureAdjustment_store (h : pa.api = DispApi.store version ranges)
    (backend : HsicConfig) : getPictureAdjustment pa backend = backend.toHsic := by
  simp only [getPictureAdjustment, getPictureAdjustmentInternal, h, DispApi.store, if_true]

theorem setPictureAdjustment_store (h : pa.api = DispApi.store version ranges) (hsic : Hsic)
    (backend : HsicConfig) : setPictureAdjustment pa hsic backend
      = (true, ⟨0, ⟨hsic.hue.toInt, hsic.saturation, hsic.intensity, hsic.contrast,
        hsic.saturationThreshold⟩⟩) := by
  simp only [setPictureAdjustment, h, DispApi.store, decide_true]

/-- What is read after a set. -/
theorem get_set (h : pa.api = DispApi.store version ranges) (hsic : Hsic) (backend : HsicConfig) :
    getPictureAdjustment pa (setPictureAdjustment pa hsic backend).2 = hsic.stored := by
  rw [getPictureAdjustment_store h, setPictureAdjustment_store h]
  rfl

/-- The values survive exactly when the hue is an integer that a `float` can hold. -/
theorem stored_eq_iff (hsic : Hsic) :
    hsic.stored = hsic ↔ ∃ v, FitsInt v ∧ hsic.hue = .ofInt v := by
  rcases hsic with ⟨hue, saturation, intensity, contrast, saturationThreshold⟩
  constructor
  · intro hsame
    exact ⟨hue.toInt, hue.toInt_bounds, (congrArg Hsic.hue hsame).symm⟩
  · intro hint
    obtain ⟨v, hv, hhue⟩ := hint
    rw [Hsic.stored]
    dsimp only at hhue ⊢
    rw [hhue, Binary32.ofInt_toInt_ofInt hv.1 hv.2]

/-- As numbers: the hue is cut to an integer, and that rounded to a `float`. -/
theorem stored_hue_value (hsic : Hsic) (hfinite : hsic.hue.exponent ≠ 255)
    (hfits : FitsInt (trunc hsic.hue.value)) :
    hsic.stored.hue.value = binary32.round (trunc hsic.hue.value) := by
  have hint : hsic.hue.toInt = trunc hsic.hue.value :=
    Binary32.toInt_eq_trunc hfinite hfits.1 hfits.2
  have hbounds := hsic.hue.toInt_bounds
  rw [Hsic.stored, Binary32.value_ofInt (by omega), hint]

theorem stored_stored (hsic : Hsic) : hsic.stored.stored = hsic.stored :=
  (stored_eq_iff hsic.stored).mpr ⟨hsic.hue.toInt, hsic.hue.toInt_bounds, rfl⟩

theorem pa_step (h : pa.api = DispApi.store version ranges) (s : PictureAdjustment HsicConfig ×
    HsicConfig) (c : PaCall) (hs : s.1 = pa) : (paStep s c).1.1 = pa ∧
      getPictureAdjustment (paStep s c).1.1 (paStep s c).1.2
        = (c.set.map Hsic.stored).getD (getPictureAdjustment s.1 s.2) ∧
      (paStep s c).2.filterMap PaReply.done = (c.set.map fun _ => true).toList := by
  rcases s with ⟨pa', backend⟩
  obtain rfl : pa' = pa := hs
  cases c with
  | setPictureAdjustment hsic =>
    refine ⟨rfl, get_set h hsic backend, ?_⟩
    simp only [paStep, setPictureAdjustment_store h]
    rfl
  | _ => exact ⟨rfl, rfl, rfl⟩

/-- After any calls of any clients the adjustment that is read is the one set last, with its hue
cut to an integer, or before the first the one in effect at the start. Every set succeeds, and is
read back as it was exactly for the integers a `float` can hold, so a client that writes what it
read changes nothing that anyone reads. A small integer reaches the vendor library as it is. -/
theorem pa_run (pa : PictureAdjustment HsicConfig) (h : pa.api = DispApi.store version ranges)
    (backend : HsicConfig) (hhue : FitsInt backend.data.hue) (calls : List PaCall) :
    let r := run paStep (pa, backend) calls
    let read := getPictureAdjustment r.1.1 r.1.2
    read = ((lastSome PaCall.set calls).map Hsic.stored).getD backend.toHsic ∧
      r.2.filterMap PaReply.done = calls.filterMap (fun c => c.set.map fun _ => true) ∧
      (∀ hsic, getPictureAdjustment r.1.1 (setPictureAdjustment r.1.1 hsic r.1.2).2 = hsic ↔
        ∃ v, FitsInt v ∧ hsic.hue = .ofInt v) ∧
      getPictureAdjustment r.1.1 (setPictureAdjustment r.1.1 read r.1.2).2 = read ∧
      ∀ hsic v, v.natAbs < 2 ^ 24 → hsic.hue = .ofInt v →
        (setPictureAdjustment r.1.1 hsic r.1.2).2.data.hue = v := by
  -- no call changes the object, so that each meets the same library
  have hkeep : ∀ s c, s.1 = pa → (paStep s c).1.1 = pa := fun s c hs => (pa_step h s c hs).1
  have hpa : (run paStep (pa, backend) calls).1.1 = pa :=
    run_inv paStep (fun s => s.1 = pa) hkeep rfl calls
  have hread := run_register_of paStep (fun s => s.1 = pa) hkeep
    (fun s => getPictureAdjustment s.1 s.2) (fun c => c.set.map Hsic.stored)
    (fun s c hs => (pa_step h s c hs).2.1) (s := (pa, backend)) rfl calls
  have hdone := run_filterMap_of paStep (fun s => s.1 = pa) hkeep PaReply.done
    (fun c => c.set.map fun _ => true) (fun s c hs => (pa_step h s c hs).2.2)
    (s := (pa, backend)) rfl calls
  rw [lastSome_map] at hread
  dsimp only at hread ⊢
  rw [hpa] at hread ⊢
  rw [getPictureAdjustment_store h backend] at hread
  refine ⟨hread, hdone, fun hsic => ?_, ?_, fun hsic v hv hhue => ?_⟩
  · rw [get_set h, stored_eq_iff]
  · rw [get_set h, hread]
    cases lastSome PaCall.set calls with
    -- what is in effect has an integer for its hue
    | none => exact (stored_eq_iff _).mpr ⟨backend.data.hue, hhue, rfl⟩
    | some hsic => exact stored_stored hsic
  · rw [setPictureAdjustment_store h]
    dsimp only
    rw [hhue, Binary32.toInt_ofInt hv]

end Store

/-- A hue of a half, set once and written back. -/
theorem pa_run_half :
    let pa : PictureAdjustment HsicConfig :=
      .new (.store ⟨1, 0, 0⟩ ⟨0, ⟨180, -180, 1⟩, .zero, .zero, .zero, .zero⟩) 7
    let r := run paStep (pa, ⟨0, ⟨0, .zero, .zero, .zero, .zero⟩⟩)
      [.setPictureAdjustment ⟨⟨0x3f000000⟩, .zero, .zero, .zero, .zero⟩]
    getPictureAdjustment r.1.1 r.1.2 = Hsic.zero := by
  intro pa r
  have h := pa_run pa rfl ⟨0, ⟨0, .zero, .zero, .zero, .zero⟩⟩ (by decide)
    [.setPictureAdjustment ⟨⟨0x3f000000⟩, .zero, .zero, .zero, .zero⟩]
  exact h.1.trans (by decide)

end MeizuSm8150.Display
