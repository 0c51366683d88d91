import MeizuSm8150.Display.LiveDisplayService

/-!
# The default picture adjustment

The constructor zeroes the default and no step of the service writes it again: `main` does not
call `updateDefaultPictureAdjustment`, and neither does any method. So every client is told
zeros, whatever was in effect at the start.
-/

namespace MeizuSm8150.Display

open CMachine Machine

section Default
variable {β : Type}

/-! ## The start of the service -/

theorem gotoShutdownIf_ok {condition : Prop} [Decidable condition] {st st' : MainState β}
    (h : gotoShutdownIf condition st = .ok st') : ¬ condition ∧ st' = st := by
  unfold gotoShutdownIf at h
  by_cases hc : condition
  · rw [if_pos hc] at h
    cases h
  · rw [if_neg hc] at h
    cases h
    exact ⟨hc, rfl⟩

/-- Registering does not touch the object. -/
theorem registerIf_pa {supported : Prop} [Decidable supported] {status : ℤ} {event : ℤ → Event}
    {st st' : MainState β} (h : registerIf supported status event st = .ok st') :
    st'.pa = st.pa := by
  unfold registerIf at h
  by_cases hs : supported
  · rw [if_pos hs] at h
    rw [(gotoShutdownIf_ok h).2]
    rfl
  · rw [if_neg hs] at h
    cases h
    rfl

/-- The object that serves clients is as the constructor left it. -/
theorem startUp_pa {env : Env β} {st : MainState β} (h : startUp env = .ok st) :
    st.pa = some (PictureAdjustment.new env.api env.initCookie) := by
  unfold startUp at h
  -- one equation for each place where `main` may jump
  rcases bind_eq_ok h with ⟨st₁, h₁, h⟩
  rcases bind_eq_ok h with ⟨st₂, h₂, h⟩
  rcases bind_eq_ok h with ⟨st₃, h₃, h⟩
  rcases bind_eq_ok h with ⟨st₄, h₄, h⟩
  rcases bind_eq_ok h with ⟨st₅, h₅, h⟩
  rcases bind_eq_ok h with ⟨st₆, h₆, h⟩
  rcases bind_eq_ok h with ⟨st₇, h₇, h⟩
  cases h
  have hcookie : st₄.cookie = env.initCookie := by rw [(gotoShutdownIf_ok h₄).2]; rfl
  calc st₇.pa = st₆.pa := registerIf_pa h₇
    _ = st₅.pa := by rw [registerIf_pa h₆]; rfl
    _ = some (PictureAdjustment.new env.api st₄.cookie) := by rw [(gotoShutdownIf_ok h₅).2]; rfl
    _ = some (PictureAdjustment.new env.api env.initCookie) := by rw [hcookie]

/-! ## What clients do to it -/

/-- No call touches the object. -/
theorem run_pa (pa : PictureAdjustment β) (backend : β) (calls : List PaCall) :
    (run paStep (pa, backend) calls).1.1 = pa := by
  apply run_inv paStep (fun s => s.1 = pa) _ rfl
  intro s call h
  rcases s with ⟨pa', backend'⟩
  cases call <;> exact h

end Default

/-- The five values when all bits are zero. -/
def HsicData.zero : HsicData := ⟨0, .zero, .zero, .zero, .zero⟩

/-- The step nobody takes: before any client, it captures the adjustment in effect. -/
theorem updateDefaultPictureAdjustment_captures {api : DispApi HsicConfig}
    {version : SdmFeatureVersion} {ranges : HsicRanges} (h : api = DispApi.store version ranges)
    (cookie : ℕ) (backend : HsicConfig) :
    (updateDefaultPictureAdjustment (some (PictureAdjustment.new api cookie)) backend).map
      getDefaultPictureAdjustment = some backend.toHsic := by
  subst h
  rfl

/-- Storing the zeroed default stores zeros. -/
theorem setPictureAdjustment_zero {pa : PictureAdjustment HsicConfig} {version : SdmFeatureVersion}
    {ranges : HsicRanges} (h : pa.api = DispApi.store version ranges) (backend : HsicConfig) :
    (setPictureAdjustment pa Hsic.zero backend).2.data = HsicData.zero := by
  rw [setPictureAdjustment, h]
  simp only [DispApi.store, Hsic.zero, Binary32.toInt_zero, HsicData.zero]

/-- Whatever clients do after the start, the default is the adjustment in effect at the start,
and setting it restores that, exactly when the adjustment at the start was all zeros. -/
theorem default_iff {env : Env HsicConfig} {version : SdmFeatureVersion} {ranges : HsicRanges}
    {st : MainState HsicConfig} {pa : PictureAdjustment HsicConfig}
    (hstore : env.api = DispApi.store version ranges) (hstart : startUp env = .ok st)
    (hpa : st.pa = some pa) :
    (∀ calls : List PaCall,
      getDefaultPictureAdjustment (run paStep (pa, env.backend) calls).1.1
          = env.backend.toHsic ∧
        (setPictureAdjustment (run paStep (pa, env.backend) calls).1.1
          (getDefaultPictureAdjustment (run paStep (pa, env.backend) calls).1.1)
          (run paStep (pa, env.backend) calls).1.2).2.data = env.backend.data) ↔
      env.backend.data = HsicData.zero := by
  obtain rfl : PictureAdjustment.new env.api env.initCookie = pa := by
    rw [startUp_pa hstart] at hpa
    exact Option.some.inj hpa
  simp only [run_pa]
  have hzero : ∀ backend, (setPictureAdjustment (PictureAdjustment.new env.api env.initCookie)
      Hsic.zero backend).2.data = HsicData.zero := setPictureAdjustment_zero hstore
  constructor
  · intro h
    rw [← (h []).2]
    exact hzero _
  · intro h calls
    refine ⟨?_, (hzero _).trans h.symm⟩
    rw [HsicConfig.toHsic, h, HsicData.zero, Binary32.ofInt_zero]
    rfl

/-- An environment in which the service starts, with `data` in effect. -/
def startingEnv (data : HsicData) : Env HsicConfig :=
  let range : FloatRange := ⟨.ofInt 1, .ofInt (-1), .ofInt 1⟩
  { loads := fun _ => true, findsInit := true, findsDeinit := true, initStatus := 0,
    initCookie := 7, api := .store ⟨1, 0, 0⟩ ⟨0, ⟨180, -180, 1⟩, range, range, range, range⟩,
    backend := ⟨0, data⟩, seSupported := true, paRegisters := 0, seRegisters := 0 }

/-- A start with zeros in effect, and a client that changes the adjustment. -/
theorem default_iff_of_zero :
    getDefaultPictureAdjustment (run paStep
        (PictureAdjustment.new (startingEnv HsicData.zero).api 7, ⟨0, HsicData.zero⟩)
        [.setPictureAdjustment ⟨.ofInt 30, .ofInt 1, .zero, .zero, .zero⟩]).1.1
      = (startingEnv HsicData.zero).backend.toHsic := by
  obtain ⟨st, hstart⟩ : ∃ st, startUp (startingEnv HsicData.zero) = .ok st := ⟨_, rfl⟩
  exact ((default_iff rfl hstart (startUp_pa hstart)).mpr rfl
    [.setPictureAdjustment ⟨.ofInt 30, .ofInt 1, .zero, .zero, .zero⟩]).1

/-- With a saturation of `1` in effect at the start, the default is zero before any call, and
setting it loses the saturation. -/
theorem default_not_captured :
    (∃ st, startUp (startingEnv ⟨0, .ofInt 1, .zero, .zero, .zero⟩) = .ok st ∧
      (st.pa.map getDefaultPictureAdjustment) = some Hsic.zero) ∧
    (startingEnv ⟨0, .ofInt 1, .zero, .zero, .zero⟩).backend.toHsic ≠ Hsic.zero ∧
    (setPictureAdjustment
        (PictureAdjustment.new (startingEnv ⟨0, .ofInt 1, .zero, .zero, .zero⟩).api 7) Hsic.zero
        (startingEnv ⟨0, .ofInt 1, .zero, .zero, .zero⟩).backend).2.data
      ≠ ⟨0, .ofInt 1, .zero, .zero, .zero⟩ :=
  ⟨⟨_, rfl, rfl⟩, by decide, by decide⟩

end MeizuSm8150.Display
