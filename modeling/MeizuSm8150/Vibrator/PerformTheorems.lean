import MeizuSm8150.Vibrator.Vibrator

/-!
# What `perform` reports

A call that is turned away by the range check, or whose effect and strength are both mapped,
reports what the device did. The two switches let the other calls through: an effect that the
interface knows and the mapping does not is reported as played, and a strength outside the enum
reaches the device unassigned.
-/

namespace MeizuSm8150.Vibrator

section Perform
variable (range : Version → EnumRange) (device : DeviceCall → ℤ)

/-- Entry point and mapping know the effect, and the mapping knows the strength. -/
def Supported (version : Version) (effect : Effect) (strength : EffectStrength) : Prop :=
  (range version).Contains effect ∧ (effectId effect).isSome ∧ (strengthLevel strength).isSome

/-- The one callback tells what the device did. -/
structure Reports (supported : Prop) (out : Outcome) (status : Status) (length : ℕ) : Prop where
  once : out.callbacks = [(status, length)]
  ok_iff : status = .ok ↔ ∃ call, out.deviceCalls = [call] ∧ device call = 0
  length_iff : length ≠ 0 ↔ status = .ok
  unsupported : ¬ supported →
    status = .unsupportedOperation ∧ length = 0 ∧ out.deviceCalls = []
  failed : (∃ call ∈ out.deviceCalls, device call ≠ 0) → status = .unknownError ∧ length = 0
  assigned : ∀ call ∈ out.deviceCalls, call.strn.isSome

theorem performT_of_not_contains {validRange : EnumRange} {effect : Effect}
    (h : ¬ validRange.Contains effect) (strength : EffectStrength) :
    performT validRange device effect strength = ⟨[(.unsupportedOperation, 0)], []⟩ := by
  have hout : effect < validRange.first ∨ effect > validRange.last := by
    rcases not_and_or.mp h with hlt | hgt
    · exact Or.inl (UInt32.not_le.mp hlt)
    · exact Or.inr (UInt32.not_le.mp hgt)
  rw [performT, if_pos hout]

theorem performT_of_contains {validRange : EnumRange} {effect : Effect}
    (h : validRange.Contains effect) (strength : EffectStrength) :
    performT validRange device effect strength = performEffect device effect strength := by
  have hin : ¬ (effect < validRange.first ∨ effect > validRange.last) :=
    not_or.mpr ⟨UInt32.not_lt.mpr h.1, UInt32.not_lt.mpr h.2⟩
  rw [performT, if_neg hin]

theorem entryPoint_eq (version : Version) :
    entryPoint range device version = performT (range version) device := by
  cases version <;> rfl

/-- Wherever an effect is known, its outcome is the same. -/
theorem entryPoint_agree {version version' : Version} {effect : Effect}
    (h : (range version).Contains effect) (h' : (range version').Contains effect)
    (strength : EffectStrength) :
    entryPoint range device version effect strength
      = entryPoint range device version' effect strength := by
  rw [entryPoint_eq, entryPoint_eq, performT_of_contains device h, performT_of_contains device h']

/-- An effect that is mapped is played, at the strength that is mapped. -/
theorem performEffect_reports {effect : Effect} {strength : EffectStrength}
    (he : (effectId effect).isSome) (hs : (strengthLevel strength).isSome) {supported : Prop}
    (hsup : supported) :
    ∃ status length,
      Reports device supported (performEffect device effect strength) status length := by
  rcases Option.isSome_iff_exists.mp he with ⟨id, hid⟩
  rw [performEffect, hid]
  dsimp only
  by_cases hret : device ⟨id, strengthLevel strength⟩ ≠ 0
  · rw [if_pos hret]
    refine ⟨.unknownError, 0, rfl, iff_of_false Status.noConfusion ?_,
      iff_of_false (not_not.mpr rfl) Status.noConfusion, fun hno => absurd hsup hno,
      fun _ => ⟨rfl, rfl⟩, fun call hcall => ?_⟩
    · intro hplayed
      rcases hplayed with ⟨call, hcall, h0⟩
      cases hcall
      exact hret h0
    · rw [List.mem_singleton.mp hcall]
      exact hs
  · rw [if_neg hret]
    refine ⟨.ok, 200, rfl, iff_of_true rfl ⟨_, rfl, not_not.mp hret⟩,
      iff_of_true (by decide) rfl, fun hno => absurd hsup hno, fun hfailed => ?_,
      fun call hcall => ?_⟩
    · rcases hfailed with ⟨call, hcall, h0⟩
      rw [List.mem_singleton.mp hcall] at h0
      exact absurd h0 hret
    · rw [List.mem_singleton.mp hcall]
      exact hs

/-- An effect without a mapping is reported as played. -/
theorem performEffect_unmapped {effect : Effect} (h : effectId effect = none)
    (strength : EffectStrength) :
    performEffect device effect strength = ⟨[(.ok, 0)], []⟩ := by
  rw [performEffect, h]

/-- A strength without a mapping is handed to the device unassigned. -/
theorem performEffect_unassigned {effect : Effect} {strength : EffectStrength} {id : ℕ}
    (he : effectId effect = some id) (hs : strengthLevel strength = none) :
    ⟨id, none⟩ ∈ (performEffect device effect strength).deviceCalls := by
  rw [performEffect, he, hs]
  dsimp only
  by_cases hret : device ⟨id, none⟩ ≠ 0
  · rw [if_pos hret]
    exact List.mem_singleton_self _
  · rw [if_neg hret]
    exact List.mem_singleton_self _

/-- Whatever the device returns, the callback tells what it did, and an effect that two
versions know has one outcome, exactly when the effect is unknown to the version or effect and
strength are both mapped. -/
theorem entryPoint_reports_iff (version : Version) (effect : Effect)
    (strength : EffectStrength) :
    ((∃ status length, Reports device (Supported range version effect strength)
        (entryPoint range device version effect strength) status length) ∧
      ∀ version', (range version).Contains effect → (range version').Contains effect →
        entryPoint range device version effect strength
          = entryPoint range device version' effect strength) ↔
      ¬ (range version).Contains effect ∨
        (effectId effect).isSome ∧ (strengthLevel strength).isSome := by
  have hagree : ∀ version', (range version).Contains effect →
      (range version').Contains effect → entryPoint range device version effect strength
        = entryPoint range device version' effect strength :=
    fun version' h h' => entryPoint_agree range device h h' strength
  rw [and_iff_left hagree, entryPoint_eq]
  by_cases hin : (range version).Contains effect
  · rw [performT_of_contains device hin]
    cases he : effectId effect with
    | none =>
      rw [performEffect_unmapped device he]
      refine iff_of_false (fun hreports => ?_) (by simp [hin])
      rcases hreports with ⟨status, length, hr⟩
      have hunsupported := hr.unsupported fun hsup => by simp [Supported, he] at hsup
      have honce := hr.once
      rw [hunsupported.1] at honce
      cases honce
    | some id =>
      cases hs : strengthLevel strength with
      | none =>
        refine iff_of_false (fun hreports => ?_) (by simp [hin])
        rcases hreports with ⟨status, length, hr⟩
        have hassigned := hr.assigned _ (performEffect_unassigned device he hs)
        cases hassigned
      | some level =>
        have he' : (effectId effect).isSome := by rw [he, Option.isSome_some]
        have hs' : (strengthLevel strength).isSome := by rw [hs, Option.isSome_some]
        exact iff_of_true (performEffect_reports device he' hs' ⟨hin, he', hs'⟩)
          (Or.inr ⟨rfl, rfl⟩)
  · rw [performT_of_not_contains device hin]
    refine iff_of_true ⟨.unsupportedOperation, 0, rfl, iff_of_false Status.noConfusion ?_,
      iff_of_false (not_not.mpr rfl) Status.noConfusion, fun _ => ⟨rfl, rfl, rfl⟩, ?_, ?_⟩
      (Or.inl hin)
    · intro hplayed
      rcases hplayed with ⟨call, hcall, -⟩
      cases hcall
    · intro hfailed
      rcases hfailed with ⟨call, hcall, -⟩
      cases hcall
    · intro call hcall
      cases hcall

end Perform

/-- A ringtone is reported as played with length `0` and without a call of the device, and a
click at strength `3` reaches the device with no strength assigned. -/
theorem entryPoint_reports_unplayed :
    (¬ ∃ status length, Reports (fun _ => 0)
        (Supported publicRange .v1_2 Effect.ringtone1 EffectStrength.medium)
        (entryPoint publicRange (fun _ => 0) .v1_2 Effect.ringtone1 EffectStrength.medium)
        status length) ∧
      entryPoint publicRange (fun _ => 0) .v1_2 Effect.ringtone1 EffectStrength.medium
        = ⟨[(.ok, 0)], []⟩ ∧
      entryPoint publicRange (fun _ => 0) .v1_0 Effect.click 3
        = ⟨[(.ok, 200)], [⟨31008, none⟩]⟩ := by
  have hringtone : entryPoint publicRange (fun _ => 0) .v1_2 Effect.ringtone1
      EffectStrength.medium = ⟨[(.ok, 0)], []⟩ := by decide
  refine ⟨fun hreports => ?_, hringtone, by decide⟩
  obtain ⟨status, length, hr⟩ := hreports
  have honce := hr.once
  rw [hringtone] at honce
  cases honce
  -- no call of the device backs the status
  obtain ⟨call, hcall, -⟩ := hr.ok_iff.mp rfl
  rw [hringtone] at hcall
  cases hcall

end MeizuSm8150.Vibrator
