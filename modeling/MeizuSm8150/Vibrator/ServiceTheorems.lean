import MeizuSm8150.Lib.Machine
import MeizuSm8150.Vibrator.PerformTheorems

/-!
# Runs of the vibrator service

Over any calls the device sees what it would see if it was called directly: the operations of the
calls that have one, in order. Every call is answered once, and the answers tell of as many
failures as the device had.
-/

namespace MeizuSm8150.Vibrator

open Machine

section Run
variable {δ : Type} (range : Version → EnumRange) (device : VibratorDevice δ)

/-- What a call asks of the device: the effects outside the interface or without a mapping ask for
nothing. -/
def ServiceCall.op : ServiceCall → Option DeviceOp
  | .on timeoutMs => some (.on timeoutMs)
  | .off => some .off
  | .perform version effect strength =>
    if (range version).Contains effect then
      (effectId effect).map fun id => .perform ⟨id, strengthLevel strength⟩
    else none
  | _ => none

/-- The device without the service. -/
def deviceStep (d : δ) (op : DeviceOp) : δ × List (DeviceOp × ℤ) :=
  let r := match op with
    | .on timeoutMs => device.vibratorOn timeoutMs d
    | .off => device.vibratorOff d
    | .perform call => device.vibratorPerformEffect call d
  (r.2, [(op, r.1)])

def ServiceEvent.op : ServiceEvent → Option (DeviceOp × ℤ)
  | .device op ret => some (op, ret)
  | _ => none

/-- The status an answer carries; `false` is the answer to `supportsAmplitudeControl`. -/
def ServiceEvent.answer : ServiceEvent → Option (Option Status)
  | .device _ _ => none
  | .status s => some (some s)
  | .bool _ => some none
  | .callback s _ => some (some s)

/-- A call with an operation does it and tells whether it failed. -/
theorem vibratorStep_op {d : δ} {c : ServiceCall} {op : DeviceOp} (h : c.op range = some op) :
    ∃ ret d' e, deviceStep device d op = (d', [(op, ret)]) ∧
      vibratorStep range device d c = (d', [.device op ret, e]) ∧
      e.answer = some (some (if ret ≠ 0 then .unknownError else .ok)) := by
  cases c with
  | on timeoutMs =>
    obtain rfl := Option.some.inj h
    refine ⟨_, _, .status (if (device.vibratorOn timeoutMs d).1 ≠ 0 then .unknownError else .ok),
      rfl, ?_, rfl⟩
    rw [vibratorStep, on]
    dsimp only
    split <;> rfl
  | off =>
    obtain rfl := Option.some.inj h
    refine ⟨_, _, .status (if (device.vibratorOff d).1 ≠ 0 then .unknownError else .ok),
      rfl, ?_, rfl⟩
    rw [vibratorStep, off]
    dsimp only
    split <;> rfl
  | supportsAmplitudeControl => cases h
  | setAmplitude amplitude => cases h
  | perform version effect strength =>
    dsimp only [ServiceCall.op] at h
    by_cases hin : (range version).Contains effect
    · rw [if_pos hin] at h
      obtain ⟨id, hid, rfl⟩ := Option.map_eq_some_iff.mp h
      refine ⟨(device.vibratorPerformEffect ⟨id, strengthLevel strength⟩ d).1, _,
        .callback (if (device.vibratorPerformEffect ⟨id, strengthLevel strength⟩ d).1 ≠ 0 then
            .unknownError else .ok)
          (if (device.vibratorPerformEffect ⟨id, strengthLevel strength⟩ d).1 ≠ 0 then 0 else 200),
        rfl, ?_, rfl⟩
      rw [vibratorStep, performOn, entryPoint_eq, performT_of_contains _ hin, performEffect, hid]
      dsimp only
      split <;> rfl
    · rw [if_neg hin] at h
      cases h

/-- A call without an operation leaves the device alone and tells of no failure. -/
theorem vibratorStep_none {d : δ} {c : ServiceCall} (h : c.op range = none) :
    ∃ e s, vibratorStep range device d c = (d, [e]) ∧ e.op = none ∧ e.answer = some s ∧
      s ≠ some .unknownError := by
  cases c with
  | on timeoutMs => cases h
  | off => cases h
  | supportsAmplitudeControl => exact ⟨.bool false, none, rfl, rfl, rfl, by decide⟩
  | setAmplitude amplitude =>
    exact ⟨.status .unsupportedOperation, some .unsupportedOperation, rfl, rfl, rfl, by decide⟩
  | perform version effect strength =>
    dsimp only [ServiceCall.op] at h
    rw [vibratorStep, performOn, entryPoint_eq]
    by_cases hin : (range version).Contains effect
    · rw [if_pos hin, Option.map_eq_none_iff] at h
      -- in the interface, but the device has no such effect
      rw [performT_of_contains _ hin, performEffect_unmapped _ h]
      exact ⟨.callback .ok 0, some .ok, rfl, rfl, rfl, by decide⟩
    · rw [performT_of_not_contains _ hin]
      exact ⟨.callback .unsupportedOperation 0, some .unsupportedOperation, rfl, rfl, rfl,
        by decide⟩

/-- An answer is not an operation. -/
theorem ServiceEvent.op_of_answer {e : ServiceEvent} {s : Option Status} (h : e.answer = some s) :
    e.op = none := by
  cases e with
  | device op ret => cases h
  | _ => rfl

/-- An operation and its answer, as seen on either side. -/
theorem filterMap_op_answer {op : DeviceOp} {ret : ℤ} {e : ServiceEvent} {s : Option Status}
    (h : e.answer = some s) : [.device op ret, e].filterMap ServiceEvent.op = [(op, ret)] ∧
      [.device op ret, e].filterMap ServiceEvent.answer = [s] := by
  have hop : (ServiceEvent.device op ret).op = some (op, ret) := rfl
  have hanswer : (ServiceEvent.device op ret).answer = none := rfl
  constructor
  · rw [List.filterMap_cons_some hop, List.filterMap_cons_none (ServiceEvent.op_of_answer h)]
    rfl
  · rw [List.filterMap_cons_none hanswer, List.filterMap_cons_some h]
    rfl

/-- The device sees the operations of the calls and nothing else. -/
theorem projects_device : Projects (vibratorStep range device) (deviceStep device) (fun _ => True)
    (fun d => d) (ServiceCall.op range) ServiceEvent.op := by
  refine ⟨fun _ _ h => h, fun d c op _ hop => ?_, fun d c _ hop => ?_⟩
  · obtain ⟨ret, d', e, hdirect, hstep, hanswer⟩ := vibratorStep_op range device (d := d) hop
    rw [hstep, hdirect]
    exact ⟨rfl, (filterMap_op_answer hanswer).1⟩
  · obtain ⟨e, s, hstep, he, -, -⟩ := vibratorStep_none range device (d := d) hop
    rw [hstep, List.filterMap_cons_none he]
    exact ⟨rfl, rfl⟩

/-- The device ends as if the operations were done on it directly, it was asked for the same with
the same results, every call is answered once, and as many answers tell of a failure as operations
failed. -/
theorem vibrator_run (d : δ) (calls : List ServiceCall) :
    let r := run (vibratorStep range device) d calls
    let direct := run (deviceStep device) d (calls.filterMap (ServiceCall.op range))
    r.1 = direct.1 ∧ r.2.filterMap ServiceEvent.op = direct.2 ∧
      (r.2.filterMap ServiceEvent.answer).length = calls.length ∧
      (r.2.filterMap ServiceEvent.answer).count (some .unknownError)
        = direct.2.countP (fun o => o.2 ≠ 0) := by
  have hdevice := (projects_device range device).run_eq trivial (s := d) calls
  refine ⟨hdevice.1, hdevice.2, ?_, ?_⟩
  · refine run_history (vibratorStep range device)
      (fun calls r => (r.2.filterMap ServiceEvent.answer).length = calls.length) rfl ?_ calls
    intro calls c r ih
    rw [List.filterMap_append, List.length_append, ih, List.length_append]
    cases hop : c.op range with
    | some op =>
      obtain ⟨ret, d', e, -, hstep, hanswer⟩ := vibratorStep_op range device (d := r.1) hop
      rw [hstep, (filterMap_op_answer hanswer).2]
      rfl
    | none =>
      obtain ⟨e, s, hstep, -, hanswer, -⟩ := vibratorStep_none range device (d := r.1) hop
      rw [hstep, List.filterMap_cons_some hanswer]
      rfl
  · rw [← hdevice.2]
    refine run_history (vibratorStep range device) (fun _ r =>
      (r.2.filterMap ServiceEvent.answer).count (some .unknownError)
        = (r.2.filterMap ServiceEvent.op).countP (fun o => o.2 ≠ 0)) rfl ?_ calls
    intro calls c r ih
    rw [List.filterMap_append, List.filterMap_append, List.count_append, List.countP_append, ih]
    congr 1
    cases hop : c.op range with
    | some op =>
      obtain ⟨ret, d', e, -, hstep, hanswer⟩ := vibratorStep_op range device (d := r.1) hop
      rw [hstep, (filterMap_op_answer hanswer).1, (filterMap_op_answer hanswer).2]
      by_cases hret : ret ≠ 0
      · simp [hret]
      · simp [not_not.mp hret]
    | none =>
      obtain ⟨e, s, hstep, he, hanswer, hs⟩ := vibratorStep_none range device (d := r.1) hop
      rw [hstep, List.filterMap_cons_some hanswer, List.filterMap_cons_none he]
      simp [hs]

end Run

end MeizuSm8150.Vibrator
