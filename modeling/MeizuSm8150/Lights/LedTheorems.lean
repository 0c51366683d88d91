import MeizuSm8150.Lights.Light

/-!
# The shared LED

Each of the two stored states is a register that the calls of its type overwrite, and every
call of either type writes to the LED what both registers say. Before the first call of a type
its register holds what the memory of the object held: `writes_determined_iff` says for which
calls that shows.
-/

namespace MeizuSm8150.Lights

open CMachine Machine

/-! ## One call -/

/-- Red, green and blue: the colour without its alpha byte. -/
def rgb (state : LightState) : ℕ := state.color.toNat % 2 ^ 24

theorem isLit_iff (state : LightState) : isLit state = true ↔ rgb state ≠ 0 := by
  have hmask : (state.color &&& 0x00ffffff).toNat = rgb state := by
    rw [UInt32.toNat_and]
    exact Nat.and_two_pow_sub_one_eq_mod _ 24
  rw [isLit, bne_iff_ne, Ne, ← UInt32.toNat_inj, hmask]
  rfl

/-- What the LED shows for two states. -/
def ledValue (notification attention : LightState) : ℕ :=
  if rgb notification ≠ 0 ∨ rgb attention ≠ 0 then 10 else 0

theorem ledValue_comm (a b : LightState) : ledValue a b = ledValue b a := by
  simp only [ledValue, or_comm]

/-- A lit state decides the LED alone. -/
theorem ledValue_of_lit {a b : LightState} (h : rgb a ≠ 0) : ledValue a b = 10 :=
  if_pos (Or.inl h)

/-- A state that is not lit leaves it to the other, and what the other holds then shows. -/
theorem ledValue_getD_iff (a : LightState) (set : Option LightState) :
    (∀ b b', ledValue a (set.getD b) = ledValue a (set.getD b')) ↔ (set = none → rgb a ≠ 0) := by
  cases set with
  | some b => exact iff_of_true (fun _ _ => rfl) fun hnone => nomatch hnone
  | none =>
    constructor
    · intro h _ hunlit
      have hon : ledValue a ⟨1⟩ = 10 := if_pos (Or.inr (by decide))
      have hoff : ledValue a ⟨0⟩ = 0 := if_neg (not_or.mpr ⟨not_not.mpr hunlit, by decide⟩)
      have hsame : ledValue a ⟨1⟩ = ledValue a ⟨0⟩ := h ⟨1⟩ ⟨0⟩
      rw [hon, hoff] at hsame
      cases hsame
    · intro h b b'
      rw [ledValue_of_lit (h rfl), ledValue_of_lit (h rfl)]

theorem setSpeakerBatteryLightLocked_eq (l : Light) : setSpeakerBatteryLightLocked l
    = [⟨.mxLedBlink, ledValue l.mNotificationState l.mAttentionState⟩] := by
  unfold setSpeakerBatteryLightLocked ledValue
  simp only [isLit_iff]
  by_cases hn : rgb l.mNotificationState ≠ 0
  · rw [if_pos hn, if_pos (Or.inl hn), ledBlink]
  · by_cases ha : rgb l.mAttentionState ≠ 0
    · rw [if_neg hn, if_pos ha, if_pos (Or.inr ha), ledBlink]
    · rw [if_neg hn, if_neg ha, if_neg (not_or.mpr ⟨hn, ha⟩), ledOff]

theorem step_attention (l : Light) (state : LightState) : step l ⟨.attention, state⟩
    = ({ l with mAttentionState := state },
      [⟨.mxLedBlink, ledValue l.mNotificationState state⟩]) :=
  congrArg (Prod.mk _) (setSpeakerBatteryLightLocked_eq _)

theorem step_notifications (l : Light) (state : LightState) : step l ⟨.notifications, state⟩
    = ({ l with mNotificationState := state },
      [⟨.mxLedBlink, ledValue state l.mAttentionState⟩]) :=
  congrArg (Prod.mk _) (setSpeakerBatteryLightLocked_eq _)

theorem setLight_other (l : Light) (raw : ℤ) (state : LightState) :
    setLight l (.other raw) state = (.lightNotSupported, l, []) := rfl

theorem step_backlight (l : Light) (state : LightState) :
    ∃ v, step l ⟨.backlight, state⟩ = (l, [⟨.panelBrightness, v⟩]) := ⟨_, rfl⟩

/-- The stored states have no part in what is written to the panel. -/
theorem step_backlight_congr {l l' : Light} (h : l.mPanelMaxBrightness = l'.mPanelMaxBrightness)
    (state : LightState) :
    (step l ⟨.backlight, state⟩).2 = (step l' ⟨.backlight, state⟩).2 := by
  show (setPanelBacklight l state).2 = (setPanelBacklight l' state).2
  simp only [setPanelBacklight, h]

theorem step_other (l : Light) (raw : ℤ) (state : LightState) :
    step l ⟨.other raw, state⟩ = (l, []) := rfl

/-! ## Runs -/

theorem run_attention (l : Light) (calls : List Call) : (run step l calls).1.mAttentionState
    = (latest .attention calls).getD l.mAttentionState := by
  apply run_register step
  intro l c
  rcases c with ⟨type, state⟩
  cases type <;> rfl

theorem run_notification (l : Light) (calls : List Call) :
    (run step l calls).1.mNotificationState
      = (latest .notifications calls).getD l.mNotificationState := by
  apply run_register step
  intro l c
  rcases c with ⟨type, state⟩
  cases type <;> rfl

theorem run_maxBrightness (l : Light) (calls : List Call) :
    (run step l calls).1.mPanelMaxBrightness = l.mPanelMaxBrightness := by
  apply run_inv step (fun l' => l'.mPanelMaxBrightness = l.mPanelMaxBrightness) _ rfl
  intro l' c h
  rcases c with ⟨type, state⟩
  cases type <;> exact h

theorem latest_concat (type : LightType) (calls : List Call) (c : Call) :
    latest type (calls ++ [c]) = (if c.type = type then some c.state else none).or
      (latest type calls) := lastSome_concat _ _ _

theorem lastLed_concat (writes : List Write) (w : Write) : lastLed (writes ++ [w])
    = (if w.path = .mxLedBlink then some w.value else none).or (lastLed writes) :=
  lastSome_concat _ _ _

/-- After a call to either light the LED shows the stored states. -/
theorem run_lastLed (l : Light) (calls : List Call)
    (h : (latest .attention calls).isSome ∨ (latest .notifications calls).isSome) :
    lastLed (run step l calls).2 = some (ledValue (run step l calls).1.mNotificationState
      (run step l calls).1.mAttentionState) := by
  refine run_history step (fun calls r =>
    (latest .attention calls).isSome ∨ (latest .notifications calls).isSome →
      lastLed r.2 = some (ledValue r.1.mNotificationState r.1.mAttentionState)) ?_ ?_ calls h
  · simp [latest]
  · intro calls c r ih hcalled
    rw [latest_concat, latest_concat] at hcalled
    rcases c with ⟨type, state⟩
    cases type with
    | attention => rw [step_attention, lastLed_concat, if_pos rfl, Option.some_or]
    | notifications => rw [step_notifications, lastLed_concat, if_pos rfl, Option.some_or]
    | backlight =>
      -- a write, but not to the LED
      rcases step_backlight r.1 state with ⟨v, hv⟩
      rw [hv, lastLed_concat, if_neg Path.noConfusion, Option.none_or]
      exact ih (by simpa using hcalled)
    | other raw =>
      rw [step_other, List.append_nil]
      exact ih (by simpa using hcalled)

/-- Once both lights were set, the LED blinks exactly when the last state of one of them is
lit; no other type touches the LED or the stored states, and no LED type the panel. -/
theorem setLight_led (maxBrightness : Option Mem) (memory : Memory) (calls : List Call) :
    (∀ attention notification, latest .attention calls = some attention →
      latest .notifications calls = some notification →
        lastLed (run step (Light.new maxBrightness memory) calls).2
          = some (if rgb notification ≠ 0 ∨ rgb attention ≠ 0 then 10 else 0)) ∧
    (∀ (l : Light) (type : LightType) (state : LightState),
      (type ≠ .attention → type ≠ .notifications →
        (∀ w ∈ (setLight l type state).2.2, w.path ≠ .mxLedBlink) ∧
        (setLight l type state).2.1.mAttentionState = l.mAttentionState ∧
        (setLight l type state).2.1.mNotificationState = l.mNotificationState) ∧
      (type = .attention ∨ type = .notifications →
        ∀ w ∈ (setLight l type state).2.2, w.path ≠ .panelBrightness)) ∧
    ∀ (l : Light) (raw : ℤ) (state : LightState),
      setLight l (.other raw) state = (.lightNotSupported, l, []) := by
  refine ⟨fun attention notification hatt hnot => ?_, fun l type state => ?_, setLight_other⟩
  · rw [run_lastLed _ _ (Or.inl (by rw [hatt, Option.isSome_some])), run_attention,
      run_notification, hatt, hnot]
    rfl
  · have hstep : step l ⟨type, state⟩ = (setLight l type state).2 := rfl
    rw [← hstep]
    cases type with
    | attention => simp [step_attention]
    | notifications => simp [step_notifications]
    | backlight =>
      rcases step_backlight l state with ⟨v, hv⟩
      simp [hv]
    | other raw => simp [step_other]

/-! ## Unset lights -/

/-- What one call writes after the calls before it, for any two memories. -/
theorem step_writes_iff (maxBrightness : Option Mem) (pre : List Call) (c : Call) :
    (∀ memory memory', (step (run step (Light.new maxBrightness memory) pre).1 c).2
        = (step (run step (Light.new maxBrightness memory') pre).1 c).2) ↔
      (c.type = .attention → latest .notifications pre = none → rgb c.state ≠ 0) ∧
      (c.type = .notifications → latest .attention pre = none → rgb c.state ≠ 0) := by
  rcases c with ⟨type, state⟩
  cases type with
  | attention =>
    simp only [step_attention, run_notification, ledValue_comm _ state]
    have hread := ledValue_getD_iff state (latest .notifications pre)
    constructor
    · intro h
      refine ⟨fun _ => hread.mp fun b b' => ?_, fun htype => nomatch htype⟩
      simpa [Light.new] using h ⟨⟨0⟩, b⟩ ⟨⟨0⟩, b'⟩
    · intro h memory memory'
      rw [hread.mpr (h.1 trivial)]
  | notifications =>
    simp only [step_notifications, run_attention]
    have hread := ledValue_getD_iff state (latest .attention pre)
    constructor
    · intro h
      refine ⟨(fun htype => nomatch htype), fun _ => hread.mp fun b b' => ?_⟩
      simpa [Light.new] using h ⟨b, ⟨0⟩⟩ ⟨b', ⟨0⟩⟩
    · intro h memory memory'
      rw [hread.mpr (h.2 trivial)]
  | backlight =>
    refine iff_of_true (fun memory memory' => step_backlight_congr ?_ state) ⟨?_, ?_⟩
    · rw [run_maxBrightness, run_maxBrightness]
      rfl
    · exact fun htype => nomatch htype
    · exact fun htype => nomatch htype
  | other raw =>
    exact iff_of_true (fun _ _ => rfl)
      ⟨(fun htype => nomatch htype), fun htype => nomatch htype⟩

/-- How much a call writes depends on its type alone. -/
theorem length_step_writes (l l' : Light) (c : Call) :
    (step l c).2.length = (step l' c).2.length := by
  rcases c with ⟨type, state⟩
  cases type with
  | attention => rw [step_attention, step_attention]; rfl
  | notifications => rw [step_notifications, step_notifications]; rfl
  | backlight => rfl
  | other raw => rfl

/-- The writes of a call do not depend on the memory when no state is read that was not set. -/
theorem writes_determined_iff (maxBrightness : Option Mem) (calls : List Call) :
    (∀ memory memory', (run step (Light.new maxBrightness memory) calls).2
        = (run step (Light.new maxBrightness memory') calls).2) ↔
      ∀ pre c post, calls = pre ++ c :: post →
        (c.type = .attention → latest .notifications pre = none → rgb c.state ≠ 0) ∧
        (c.type = .notifications → latest .attention pre = none → rgb c.state ≠ 0) := by
  simp only [run_output_eq_iff step length_step_writes]
  constructor
  · intro h pre c post hcalls
    apply (step_writes_iff maxBrightness pre c).mp
    exact fun memory memory' => h memory memory' pre c post hcalls
  · intro h memory memory' pre c post hcalls
    exact (step_writes_iff maxBrightness pre c).mpr (h pre c post hcalls) memory memory'

/-- The first call puts the attention light out, and the LED shows the memory instead. -/
theorem writes_depend_on_memory :
    (run step (Light.new none ⟨⟨0⟩, ⟨0⟩⟩) [⟨.attention, ⟨0⟩⟩]).2 = [⟨.mxLedBlink, 0⟩] ∧
      (run step (Light.new none ⟨⟨0⟩, ⟨1⟩⟩) [⟨.attention, ⟨0⟩⟩]).2 = [⟨.mxLedBlink, 10⟩] := by
  decide

end MeizuSm8150.Lights
