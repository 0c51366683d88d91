import MeizuSm8150.Lights.LightTheorems
import MeizuSm8150.Display.DimTheorems
import MeizuSm8150.Display.FodTheorems
import MeizuSm8150.Display.HbmTheorems
import MeizuSm8150.Services.Device

/-!
# Interleavings of the services

Whatever the order in which the calls arrive, each service writes and sends what it would alone
(`device_alone`), no call ends a process, and every file holds what was last written to it by
whichever service (`device_run`). The fingerprint service therefore dims by the brightness that
the light service set last, and never more for a brighter colour (`device_dim_antitone`).
-/

namespace MeizuSm8150.Services

open CMachine CDecimal Sysfs Machine Lights Display

/-! ## The calls of a service -/

def DeviceCall.toLight : DeviceCall → Option Call
  | .light c => some c
  | _ => none

def DeviceCall.toFod : DeviceCall → Option FodCall
  | .fod c => some c
  | _ => none

/-- What a call writes to the attribute both display services write. -/
def DeviceCall.hbm : DeviceCall → Option ℤ
  | .fod c => c.hbm
  | .sunlight (.setEnabled enabled) => some (if enabled then 1 else 0)
  | _ => none

def DeviceEvent.written : DeviceEvent → Option Write
  | .write w => some w
  | _ => none

def DeviceEvent.sent : DeviceEvent → Option ℤ
  | .fod e => e.sent
  | _ => none

/-- The LED is none of the files with another last letter. -/
theorem led_ne (mxLedPath : String) {path : String} (h : path.toList.getLast? ≠ some 'k') :
    pathName mxLedPath .mxLedBlink ≠ path := by
  intro heq
  apply h
  rw [← heq, pathName, String.toList_append, List.getLast?_append]
  rfl

theorem led_ne_hbm (mxLedPath : String) : pathName mxLedPath .mxLedBlink ≠ hbmEnablePath :=
  led_ne mxLedPath (by decide)

theorem led_ne_boost (mxLedPath : String) : pathName mxLedPath .mxLedBlink ≠ boostEnablePath :=
  led_ne mxLedPath (by decide)

theorem led_ne_brightness (mxLedPath : String) :
    pathName mxLedPath .mxLedBlink ≠ brightnessPath := led_ne mxLedPath (by decide)

theorem brightness_ne_hbm : brightnessPath ≠ hbmEnablePath := by decide

theorem brightness_ne_boost : brightnessPath ≠ boostEnablePath := by decide

/-! ## One call -/

/-- The fingerprint service found its daemon and serves. -/
structure Serving (d : Device) : Prop where
  daemon : ∃ daemon, d.fod.mGoodixFpDaemon = some daemon
  fodRunning : d.fodRunning = true

/-- So does the sunlight service, and the attribute reads as a number. -/
structure Healthy (d : Device) : Prop extends Serving d where
  sunlightRunning : d.sunlightRunning = true
  isEnabled : ∃ enabled, isEnabled d.files = .ok enabled

theorem isEnabled_congr {files files' : Files} (h : files hbmEnablePath = files' hbmEnablePath) :
    isEnabled files = isEnabled files' := by
  rw [Display.isEnabled, Display.isEnabled, fileHbm_eq, h]

/-- The files a call leaves. -/
def filesAfter (mxLedPath : String) (d : Device) : DeviceCall → Files
  | .light c => (step d.light c).2.foldl (writeOut mxLedPath) d.files
  | .fod c => (fodEffect d.files c).1
  | .sunlight .isEnabled => d.files
  | .sunlight (.setEnabled enabled) => setEnabled d.files enabled

/-- The object of the light service a call leaves. -/
def lightAfter (d : Device) : DeviceCall → Light
  | .light c => (step d.light c).1
  | _ => d.light

/-- The number of commands sent after a call. -/
def sentAfter (d : Device) : DeviceCall → ℕ
  | .fod c => d.fodSent + (fodEffect d.files c).2.length
  | _ => d.fodSent

section Step
variable (mxLedPath : String) (platform : Platform)

theorem deviceStep_light (d : Device) (c : Call) : deviceStep mxLedPath platform d (.light c)
    = ({ d with light := (step d.light c).1, files := filesAfter mxLedPath d (.light c) },
      (step d.light c).2.map .write ++ [.status (setLight d.light c.type c.state).1]) := rfl

theorem deviceStep_fod {d : Device} {daemon : Daemon} (hd : d.fod.mGoodixFpDaemon = some daemon)
    (hr : d.fodRunning = true) (c : FodCall) : deviceStep mxLedPath platform d (.fod c)
    = ({ d with files := filesAfter mxLedPath d (.fod c), fodSent := sentAfter d (.fod c) },
      (notifyAll daemon d.fodSent (fodEffect d.files c).2
        ++ [FodEvent.reply (fodAnswer platform d.files c)]).map .fod) := by
  rcases d with ⟨files, light, fod, fodRunning, sunlightRunning, fodSent⟩
  rcases fod with ⟨daemon'⟩
  cases hd
  cases hr
  simp only [deviceStep, fodCall, fodStep_daemon, filesAfter, sentAfter]

theorem deviceStep_isEnabled {d : Device} {enabled : Bool} (hr : d.sunlightRunning = true)
    (he : isEnabled d.files = .ok enabled) :
    deviceStep mxLedPath platform d (.sunlight .isEnabled) = (d, [.sunlight enabled]) := by
  simp only [deviceStep, sunlightCall, hr, if_true, he]

theorem deviceStep_setEnabled {d : Device} (hr : d.sunlightRunning = true) (enabled : Bool) :
    deviceStep mxLedPath platform d (.sunlight (.setEnabled enabled))
      = ({ d with files := setEnabled d.files enabled }, [.sunlight true]) := by
  simp only [deviceStep, sunlightCall, hr, if_true]

/-- Whatever state it is in, the sunlight service writes no other file than the attribute, and puts
out at most an answer. -/
theorem deviceStep_sunlight (d : Device) (c : SunlightCall) :
    ∃ files running events, deviceStep mxLedPath platform d (.sunlight c)
        = ({ d with files := files, sunlightRunning := running }, events) ∧
      (∀ e ∈ events, ∃ reply, e = .sunlight reply) ∧
      ∀ path, path ≠ hbmEnablePath → files path = d.files path := by
  by_cases hr : d.sunlightRunning = true
  · cases c with
    | isEnabled =>
      cases he : isEnabled d.files with
      | ok enabled =>
        refine ⟨d.files, d.sunlightRunning, _, deviceStep_isEnabled mxLedPath platform hr he, ?_,
          fun _ _ => rfl⟩
        exact List.forall_mem_singleton.mpr ⟨enabled, rfl⟩
      | error e =>
        refine ⟨d.files, false, [], ?_, List.forall_mem_nil _, fun _ _ => rfl⟩
        simp only [deviceStep, sunlightCall, hr, if_true, he]
    | setEnabled enabled =>
      refine ⟨setEnabled d.files enabled, d.sunlightRunning, _,
        deviceStep_setEnabled mxLedPath platform hr enabled, ?_, fun path hpath => ?_⟩
      · exact List.forall_mem_singleton.mpr ⟨true, rfl⟩
      · exact d.files.write_other hpath _
  · have hstopped : deviceStep mxLedPath platform d (.sunlight c) = (d, []) := by
      simp only [deviceStep, sunlightCall, if_neg hr]
    exact ⟨d.files, d.sunlightRunning, [], hstopped, List.forall_mem_nil _, fun _ _ => rfl⟩

/-- A call leaves the light service as the call alone says, and every file but the attribute. -/
theorem Serving.step_state {d : Device} (h : Serving d) (c : DeviceCall) :
    Serving (deviceStep mxLedPath platform d c).1 ∧
      (deviceStep mxLedPath platform d c).1.light = lightAfter d c ∧
      ∀ path, path ≠ hbmEnablePath →
        (deviceStep mxLedPath platform d c).1.files path = filesAfter mxLedPath d c path := by
  obtain ⟨daemon, hd⟩ := h.daemon
  cases c with
  | light c => exact ⟨⟨h.daemon, h.fodRunning⟩, rfl, fun _ _ => rfl⟩
  | fod c =>
    rw [deviceStep_fod mxLedPath platform hd h.fodRunning]
    exact ⟨⟨h.daemon, h.fodRunning⟩, rfl, fun _ _ => rfl⟩
  | sunlight c =>
    obtain ⟨files, running, events, hstep, -, hfiles⟩ := deviceStep_sunlight mxLedPath platform d c
    rw [hstep]
    refine ⟨⟨h.daemon, h.fodRunning⟩, rfl, fun path hpath => (hfiles path hpath).trans ?_⟩
    cases c with
    | isEnabled => rfl
    | setEnabled enabled => exact (d.files.write_other hpath _).symm

/-- A call leaves the processes as they are. -/
theorem Healthy.step_state {d : Device} (h : Healthy d) (c : DeviceCall) :
    (deviceStep mxLedPath platform d c).1 = { d with
      light := lightAfter d c, files := filesAfter mxLedPath d c, fodSent := sentAfter d c } := by
  obtain ⟨daemon, hd⟩ := h.daemon
  obtain ⟨enabled, he⟩ := h.isEnabled
  cases c with
  | light c => rfl
  | fod c => exact congrArg Prod.fst (deviceStep_fod mxLedPath platform hd h.fodRunning c)
  | sunlight c =>
    cases c with
    | isEnabled =>
      exact congrArg Prod.fst (deviceStep_isEnabled mxLedPath platform h.sunlightRunning he)
    | setEnabled b =>
      exact congrArg Prod.fst (deviceStep_setEnabled mxLedPath platform h.sunlightRunning b)

/-! ## The files after one call -/

/-- The light service writes one of its two files. -/
theorem light_files (d : Device) (c : Call) {path : String} (hpanel : brightnessPath ≠ path)
    (hled : pathName mxLedPath .mxLedBlink ≠ path) :
    filesAfter mxLedPath d (.light c) path = d.files path := by
  rcases c with ⟨type, state⟩
  rw [filesAfter]
  cases type with
  | attention =>
    rw [step_attention]
    exact d.files.set_other hled.symm _
  | notifications =>
    rw [step_notifications]
    exact d.files.set_other hled.symm _
  | backlight => exact d.files.set_other hpanel.symm _
  | other raw => rfl

theorem filesAfter_hbm (d : Device) (c : DeviceCall) :
    filesAfter mxLedPath d c hbmEnablePath
      = (c.hbm.map fun v => some (ascii (toString v))).getD (d.files hbmEnablePath) := by
  cases c with
  | light c => exact light_files mxLedPath d c brightness_ne_hbm (led_ne_hbm mxLedPath)
  | fod c => exact fodEffect_hbm d.files c
  | sunlight c =>
    cases c with
    | isEnabled => rfl
    | setEnabled enabled =>
      have hwrite := d.files.write_same fileHbm (ascii (if enabled then "1" else "0"))
      cases enabled <;> exact hwrite

/-- Only the light service writes its files. -/
theorem filesAfter_light (d : Device) (c : DeviceCall) {path : String} (hc : c.toLight = none)
    (hhbm : path ≠ hbmEnablePath) (hboost : path ≠ boostEnablePath) :
    filesAfter mxLedPath d c path = d.files path := by
  cases c with
  | light c => cases hc
  | fod c => exact fodEffect_other d.files c hhbm hboost
  | sunlight c =>
    cases c with
    | isEnabled => rfl
    | setEnabled enabled => exact d.files.write_other hhbm _

/-- The services write the attribute as `isEnabled` reads it. -/
theorem isEnabled_of_hbm {files : Files} {c : DeviceCall} {v : ℤ} (hc : c.hbm = some v)
    (hfile : files hbmEnablePath = some (ascii (toString v))) :
    isEnabled files = .ok (decide (0 < v)) := by
  -- no service writes anything else
  have hv : v = 0 ∨ v = 1 := by
    cases c with
    | light c => cases hc
    | fod c => cases c <;> simp_all [DeviceCall.hbm, FodCall.hbm]
    | sunlight c =>
      cases c with
      | isEnabled => cases hc
      | setEnabled enabled => cases enabled <;> simp_all [DeviceCall.hbm]
  rcases hv with rfl | rfl
  · have hoff : Holds files false := hfile
    exact hoff.isEnabled
  · have hon : Holds files true := hfile
    exact hon.isEnabled

theorem Healthy.step {d : Device} (h : Healthy d) (c : DeviceCall) :
    Healthy (deviceStep mxLedPath platform d c).1 := by
  rw [h.step_state mxLedPath platform c]
  refine ⟨⟨h.daemon, h.fodRunning⟩, h.sunlightRunning, ?_⟩
  show ∃ enabled, Display.isEnabled (filesAfter mxLedPath d c) = .ok enabled
  have hfile := filesAfter_hbm mxLedPath d c
  cases hc : c.hbm with
  | none =>
    rw [hc] at hfile
    rw [isEnabled_congr hfile]
    exact h.isEnabled
  | some v =>
    rw [hc] at hfile
    exact ⟨_, isEnabled_of_hbm hc hfile⟩

/-! ## What a call puts out -/

/-- Nothing but answers comes from the sunlight service. -/
theorem filterMap_sunlight {α : Type} {f : DeviceEvent → Option α}
    (hf : ∀ reply, f (.sunlight reply) = none) (d : Device) (c : SunlightCall) :
    (deviceStep mxLedPath platform d (.sunlight c)).2.filterMap f = [] := by
  obtain ⟨files, running, events, hstep, hevents, -⟩ := deviceStep_sunlight mxLedPath platform d c
  rw [hstep]
  refine List.filterMap_eq_nil_iff.mpr fun e he => ?_
  obtain ⟨reply, rfl⟩ := hevents e he
  exact hf reply

theorem Serving.step_written {d : Device} (h : Serving d) (c : DeviceCall) :
    (deviceStep mxLedPath platform d c).2.filterMap DeviceEvent.written
      = (c.toLight.map fun c => (Lights.step d.light c).2).getD [] := by
  obtain ⟨daemon, hd⟩ := h.daemon
  cases c with
  | light c =>
    rw [deviceStep_light]
    simp [DeviceCall.toLight, DeviceEvent.written, List.filterMap_map, Function.comp_def]
  | fod c =>
    rw [deviceStep_fod mxLedPath platform hd h.fodRunning, List.filterMap_map]
    exact List.filterMap_eq_nil_iff.mpr fun _ _ => rfl
  | sunlight c => exact filterMap_sunlight mxLedPath platform (fun _ => rfl) d c

theorem Serving.step_sent {d : Device} (h : Serving d) (c : DeviceCall) :
    (deviceStep mxLedPath platform d c).2.filterMap DeviceEvent.sent
      = (c.toFod.bind FodCall.command).toList := by
  obtain ⟨daemon, hd⟩ := h.daemon
  cases c with
  | light c =>
    rw [deviceStep_light]
    simp [DeviceCall.toFod, DeviceEvent.sent, List.filterMap_map, Function.comp_def]
  | fod c =>
    rw [deviceStep_fod mxLedPath platform hd h.fodRunning, List.filterMap_map]
    -- the answer goes to the caller, not to the daemon
    have hsent := (filterMap_notifyAll daemon d.fodSent (fodEffect d.files c).2).1
    rw [fodEffect_commands] at hsent ⊢
    show List.filterMap FodEvent.sent _ = _
    rw [List.filterMap_append, hsent]
    exact List.append_nil _
  | sunlight c => exact filterMap_sunlight mxLedPath platform (fun _ => rfl) d c

theorem pathName_inj {path path' : Path} (h : pathName mxLedPath path = pathName mxLedPath path') :
    path = path' := by
  cases path with
  | panelBrightness =>
    cases path' with
    | panelBrightness => rfl
    | mxLedBlink => exact absurd h.symm (led_ne_brightness mxLedPath)
  | mxLedBlink =>
    cases path' with
    | panelBrightness => exact absurd h (led_ne_brightness mxLedPath)
    | mxLedBlink => rfl

theorem foldl_writeOut (files : Files) (writes : List Write) (path : Path) :
    writes.foldl (writeOut mxLedPath) files (pathName mxLedPath path)
      = ((lastWrite path writes).map fun (v : ℕ) => some (ascii (toString (v : ℤ)))).getD
        (files (pathName mxLedPath path)) := by
  induction writes using List.reverseRecOn with
  | nil => rfl
  | append_singleton writes w ih =>
    rw [List.foldl_concat, lastWrite_concat, writeOut]
    by_cases hw : w.path = path
    · rw [if_pos hw, ← hw, Files.set_same]
      rfl
    · have hne : pathName mxLedPath path ≠ pathName mxLedPath w.path :=
        fun heq => hw (pathName_inj mxLedPath heq).symm
      rw [if_neg hw, Files.set_other _ hne, ih]
      rfl

theorem Healthy.run {d : Device} (h : Healthy d) (calls : List DeviceCall) :
    Healthy (run (deviceStep mxLedPath platform) d calls).1 :=
  run_inv (deviceStep mxLedPath platform) Healthy
    (fun _ c hd => hd.step mxLedPath platform c) h calls

theorem Serving.run {d : Device} (h : Serving d) (calls : List DeviceCall) :
    Serving (run (deviceStep mxLedPath platform) d calls).1 :=
  run_inv (deviceStep mxLedPath platform) Serving
    (fun _ c hd => (hd.step_state mxLedPath platform c).1) h calls

theorem projects_light : Projects (deviceStep mxLedPath platform) Lights.step Serving Device.light
    DeviceCall.toLight DeviceEvent.written := by
  refine ⟨fun d c hd => (hd.step_state mxLedPath platform c).1, fun d c c' hd hc => ?_,
    fun d c hd hc => ?_⟩
  · rw [hd.step_written, (hd.step_state mxLedPath platform c).2.1, hc]
    cases c <;> cases hc
    exact ⟨rfl, rfl⟩
  · rw [hd.step_written, (hd.step_state mxLedPath platform c).2.1, hc]
    cases c with
    | light c => cases hc
    | fod c => exact ⟨rfl, rfl⟩
    | sunlight c => exact ⟨rfl, rfl⟩

/-- What the daemon gets depends on the calls alone. -/
theorem projects_daemon : Projects (deviceStep mxLedPath platform) (fun (s : Unit) (c : FodCall) =>
    (s, c.command.toList)) Serving (fun _ => ()) DeviceCall.toFod DeviceEvent.sent := by
  refine ⟨fun d c hd => (hd.step_state mxLedPath platform c).1, fun d c c' hd hc => ?_,
    fun d c hd hc => ?_⟩
  · rw [hd.step_sent, hc]
    exact ⟨rfl, rfl⟩
  · rw [hd.step_sent, hc]
    exact ⟨rfl, rfl⟩

/-- Who sees the light service only sees it alone on the device, and the daemon gets the commands
of the fingerprint service's calls, in their order. -/
theorem device_alone {d : Device} (h : Serving d) (calls : List DeviceCall) :
    let r := Machine.run (deviceStep mxLedPath platform) d calls
    r.1.light = (Machine.run Lights.step d.light (calls.filterMap DeviceCall.toLight)).1 ∧
      r.2.filterMap DeviceEvent.written
        = (Machine.run Lights.step d.light (calls.filterMap DeviceCall.toLight)).2 ∧
      r.2.filterMap DeviceEvent.sent
        = (calls.filterMap DeviceCall.toFod).filterMap FodCall.command := by
  rcases (projects_light mxLedPath platform).run_eq h calls with ⟨hview, hwritten⟩
  have hsent := ((projects_daemon mxLedPath platform).run_eq h calls).2
  have hplain := run_filterMap (fun (s : Unit) (c : FodCall) => (s, c.command.toList)) some
    FodCall.command (fun _ c => List.filterMap_some) () (calls.filterMap DeviceCall.toFod)
  rw [List.filterMap_some] at hplain
  exact ⟨hview, hwritten, hsent.trans hplain⟩

/-- The light service's files hold what it wrote last. -/
theorem run_light_file {d : Device} (h : Serving d) (calls : List DeviceCall) (path : Path) :
    (Machine.run (deviceStep mxLedPath platform) d calls).1.files (pathName mxLedPath path)
      = ((lastWrite path ((Machine.run (deviceStep mxLedPath platform) d calls).2.filterMap
          DeviceEvent.written)).map fun (v : ℕ) => some (ascii (toString (v : ℤ)))).getD
        (d.files (pathName mxLedPath path)) := by
  have hhbm : pathName mxLedPath path ≠ hbmEnablePath := by
    cases path with
    | panelBrightness => exact brightness_ne_hbm
    | mxLedBlink => exact led_ne_hbm mxLedPath
  have hboost : pathName mxLedPath path ≠ boostEnablePath := by
    cases path with
    | panelBrightness => exact brightness_ne_boost
    | mxLedBlink => exact led_ne_boost mxLedPath
  -- along the history, since a write of the past is known by what was put out
  refine (run_history (deviceStep mxLedPath platform) (fun calls r => Serving r.1 ∧
    r.1.files (pathName mxLedPath path)
      = ((lastWrite path (r.2.filterMap DeviceEvent.written)).map fun (v : ℕ) =>
        some (ascii (toString (v : ℤ)))).getD (d.files (pathName mxLedPath path)))
    ⟨h, rfl⟩ ?_ calls).2
  intro calls c r ih
  rcases ih with ⟨hr, hfile⟩
  rcases hr.step_state mxLedPath platform c with ⟨hserving, -, hfiles⟩
  refine ⟨hserving, ?_⟩
  rw [List.filterMap_append, hr.step_written, hfiles _ hhbm]
  cases hc : c.toLight with
  | none =>
    rw [filesAfter_light mxLedPath r.1 c hc hhbm hboost, hfile, Option.map_none, Option.getD_none,
      List.append_nil]
  | some c' =>
    have hcall : c = .light c' := by
      cases c <;> cases hc
      rfl
    rw [hcall, filesAfter, foldl_writeOut, hfile, Option.map_some, Option.getD_some,
      lastWrite_append]
    cases lastWrite path (Lights.step r.1.light c').2 <;> rfl

/-- The panel is what the last colour for it asks for. -/
theorem run_panel {d : Device} (h : Serving d) (calls : List DeviceCall) {s : LightState}
    (hs : latest .backlight (calls.filterMap DeviceCall.toLight) = some s) :
    (Machine.run (deviceStep mxLedPath platform) d calls).1.files brightnessPath
      = some (ascii (toString (panelValue d.light.mPanelMaxBrightness s : ℤ))) := by
  have hfile := run_light_file mxLedPath platform h calls .panelBrightness
  rw [((projects_light mxLedPath platform).run_eq h calls).2, run_lastPanel, hs] at hfile
  exact hfile

theorem get_eq {files : Files} {path : String} {v : ℤ} (hv : FitsInt v)
    (hfile : files path = some (ascii (toString v))) (dflt : ℤ) :
    Display.get files path dflt = v := by
  have hread := readInt_toString hv (Spans.stops_nil : Spans.Stops isDigit [])
  rw [List.append_nil] at hread
  rw [Display.get, hfile, Option.bind_some, hread, Option.getD_some]

/-- The fingerprint service dims by what the light service set last. -/
theorem device_dim {d : Device} (h : Serving d) (calls : List DeviceCall) {s : LightState}
    (hs : latest .backlight (calls.filterMap DeviceCall.toLight) = some s) (cur : ℤ) :
    (deviceStep mxLedPath platform (Machine.run (deviceStep mxLedPath platform) d calls).1
        (.fod (.getDimAmount cur))).2
      = [.fod (.reply (.int (dimAmount platform.pow
        (panelValue d.light.mPanelMaxBrightness s))))] := by
  have hfile := run_panel mxLedPath platform h calls hs
  have hfits : FitsInt (panelValue d.light.mPanelMaxBrightness s) := by
    have hle := panelValue_le d.light.mPanelMaxBrightness s
    simp only [FitsInt, intMax]
    omega
  have hrun := h.run mxLedPath platform calls
  obtain ⟨daemon, hd⟩ := hrun.daemon
  rw [deviceStep_fod mxLedPath platform hd hrun.fodRunning]
  simp only [fodAnswer, get_eq hfits hfile]
  rfl

/-- A brighter colour never makes the fingerprint service dim more, whatever else was called; after
black it dims by 255, and after white on a panel of 1023 steps not at all. -/
theorem device_dim_antitone {d d' : Device} (h : Serving d) (h' : Serving d')
    (calls calls' : List DeviceCall) {m : ℕ} (hm : d.light.mPanelMaxBrightness = m)
    (hm' : d'.light.mPanelMaxBrightness = m) (hmax : m ≤ 16843009) {s s' : LightState}
    (hs : latest .backlight (calls.filterMap DeviceCall.toLight) = some s)
    (hs' : latest .backlight (calls'.filterMap DeviceCall.toLight) = some s')
    (hr : red s ≤ red s') (hg : green s ≤ green s') (hb : blue s ≤ blue s')
    (hpow : AccurateAt platform.pow (ratio (panelValue m s)))
    (hpow' : AccurateAt platform.pow (ratio (panelValue m s'))) (cur cur' : ℤ) :
    ∃ a a', (deviceStep mxLedPath platform (Machine.run (deviceStep mxLedPath platform) d calls).1
          (.fod (.getDimAmount cur))).2 = [.fod (.reply (.int (some a)))] ∧
      (deviceStep mxLedPath platform (Machine.run (deviceStep mxLedPath platform) d' calls').1
          (.fod (.getDimAmount cur'))).2 = [.fod (.reply (.int (some a')))] ∧
      a' ≤ a ∧ a ≤ 255 ∧ (rgb s = 0 → a = 255) ∧ (m ≤ 1023 → 0 ≤ a') ∧
      (m = 1023 → rgb s' = 0xffffff → a' = 0) := by
  -- the panel value grows with every channel
  have hmono : panelValue m s ≤ panelValue m s' := by
    rw [panelValue_eq hmax, panelValue_eq hmax]
    exact Nat.div_le_div_right (Nat.mul_le_mul_right m (luma_mono hr hg hb))
  have hle := panelValue_le m s'
  have hfits : (panelValue m s' : ℤ) ≤ intMax := by
    simp only [intMax]
    omega
  have hle' : (panelValue m s : ℤ) ≤ panelValue m s' := Int.ofNat_le.mpr hmono
  obtain ⟨a, ha, h255⟩ := dimAmount_le_max (Int.natCast_nonneg _) (hle'.trans hfits) hpow
  obtain ⟨a', ha', -⟩ := dimAmount_le_max (Int.natCast_nonneg _) hfits hpow'
  have hdim := dimAmount_le_of_le (Int.natCast_nonneg _) hle' hfits hpow hpow' ha ha'
  have hpanel : panelValue m s' ≤ m := by
    rw [panelValue_eq hmax]
    calc luma s' * m / 255 ≤ 255 * m / 255 :=
          Nat.div_le_div_right (Nat.mul_le_mul_right m (luma_le s'))
      _ = m := Nat.mul_div_cancel_left m (by decide)
  refine ⟨a, a', ?_, ?_, hdim, h255, fun hrgb => ?_, fun hm => ?_, fun hm hrgb => ?_⟩
  · rw [device_dim mxLedPath platform h calls hs, hm, ha]
  · rw [device_dim mxLedPath platform h' calls' hs', hm', ha']
  · have hdark : (panelValue m s : ℤ) = 0 := by
      rw [panelValue_eq hmax, luma_black hrgb, Nat.zero_mul]
      rfl
    rw [hdark] at ha hpow
    exact Option.some.inj (ha.symm.trans (dimAmount_zero hpow))
  · exact dimAmount_nonneg (Int.natCast_nonneg _) (by omega) hpow' ha'
  · have hbright : (panelValue m s' : ℤ) = 1023 := by
      rw [panelValue_eq hmax, luma_white hrgb, hm]
      rfl
    rw [hbright] at ha' hpow'
    exact Option.some.inj (ha'.symm.trans (dimAmount_max hpow'))

end Step

/-! ## A device -/

/-- Freshly started, with a daemon and none of the files. -/
def freshDevice : Device := ⟨fun _ => none, ⟨1023, ⟨0⟩, ⟨0⟩⟩, ⟨some fun _ _ => true⟩, true, true, 0⟩

/-- Its `pow` is exact at zero and one. -/
def freshPlatform : Platform := ⟨0, 0, 0, fun x _ => some x⟩

theorem freshDevice_healthy : Healthy freshDevice :=
  ⟨⟨⟨_, rfl⟩, rfl⟩, rfl, ⟨false, rfl⟩⟩

/-- The light of another service does not keep a press from the daemon. -/
theorem device_alone_fresh :
    (Machine.run (deviceStep "led" freshPlatform) freshDevice
        [.light ⟨.attention, ⟨1⟩⟩, .fod .onPress]).2.filterMap DeviceEvent.sent = [1536] :=
  (device_alone "led" freshPlatform freshDevice_healthy.toServing
    [.light ⟨.attention, ⟨1⟩⟩, .fod .onPress]).2.2

/-- Black on one device and white on another like it. -/
theorem device_dim_antitone_fresh :
    ∃ a a', (deviceStep "led" freshPlatform (Machine.run (deviceStep "led" freshPlatform)
          freshDevice [.light ⟨.backlight, ⟨0⟩⟩]).1 (.fod (.getDimAmount 0))).2
        = [.fod (.reply (.int (some a)))] ∧
      (deviceStep "led" freshPlatform (Machine.run (deviceStep "led" freshPlatform)
          freshDevice [.light ⟨.backlight, ⟨0xffffff⟩⟩]).1 (.fod (.getDimAmount 0))).2
        = [.fod (.reply (.int (some a')))] ∧
      a' ≤ a ∧ a ≤ 255 ∧ (rgb ⟨0⟩ = 0 → a = 255) ∧ (1023 ≤ 1023 → 0 ≤ a') ∧
      (1023 = 1023 → rgb ⟨0xffffff⟩ = 0xffffff → a' = 0) := by
  refine device_dim_antitone "led" freshPlatform freshDevice_healthy.toServing
    freshDevice_healthy.toServing
    [.light ⟨.backlight, ⟨0⟩⟩] [.light ⟨.backlight, ⟨0xffffff⟩⟩] rfl rfl (by decide) rfl rfl
    (by decide) (by decide) (by decide) ?_ ?_ 0 0
  · exact accurateAt_dark
  · exact accurateAt_full

end MeizuSm8150.Services
