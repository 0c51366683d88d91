import MeizuSm8150.Lights.Light
import MeizuSm8150.Display.FingerprintInscreen
import MeizuSm8150.Display.SunlightEnhancement

/-!
# The services on one device

The light service, the fingerprint service and the sunlight service run in processes of their own
and share the attribute files: two of them write the attribute for high brightness, and what one
writes as the brightness of the panel another reads. Calls reach the three in any order.
-/

namespace MeizuSm8150.Services

open CMachine CDecimal Sysfs Lights Display

/-- The files of the light service; the build puts in the directory of the LED. -/
def pathName (mxLedPath : String) : Path → String
  | .panelBrightness => "/sys/class/backlight/panel0-backlight/brightness"
  | .mxLedBlink => mxLedPath ++ "/blink"

/-- `set` of the light service. -/
def writeOut (mxLedPath : String) (files : Files) (w : Write) : Files :=
  files.set (pathName mxLedPath w.path) w.value

inductive SunlightCall where
  | isEnabled
  | setEnabled (enabled : Bool)
deriving Repr, DecidableEq

structure Device where
  files : Files
  light : Light
  fod : FingerprintInscreen
  fodRunning : Bool
  sunlightRunning : Bool
  /-- The number of commands the daemon was sent. -/
  fodSent : ℕ

inductive DeviceCall where
  | light (c : Call)
  | fod (c : FodCall)
  | sunlight (c : SunlightCall)
deriving Repr, DecidableEq

inductive DeviceEvent where
  | write (w : Write)
  | status (s : Status)
  | fod (e : FodEvent)
  | sunlight (reply : Bool)
deriving Repr, DecidableEq

def lightCall (mxLedPath : String) (d : Device) (c : Call) : Device × List DeviceEvent :=
  let (status, light, writes) := setLight d.light c.type c.state
  ({ d with light := light, files := writes.foldl (writeOut mxLedPath) d.files },
    writes.map .write ++ [.status status])

def fodCall (platform : Platform) (d : Device) (c : FodCall) : Device × List DeviceEvent :=
  let (p, events) := fodStep platform ⟨d.fod, d.files, d.fodRunning, d.fodSent⟩ c
  ({ d with fod := p.service, files := p.files, fodRunning := p.running, fodSent := p.sent },
    events.map .fod)

/-- An exception of `std::stoi` ends the process. -/
def sunlightCall (d : Device) (c : SunlightCall) : Device × List DeviceEvent :=
  if d.sunlightRunning then
    match c with
    | .isEnabled =>
      match isEnabled d.files with
      | .ok enabled => (d, [.sunlight enabled])
      | .error _ => ({ d with sunlightRunning := false }, [])
    | .setEnabled enabled => ({ d with files := setEnabled d.files enabled }, [.sunlight true])
  else (d, [])

def deviceStep (mxLedPath : String) (platform : Platform) (d : Device) :
    DeviceCall → Device × List DeviceEvent
  | .light c => lightCall mxLedPath d c
  | .fod c => fodCall platform d c
  | .sunlight c => sunlightCall d c

end MeizuSm8150.Services
