import MeizuSm8150.Lib.FloatFormat
import MeizuSm8150.Lib.Sysfs

/-!
# The fingerprint service

`fod/FingerprintInscreen.cpp`: the files its steps leave, the commands they send to the
fingerprint daemon, and what they answer. The object keeps the daemon only; the files are the
state. Where the daemon was not found the first command goes through a null pointer and ends the
process.
-/

namespace MeizuSm8150.Display

open CMachine CDecimal Sysfs FloatFormat

def notifyFingerDown : ℤ := 1536

def notifyFingerUp : ℤ := 1537

def notifyUiReady : ℤ := 1607

def notifyUiDisapper : ℤ := 1608

def boostEnablePath : String := "/sys/class/meizu/fp/qos_set"

def hbmEnablePath : String := "/sys/class/meizu/lcm/display/hbm"

def onPress (files : Files) : Files × List ℤ := (files.set hbmEnablePath 1, [notifyFingerDown])

def onRelease (files : Files) : Files × List ℤ := (files.set hbmEnablePath 0, [notifyFingerUp])

def onShowFODView (files : Files) : Files × List ℤ :=
  (files.set boostEnablePath 1, [notifyUiReady])

def onHideFODView (files : Files) : Files × List ℤ := (files, [notifyUiDisapper])

/-! ## The amount to dim by -/

def brightnessPath : String := "/sys/class/backlight/panel0-backlight/brightness"

/-- `get` of an `int` from a file. -/
def get (files : Files) (path : String) (dflt : ℤ) : ℤ := ((files path).bind readInt).getD dflt

/-- `0.455` as a `double`. -/
def dimExponent : ℚ := binary64.round (455 / 1000)

/-- The quotient `brightness / 1023.0f`, in `float`. -/
def brightnessRatio (brightness : ℤ) : Option ℚ := do
  let value ← binary32.make brightness
  binary32.make (value / 1023)

/-- `255.0f * alpha` for the power `p`, with `alpha` the difference `1.0 - p` in `double` stored
in a `float`, and the product converted to `int32_t`. -/
def dimOfPower (p : ℚ) : Option ℤ := do
  let difference ← binary64.make (1 - p)
  let alpha ← binary32.make difference
  let dim ← binary32.make (255 * alpha)
  if FitsInt (trunc dim) then some (trunc dim) else none

/-- What is returned for a brightness, with `pow` of the C library; `none` where a step has no
finite result or the last does not fit, which C leaves undefined. -/
def dimAmount (pow : ℚ → ℚ → Option ℚ) (brightness : ℤ) : Option ℤ := do
  let ratio ← brightnessRatio brightness
  let p ← pow ratio dimExponent
  dimOfPower p

/-! ## The service -/

/-- What the build and the C library put in. -/
structure Platform where
  fodPosX : ℤ
  fodPosY : ℤ
  fodSize : ℤ
  /-- `none` is an infinity or a NaN. -/
  pow : ℚ → ℚ → Option ℚ

/-- The daemon, by whether it takes the command number `k` without a transport error. -/
abbrev Daemon : Type := ℕ → ℤ → Bool

structure FingerprintInscreen where
  mGoodixFpDaemon : Option Daemon

inductive FodCall where
  | getPositionX
  | getPositionY
  | getSize
  | onStartEnroll
  | onFinishEnroll
  | onPress
  | onRelease
  | onShowFODView
  | onHideFODView
  | handleAcquired (acquiredInfo vendorCode : ℤ)
  | handleError (error vendorCode : ℤ)
  | setLongPressEnabled (enabled : Bool)
  | getDimAmount (curBrightness : ℤ)
  | shouldBoostBrightness
  | setCallback
deriving Repr, DecidableEq

inductive FodReply where
  | void
  | int (value : Option ℤ)
  | bool (b : Bool)
deriving Repr, DecidableEq

inductive FodEvent where
  | sendCommand (cmd : ℤ)
  /-- The log entry for a command that failed. -/
  | logError (cmd : ℤ)
  | reply (r : FodReply)
deriving Repr, DecidableEq

/-- The process, with the files as it finds and leaves them. -/
structure FodProcess where
  service : FingerprintInscreen
  files : Files
  running : Bool
  /-- The number of commands sent so far. -/
  sent : ℕ

/-- `FingerprintInscreen::FingerprintInscreen`, with what `getService` returns. -/
def FodProcess.new (getService : Option Daemon) (files : Files) : FodProcess :=
  ⟨⟨getService⟩, files, true, 0⟩

def notifyHal (daemon : Daemon) (k : ℕ) (cmd : ℤ) : List FodEvent :=
  if daemon k cmd then [.sendCommand cmd] else [.sendCommand cmd, .logError cmd]

/-- Commands in order, the first with the number `k`. -/
def notifyAll (daemon : Daemon) (k : ℕ) (cmds : List ℤ) : List FodEvent :=
  (cmds.zipIdx k).flatMap fun c => notifyHal daemon c.2 c.1

/-- A method that leaves `files`, sends commands and returns nothing. -/
def FodProcess.notify (p : FodProcess) (result : Files × List ℤ) : FodProcess × List FodEvent :=
  match p.service.mGoodixFpDaemon with
  | some daemon =>
    ({ p with files := result.1, sent := p.sent + result.2.length },
      notifyAll daemon p.sent result.2 ++ [.reply .void])
  | none => ({ p with files := result.1, running := false }, [])

/-- Serve one call, if the process is still there. -/
def fodStep (platform : Platform) (p : FodProcess) (call : FodCall) :
    FodProcess × List FodEvent :=
  if p.running then
    match call with
    | .getPositionX => (p, [.reply (.int (some platform.fodPosX))])
    | .getPositionY => (p, [.reply (.int (some platform.fodPosY))])
    | .getSize => (p, [.reply (.int (some platform.fodSize))])
    | .onStartEnroll => (p, [.reply .void])
    | .onFinishEnroll => (p, [.reply .void])
    | .onPress => p.notify (onPress p.files)
    | .onRelease => p.notify (onRelease p.files)
    | .onShowFODView => p.notify (onShowFODView p.files)
    | .onHideFODView => p.notify (onHideFODView p.files)
    | .handleAcquired _ _ => (p, [.reply (.bool false)])
    | .handleError _ _ => (p, [.reply (.bool false)])
    | .setLongPressEnabled _ => (p, [.reply .void])
    | .getDimAmount _ =>
      (p, [.reply (.int (dimAmount platform.pow (get p.files brightnessPath 0)))])
    | .shouldBoostBrightness => (p, [.reply (.bool false)])
    | .setCallback => (p, [.reply .void])
  else (p, [])

end MeizuSm8150.Display
