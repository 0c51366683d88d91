import MeizuSm8150.Lib.CMachine
import MeizuSm8150.Display.PictureAdjustment

/-!
# The process of the LiveDisplay service

`main` of `livedisplay/service.cpp`. Every failure jumps to one label, `shutdown`, that releases
what two local variables say was acquired; here a step that jumps there throws the state of the
locals. What surrounds the process is a parameter (`Env`).
-/

namespace MeizuSm8150.Display

def sdmDispLibs : List String := ["libsdm-disp-apis.qti.so", "libsdm-disp-apis.so"]

/-- What surrounds the process. -/
structure Env (β : Type) where
  /-- The libraries `dlopen` loads. -/
  loads : String → Bool
  findsInit : Bool
  findsDeinit : Bool
  initStatus : ℤ
  initCookie : ℕ
  /-- The functions the constructor of `PictureAdjustment` finds. -/
  api : DispApi β
  /-- The state of the vendor library after `disp_api_init`. -/
  backend : β
  seSupported : Bool
  paRegisters : ℤ
  seRegisters : ℤ

/-- The calls that acquire or release something, and the entry to the thread pool. -/
inductive Event where
  | dlopen (lib : String) (loaded : Bool)
  | dispApiInit (status : ℤ)
  | registerPictureAdjustment (status : ℤ)
  | registerSunlightEnhancement (status : ℤ)
  | joinRpcThreadpool
  | dispApiDeinit (cookie : ℕ)
  | dlclose (lib : String)
deriving Repr, DecidableEq

/-- The locals of `main`, the static of `isSupported`, and what happened so far. -/
structure MainState (β : Type) where
  libHandle : Option String
  /-- The pointer `disp_api_deinit` is not null. -/
  dispApiDeinit : Bool
  cookie : ℕ
  pa : Option (PictureAdjustment β)
  supported : ℤ
  events : List Event

section Main
variable {β : Type}

def MainState.first : MainState β := ⟨none, false, 0, none, -1, []⟩

def MainState.log (st : MainState β) (event : Event) : MainState β :=
  { st with events := st.events ++ [event] }

/-- The loop over the names of the vendor library. -/
def loadLibrary (env : Env β) : List String → MainState β → MainState β
  | [], st => st
  | lib :: libs, st =>
    let st := st.log (.dlopen lib (env.loads lib))
    if env.loads lib then { st with libHandle := some lib } else loadLibrary env libs st

/-- `if (condition) goto shutdown;` -/
def gotoShutdownIf (condition : Prop) [Decidable condition] (st : MainState β) :
    Except (MainState β) (MainState β) := if condition then .error st else .ok st

/-- `disp_api_deinit` was found before `disp_api_init` is called. -/
def initBackend (env : Env β) (st : MainState β) : MainState β :=
  { st with dispApiDeinit := true, cookie := env.initCookie }.log (.dispApiInit env.initStatus)

/-- One check of `pa->isSupported()`. -/
def checkSupported (env : Env β) (pa : PictureAdjustment β) (st : MainState β) : MainState β :=
  { st with supported := isSupported pa env.backend st.supported }

/-- Register an interface that is supported, with what `registerAsService` returns. -/
def registerIf (supported : Prop) [Decidable supported] (status : ℤ) (event : ℤ → Event)
    (st : MainState β) : Except (MainState β) (MainState β) :=
  if supported then gotoShutdownIf (status ≠ 0) (st.log (event status)) else .ok st

def registerPictureAdjustment (env : Env β) (st : MainState β) :
    Except (MainState β) (MainState β) :=
  registerIf (st.supported ≠ 0) env.paRegisters .registerPictureAdjustment st

def registerSunlightEnhancement (env : Env β) (st : MainState β) :
    Except (MainState β) (MainState β) :=
  registerIf env.seSupported env.seRegisters .registerSunlightEnhancement st

/-- `main` up to `joinRpcThreadpool`: the state there, or the one it jumps to `shutdown` with.
`new` throws and does not return null, so the two checks of its result are left out. -/
def startUp (env : Env β) : Except (MainState β) (MainState β) := do
  let st := loadLibrary env sdmDispLibs MainState.first
  let st ← gotoShutdownIf (st.libHandle = none) st
  let st ← gotoShutdownIf (env.findsInit = false) st
  let st ← gotoShutdownIf (env.findsDeinit = false) st
  let st ← gotoShutdownIf (env.initStatus ≠ 0) (initBackend env st)
  let pa := PictureAdjustment.new env.api st.cookie
  let st := checkSupported env pa { st with pa := some pa }
  let st ← gotoShutdownIf (st.supported = 0) st
  let st ← registerPictureAdjustment env (checkSupported env pa st)
  let st ← registerSunlightEnhancement env st
  return st.log .joinRpcThreadpool

/-- The label `shutdown`. -/
def shutdown (st : MainState β) : MainState β :=
  let st := if st.dispApiDeinit then st.log (.dispApiDeinit st.cookie) else st
  match st.libHandle with
  | some lib => st.log (.dlclose lib)
  | none => st

/-- The end of `main`, which it reaches through a jump or after the thread pool returns. -/
def main (env : Env β) : MainState β :=
  match startUp env with
  | .error st => shutdown st
  | .ok st => shutdown st

end Main

end MeizuSm8150.Display
