import MeizuSm8150.Lib.Protocol
import MeizuSm8150.Display.ShutdownTheorems

/-!
# How the service starts and ends

The calls of `main` follow one protocol in every environment: the libraries are tried in order up
to the first that loads, an interface is registered only behind an initialisation that succeeded,
the second only behind the first, and the thread pool is entered only when every interface that
is supported is registered. Nothing else precedes the clean-up, which always runs to its end.
-/

namespace MeizuSm8150.Display

open CMachine Protocol

/-- How far the process is. The flag tells whether it served. -/
inductive MainPhase where
  | loading (libs : List String)
  | loaded (lib : String)
  | initialised (lib : String)
  | offered (lib : String)
  | complete (lib : String)
  | stopping (served : Bool) (lib : String)
  | deinitialised (served : Bool) (lib : String)
  | closed (served : Bool)
deriving Repr, DecidableEq

section Protocol
variable {β : Type}

/-- A step that fails leads to the clean-up. -/
def MainPhase.next (env : Env β) : MainPhase → Event → Option MainPhase
  | .loading (lib :: libs), .dlopen lib' ok =>
    if lib' = lib then some (if ok then .loaded lib else .loading libs) else none
  | .loaded lib, .dispApiInit status =>
    some (if status = 0 then .initialised lib else .stopping false lib)
  | .initialised lib, .registerPictureAdjustment status =>
    some (if status = 0 then (if env.seSupported then .offered lib else .complete lib)
      else .stopping false lib)
  | .offered lib, .registerSunlightEnhancement status =>
    some (if status = 0 then .complete lib else .stopping false lib)
  | .complete lib, .joinRpcThreadpool => some (.stopping true lib)
  | .initialised lib, .dispApiDeinit cookie =>
    if cookie = env.initCookie then some (.deinitialised false lib) else none
  | .stopping served lib, .dispApiDeinit cookie =>
    if cookie = env.initCookie then some (.deinitialised served lib) else none
  | .loaded lib, .dlclose lib' => if lib' = lib then some (.closed false) else none
  | .deinitialised served lib, .dlclose lib' =>
    if lib' = lib then some (.closed served) else none
  | _, _ => none

/-- The calls so far have led to `phase`. -/
def MainState.At (env : Env β) (st : MainState β) (phase : MainPhase) : Prop :=
  follow (MainPhase.next env) (.loading sdmDispLibs) st.events = some phase

variable {env : Env β} {st : MainState β} {phase : MainPhase}

theorem MainState.At.log (h : st.At env phase) (event : Event) {phase' : MainPhase}
    (hnext : MainPhase.next env phase event = some phase') : (st.log event).At env phase' := by
  rw [MainState.At, MainState.log, follow_concat h, hnext]

/-- The loop over the names stops at the first library that loads. -/
theorem MainState.At.loadLibrary {libs : List String} (h : st.At env (.loading libs)) :
    (loadLibrary env libs st).At env
      (match libs.find? env.loads with
        | some lib => .loaded lib
        | none => .loading []) := by
  induction libs generalizing st with
  | nil => exact h
  | cons lib libs ih =>
    have hlog := h.log (.dlopen lib (env.loads lib)) (if_pos rfl)
    rw [Display.loadLibrary]
    by_cases hlib : env.loads lib = true
    · rw [if_pos hlib, List.find?_cons_of_pos hlib]
      rw [if_pos hlib] at hlog
      exact hlog
    · rw [if_neg hlib, List.find?_cons_of_neg hlib]
      rw [if_neg hlib] at hlog
      exact ih hlog

/-! ## Up to the clean-up -/

/-- The state the clean-up of a library that was initialised starts from. -/
structure MainState.Ready (env : Env β) (lib : String) (served : Bool) (st : MainState β) :
    Prop where
  libHandle : st.libHandle = some lib
  dispApiDeinit : st.dispApiDeinit = true
  cookie : st.cookie = env.initCookie
  at_ : st.At env (.stopping served lib) ∨ st.At env (.initialised lib) ∧ served = false

theorem loadEvents_follow (env : Env β) :
    follow (MainPhase.next env) (.loading sdmDispLibs) (loadEvents env sdmDispLibs)
      = some (match sdmDispLibs.find? env.loads with
        | some lib => .loaded lib
        | none => .loading []) := by
  have hat : (MainState.first : MainState β).At env (.loading sdmDispLibs) := rfl
  have hload := hat.loadLibrary
  rw [loadLibrary_eq] at hload
  exact hload

theorem initialised_at {lib : String} (hlib : sdmDispLibs.find? env.loads = some lib) :
    (initialised env lib).At env (.initialised lib) := by
  have hloaded := loadEvents_follow env
  rw [hlib] at hloaded
  exact follow_concat hloaded (.dispApiInit 0)

/-- Behind an initialisation that succeeded, what `main` does up to the clean-up. -/
theorem startUp_ready {lib : String} (hlib : sdmDispLibs.find? env.loads = some lib)
    (hinit : env.findsInit = true) (hdeinit : env.findsDeinit = true)
    (hok : env.initStatus = 0) :
    (Registers env ∧ ∃ st, startUp env = .ok st ∧ st.Ready env lib true) ∨
      ¬ Registers env ∧ ∃ st, startUp env = .error st ∧ st.Ready env lib false := by
  have hat := initialised_at hlib
  have hagain : checkSupported env (PictureAdjustment.new env.api env.initCookie)
      (initialised env lib) = initialised env lib := by
    simp [checkSupported, initialised, isSupported_again]
  rw [startUp_initialised hlib hinit hdeinit hok]
  by_cases hpa : PaSupported env
  · have hsup : (initialised env lib).supported ≠ 0 := hpa
    rw [gotoShutdownIf_neg hsup, ok_bind, hagain, registerPictureAdjustment]
    have hpaNext := hat.log (.registerPictureAdjustment env.paRegisters) rfl
    rcases registerIf_cases ((initialised env lib).supported ≠ 0) env.paRegisters
      .registerPictureAdjustment (initialised env lib) with ⟨-, hreg, hrun⟩ | ⟨hreg, hrun⟩
    · apply Or.inr
      -- the first registration fails
      rw [if_neg hreg] at hpaNext
      rw [hrun, error_bind]
      exact ⟨fun h => hreg h.2.1, _, rfl, rfl, rfl, rfl, Or.inl hpaNext⟩
    · have hpa0 := hreg hsup
      rw [hpa0, if_pos rfl] at hpaNext
      rw [hrun, if_pos hsup, ok_bind, registerSunlightEnhancement]
      rcases registerIf_cases (env.seSupported = true) env.seRegisters
        .registerSunlightEnhancement
        ((initialised env lib).extend [.registerPictureAdjustment 0]) with
        ⟨hse, hsereg, hrun'⟩ | ⟨hsereg, hrun'⟩
      · apply Or.inr
        -- the second one does
        rw [if_pos hse] at hpaNext
        have hseNext := hpaNext.log (.registerSunlightEnhancement env.seRegisters) rfl
        rw [if_neg hsereg] at hseNext
        rw [hrun', error_bind]
        exact ⟨fun h => hsereg (h.2.2 hse), _, rfl, rfl, rfl, rfl, Or.inl hseNext⟩
      · apply Or.inl
        rw [hrun', ok_bind]
        refine ⟨⟨hpa, hpa0, hsereg⟩, _, rfl, rfl, rfl, rfl, Or.inl ?_⟩
        by_cases hse : env.seSupported = true
        · rw [if_pos hse] at hpaNext ⊢
          exact (hpaNext.log (.registerSunlightEnhancement 0) rfl).log .joinRpcThreadpool rfl
        · rw [if_neg hse] at hpaNext ⊢
          rw [MainState.extend_nil]
          exact hpaNext.log .joinRpcThreadpool rfl
  · -- the backend is not ready
    have hsup : (initialised env lib).supported = 0 := not_not.mp hpa
    rw [gotoShutdownIf_pos hsup, error_bind]
    exact Or.inr ⟨fun h => hpa h.1, _, rfl, rfl, rfl, rfl, Or.inr ⟨hat, rfl⟩⟩

/-! ## The clean-up -/

theorem MainState.Ready.shutdown {lib : String} {served : Bool} (h : st.Ready env lib served) :
    (shutdown st).At env (.closed served) := by
  have hdown : (st.log (.dispApiDeinit st.cookie)).At env (.deinitialised served lib) := by
    rcases h.at_ with hat | ⟨hat, rfl⟩
    · exact hat.log _ (if_pos h.cookie)
    · exact hat.log _ (if_pos h.cookie)
  rw [Display.shutdown, if_pos h.dispApiDeinit]
  dsimp only [MainState.log] at hdown ⊢
  rw [h.libHandle]
  exact hdown.log (.dlclose lib) (if_pos rfl)

/-- The phases behind the thread pool. -/
def MainPhase.served : MainPhase → Bool
  | .stopping served _ | .deinitialised served _ | .closed served => served
  | _ => false

theorem MainPhase.served_next {p p' : MainPhase} {event : Event}
    (h : MainPhase.next env p event = some p') :
    p'.served = true ↔ p.served = true ∨ event = .joinRpcThreadpool := by
  unfold MainPhase.next at h
  split at h <;> grind [served]

theorem joins_iff_served {events : List Event}
    (h : follow (MainPhase.next env) (.loading sdmDispLibs) events = some phase) :
    Event.joinRpcThreadpool ∈ events ↔ phase.served = true := by
  refine follow_inv (fun p events => Event.joinRpcThreadpool ∈ events ↔ p.served = true) ?_ ?_ h
  · exact iff_of_false List.not_mem_nil Bool.false_ne_true
  · intro p p' events event ih hnext
    rw [MainPhase.served_next hnext, List.mem_append, ih, List.mem_singleton]
    exact or_congr_right eq_comm

/-- `main` without an initialisation that succeeded. -/
theorem main_unserved {lib : String} (hlib : sdmDispLibs.find? env.loads = some lib)
    (h : ¬ (env.findsInit = true ∧ env.findsDeinit = true ∧ env.initStatus = 0)) :
    (main env).At env (.closed false) := by
  have hloaded := loadEvents_follow env
  rw [hlib] at hloaded
  by_cases hsym : env.findsInit = true ∧ env.findsDeinit = true
  · have hfail : env.initStatus ≠ 0 := fun hok => h ⟨hsym.1, hsym.2, hok⟩
    rw [main, startUp_failed hlib hsym.1 hsym.2 hfail]
    apply MainState.Ready.shutdown
    refine ⟨rfl, rfl, rfl, Or.inl ?_⟩
    have hinit := follow_concat hloaded (.dispApiInit env.initStatus)
    rw [MainPhase.next, if_neg hfail] at hinit
    exact hinit
  · -- a symbol is missing, so only the library is given back
    have hmissing : env.findsInit = false ∨ env.findsDeinit = false := by
      rcases not_and_or.mp hsym with hnot | hnot
      · exact Or.inl (Bool.eq_false_iff.mpr hnot)
      · exact Or.inr (Bool.eq_false_iff.mpr hnot)
    rw [main, startUp_missing hlib hmissing]
    have hclose := follow_concat hloaded (.dlclose lib)
    rw [MainPhase.next, if_pos rfl] at hclose
    exact hclose

/-- `main` follows the protocol to one of its two ends in every environment, and enters the thread
pool exactly when a library loads, has both symbols and is initialised, the picture adjustment is
supported, and every registration that is tried succeeds. -/
theorem main_follows (env : Env β) :
    ∃ phase, follow (MainPhase.next env) (.loading sdmDispLibs) (main env).events = some phase ∧
      (phase = .loading [] ∨ ∃ served, phase = .closed served) ∧
      (Event.joinRpcThreadpool ∈ (main env).events ↔
        (∃ lib ∈ sdmDispLibs, env.loads lib = true) ∧ env.findsInit = true ∧
          env.findsDeinit = true ∧ env.initStatus = 0 ∧ Registers env) := by
  cases hlib : sdmDispLibs.find? env.loads with
  | none =>
    have hat : (main env).At env (.loading []) := by
      have hload := loadEvents_follow env
      rw [hlib] at hload
      rw [main, startUp_unloaded hlib]
      exact hload
    refine ⟨_, hat, Or.inl rfl, ?_⟩
    rw [joins_iff_served hat]
    refine iff_of_false Bool.false_ne_true fun hall => ?_
    obtain ⟨⟨lib, hmem, hloads⟩, -⟩ := hall
    exact List.find?_eq_none.mp hlib lib hmem hloads
  | some lib =>
    have hload : ∃ lib ∈ sdmDispLibs, env.loads lib = true :=
      ⟨lib, List.mem_of_find?_eq_some hlib, List.find?_some hlib⟩
    by_cases hready : env.findsInit = true ∧ env.findsDeinit = true ∧ env.initStatus = 0
    · rcases startUp_ready hlib hready.1 hready.2.1 hready.2.2 with
        ⟨hreg, st, hrun, hst⟩ | ⟨hreg, st, hrun, hst⟩
      · have hat : (main env).At env (.closed true) := by
          rw [main, hrun]
          exact hst.shutdown
        refine ⟨_, hat, Or.inr ⟨true, rfl⟩, ?_⟩
        rw [joins_iff_served hat]
        exact iff_of_true rfl ⟨hload, hready.1, hready.2.1, hready.2.2, hreg⟩
      · have hat : (main env).At env (.closed false) := by
          rw [main, hrun]
          exact hst.shutdown
        refine ⟨_, hat, Or.inr ⟨false, rfl⟩, ?_⟩
        rw [joins_iff_served hat]
        exact iff_of_false Bool.false_ne_true fun hall => hreg hall.2.2.2.2
    · have hat := main_unserved hlib hready
      refine ⟨_, hat, Or.inr ⟨false, rfl⟩, ?_⟩
      rw [joins_iff_served hat]
      refine iff_of_false Bool.false_ne_true fun hall => ?_
      exact hready ⟨hall.2.1, hall.2.2.1, hall.2.2.2.1⟩

end Protocol

end MeizuSm8150.Display
