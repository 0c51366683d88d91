import MeizuSm8150.Display.DefaultTheorems

/-!
# What the label `shutdown` undoes

The label looks at two pointers. The handle is not null exactly when a library was loaded, so
`dlclose` is right on every path. The pointer to `disp_api_deinit` is not null as soon as the
symbol was found, which is before `disp_api_init` is called: a failed initialisation is undone
too. Nothing undoes a registration, so every path that gets past a successful one closes the
library under it.
-/

namespace MeizuSm8150.Display

open CMachine

section Shutdown
variable {β : Type}

/-! ## Clean-up, as a property of what happened -/

/-- The library a call of `dlopen` loaded. -/
def Event.opens : Event → Option String
  | .dlopen lib true => some lib
  | _ => none

def Event.closes : Event → Option String
  | .dlclose lib => some lib
  | _ => none

def Event.deinits : Event → Option ℕ
  | .dispApiDeinit cookie => some cookie
  | _ => none

/-- Only what was acquired is released, once, in the right order, and not under an interface
that is still registered. Of the two interfaces only the picture adjustment calls the library. -/
structure CleansUp (cookie : ℕ) (events : List Event) : Prop where
  deinit : events.filterMap Event.deinits
    = if Event.dispApiInit 0 ∈ events then [cookie] else []
  close : events.filterMap Event.closes = events.filterMap Event.opens
  order : (events.dropWhile fun e => e.closes.isNone).filterMap Event.deinits = []
  unregistered : Event.registerPictureAdjustment 0 ∈ events →
    ∀ lib ∈ events.filterMap Event.opens, lib ∉ events.filterMap Event.closes

/-- `main` reaches its end: through a jump, or because the thread pool returns. -/
def Ends (env : Env β) (joinReturns : Bool) : Prop :=
  joinReturns = true ∨ ∃ st, startUp env = .error st

/-! ## Loading the library -/

/-- The calls of `dlopen`, which end at the first success. -/
def loadEvents (env : Env β) : List String → List Event
  | [] => []
  | lib :: libs =>
    .dlopen lib (env.loads lib) :: if env.loads lib then [] else loadEvents env libs

theorem loadLibrary_eq (env : Env β) (libs : List String) (st : MainState β) :
    loadLibrary env libs st = { st with
      libHandle := (libs.find? env.loads).or st.libHandle
      events := st.events ++ loadEvents env libs } := by
  induction libs generalizing st with
  | nil => simp [loadLibrary, loadEvents]
  | cons lib libs ih =>
    by_cases hlib : env.loads lib = true
    · simp [loadLibrary, loadEvents, hlib, MainState.log]
    · simp [loadLibrary, loadEvents, hlib, MainState.log, ih]

/-- What was opened is the handle, and nothing else happened. -/
theorem loadEvents_spec (env : Env β) (libs : List String) :
    (loadEvents env libs).filterMap Event.opens = (libs.find? env.loads).toList ∧
      ∀ e ∈ loadEvents env libs, ∃ lib loaded, e = .dlopen lib loaded := by
  induction libs with
  | nil => simp [loadEvents]
  | cons lib libs ih =>
    by_cases hlib : env.loads lib = true
    · simp [loadEvents, hlib, Event.opens]
    · have hcons : loadEvents env (lib :: libs) = .dlopen lib false :: loadEvents env libs := by
        simp [loadEvents, hlib]
      rw [hcons, List.filterMap_cons_none rfl, List.find?_cons_of_neg hlib]
      exact ⟨ih.1, List.forall_mem_cons.mpr ⟨⟨lib, false, rfl⟩, ih.2⟩⟩

/-! ## How far `main` gets -/

/-- The interface is offered: what the first check of `isSupported` says. -/
def PaSupported (env : Env β) : Prop :=
  isSupported (PictureAdjustment.new env.api env.initCookie) env.backend (-1) ≠ 0

/-- Every registration that is tried succeeds. -/
def Registers (env : Env β) : Prop :=
  PaSupported env ∧ env.paRegisters = 0 ∧ (env.seSupported = true → env.seRegisters = 0)

theorem isSupported_nonneg (pa : PictureAdjustment β) (backend : β) (supported : ℤ) :
    0 ≤ isSupported pa backend supported := by
  unfold isSupported
  by_cases h : supported ≥ 0
  · rw [if_pos h]
    exact h
  · rw [if_neg h]
    repeat' split
    all_goals decide

/-- The static makes the second check repeat the first. -/
theorem isSupported_again (pa : PictureAdjustment β) (backend : β) (supported : ℤ) :
    isSupported pa backend (isSupported pa backend supported)
      = isSupported pa backend supported := by
  rw [isSupported.eq_def pa backend (isSupported pa backend supported),
    if_pos (isSupported_nonneg pa backend supported)]

theorem gotoShutdownIf_pos {condition : Prop} [Decidable condition] (h : condition)
    (st : MainState β) : gotoShutdownIf condition st = .error st := if_pos h

theorem gotoShutdownIf_neg {condition : Prop} [Decidable condition] (h : ¬ condition)
    (st : MainState β) : gotoShutdownIf condition st = .ok st := if_neg h

/-- The state `main` has when it first asks whether the interface is supported. -/
def initialised (env : Env β) (lib : String) : MainState β :=
  checkSupported env (PictureAdjustment.new env.api env.initCookie)
    { libHandle := some lib, dispApiDeinit := true, cookie := env.initCookie,
      pa := some (PictureAdjustment.new env.api env.initCookie), supported := -1,
      events := loadEvents env sdmDispLibs ++ [.dispApiInit 0] }

/-- `main` up to `disp_api_init`, where that succeeds. -/
theorem startUp_initialised {env : Env β} {lib : String}
    (hlib : sdmDispLibs.find? env.loads = some lib) (hinit : env.findsInit = true)
    (hdeinit : env.findsDeinit = true) (hok : env.initStatus = 0) :
    startUp env = (do
      let st ← gotoShutdownIf ((initialised env lib).supported = 0) (initialised env lib)
      let st ← registerPictureAdjustment env
        (checkSupported env (PictureAdjustment.new env.api env.initCookie) st)
      let st ← registerSunlightEnhancement env st
      return st.log .joinRpcThreadpool) := by
  unfold startUp
  rw [loadLibrary_eq, hlib, hinit, hdeinit]
  unfold initBackend
  rw [hok]
  rfl

/-- The same state after more has happened. -/
def MainState.extend (st : MainState β) (tail : List Event) : MainState β :=
  { st with events := st.events ++ tail }

@[simp] theorem MainState.extend_nil (st : MainState β) : st.extend [] = st := by
  simp [extend]

@[simp] theorem MainState.extend_extend (st : MainState β) (tail tail' : List Event) :
    (st.extend tail).extend tail' = st.extend (tail ++ tail') := by
  simp [extend]

/-- A registration that is tried is logged, and one that fails jumps. -/
theorem registerIf_cases (supported : Prop) [Decidable supported] (status : ℤ)
    (event : ℤ → Event) (st : MainState β) :
    (supported ∧ status ≠ 0 ∧
      registerIf supported status event st = .error (st.extend [event status])) ∨
    ((supported → status = 0) ∧ registerIf supported status event st
      = .ok (st.extend (if supported then [event 0] else []))) := by
  unfold registerIf
  by_cases hs : supported
  · by_cases hstatus : status = 0
    · apply Or.inr
      simp [hs, hstatus, gotoShutdownIf, MainState.log, MainState.extend]
    · apply Or.inl
      simp [hs, hstatus, gotoShutdownIf, MainState.log, MainState.extend]
  · apply Or.inr
    simp [hs]

/-- Events of the service proper, which acquire and release nothing. -/
def Event.serves : Event → Bool
  | .registerPictureAdjustment _ => true
  | .registerSunlightEnhancement _ => true
  | .joinRpcThreadpool => true
  | _ => false

/-- Once the library is initialised `main` only registers, and goes on to the thread pool
exactly when every registration succeeds. -/
theorem startUp_served {env : Env β} {lib : String}
    (hlib : sdmDispLibs.find? env.loads = some lib) (hinit : env.findsInit = true)
    (hdeinit : env.findsDeinit = true) (hok : env.initStatus = 0) :
    ∃ tail, (startUp env = .ok ((initialised env lib).extend tail) ∧ Registers env ∨
        startUp env = .error ((initialised env lib).extend tail) ∧ ¬ Registers env) ∧
      (∀ e ∈ tail, e.serves = true) ∧
      (Event.registerPictureAdjustment 0 ∈ tail ↔ PaSupported env ∧ env.paRegisters = 0) := by
  have hagain : checkSupported env (PictureAdjustment.new env.api env.initCookie)
      (initialised env lib) = initialised env lib := by
    simp [checkSupported, initialised, isSupported_again]
  rw [startUp_initialised hlib hinit hdeinit hok]
  by_cases hpa : PaSupported env
  · have hsup : (initialised env lib).supported ≠ 0 := hpa
    rw [gotoShutdownIf_neg hsup, ok_bind, hagain]
    rcases registerIf_cases ((initialised env lib).supported ≠ 0) env.paRegisters
      .registerPictureAdjustment (initialised env lib) with ⟨-, hreg, hrun⟩ | ⟨hreg, hrun⟩
    · refine ⟨[.registerPictureAdjustment env.paRegisters], Or.inr ⟨?_, ?_⟩, ?_, ?_⟩
      · rw [registerPictureAdjustment, hrun, error_bind]
      · exact fun h => hreg h.2.1
      · simp [Event.serves]
      · simp [hreg, Ne.symm hreg]
    · have hpa0 := hreg hsup
      rw [if_pos hsup] at hrun
      rcases registerIf_cases (env.seSupported = true) env.seRegisters
        .registerSunlightEnhancement
        ((initialised env lib).extend [.registerPictureAdjustment 0]) with
        ⟨hse, hsereg, hrun'⟩ | ⟨hsereg, hrun'⟩
      · refine ⟨[.registerPictureAdjustment 0, .registerSunlightEnhancement env.seRegisters],
          Or.inr ⟨?_, ?_⟩, ?_, ?_⟩
        · rw [registerPictureAdjustment, hrun, ok_bind, registerSunlightEnhancement, hrun',
            error_bind, MainState.extend_extend]
          rfl
        · exact fun h => hsereg (h.2.2 hse)
        · simp [Event.serves]
        · simp [hpa, hpa0]
      · refine ⟨.registerPictureAdjustment 0 ::
          ((if env.seSupported = true then [.registerSunlightEnhancement 0] else [])
            ++ [.joinRpcThreadpool]), Or.inl ⟨?_, hpa, hpa0, hsereg⟩, ?_, ?_⟩
        · rw [registerPictureAdjustment, hrun, ok_bind, registerSunlightEnhancement, hrun',
            ok_bind, MainState.extend_extend]
          simp [MainState.log, MainState.extend]
          rfl
        · cases env.seSupported <;>
            simp [Event.serves]
        · simp [hpa, hpa0]
  · -- the backend is not ready, and nothing was registered
    have hsup : (initialised env lib).supported = 0 := not_not.mp hpa
    rw [gotoShutdownIf_pos hsup, error_bind]
    refine ⟨[], Or.inr ⟨by simp, fun h => hpa h.1⟩, by simp, by simp [hpa]⟩

/-- Without a library nothing else happens. -/
theorem startUp_unloaded {env : Env β} (hlib : sdmDispLibs.find? env.loads = none) :
    startUp env = .error (MainState.first.extend (loadEvents env sdmDispLibs)) := by
  unfold startUp
  rw [loadLibrary_eq, hlib]
  rfl

/-- A missing symbol leaves only the handle to release. -/
theorem startUp_missing {env : Env β} {lib : String}
    (hlib : sdmDispLibs.find? env.loads = some lib)
    (hmissing : env.findsInit = false ∨ env.findsDeinit = false) :
    startUp env = .error { MainState.first with
      libHandle := some lib
      events := loadEvents env sdmDispLibs } := by
  unfold startUp
  rw [loadLibrary_eq, hlib]
  cases hinit : env.findsInit with
  | false => rfl
  | true =>
    have hdeinit : env.findsDeinit = false := by simpa [hinit] using hmissing
    rw [hdeinit]
    rfl

/-- The pointer to `disp_api_deinit` is set by the time `disp_api_init` fails. -/
theorem startUp_failed {env : Env β} {lib : String}
    (hlib : sdmDispLibs.find? env.loads = some lib) (hinit : env.findsInit = true)
    (hdeinit : env.findsDeinit = true) (hfail : env.initStatus ≠ 0) :
    startUp env = .error { MainState.first with
      libHandle := some lib
      dispApiDeinit := true
      cookie := env.initCookie
      events := loadEvents env sdmDispLibs ++ [.dispApiInit env.initStatus] } := by
  unfold startUp
  rw [loadLibrary_eq, hlib, hinit, hdeinit]
  simp [gotoShutdownIf, hfail, initBackend, MainState.log, MainState.first, bind, Except.bind]

/-! ## The label -/

/-- Everything that happens when an initialisation with status `s` is undone at the end. -/
def undone (loads : List Event) (s : ℤ) (tail : List Event) (cookie : ℕ) (lib : String) :
    List Event :=
  (loads ++ .dispApiInit s :: (tail ++ [.dispApiDeinit cookie])) ++ [.dlclose lib]

section CleansUp
variable {cookie : ℕ} {lib : String} {s : ℤ} {loads tail : List Event}

theorem Event.serves_spec {e : Event} (h : e.serves = true) :
    e.opens = none ∧ e.closes = none ∧ e.deinits = none ∧ ∀ s, e ≠ .dispApiInit s := by
  cases e <;> simp_all [Event.serves, Event.opens, Event.closes, Event.deinits]

theorem filterMap_loads {γ : Type} {f : Event → Option γ}
    (hloads : ∀ e ∈ loads, ∃ lib loaded, e = .dlopen lib loaded)
    (hf : ∀ lib loaded, f (.dlopen lib loaded) = none) : loads.filterMap f = [] := by
  apply List.filterMap_eq_nil_iff.mpr
  intro e he
  obtain ⟨lib, loaded, rfl⟩ := hloads e he
  exact hf lib loaded

theorem not_mem_loads {e : Event} (hloads : ∀ e ∈ loads, ∃ lib loaded, e = .dlopen lib loaded)
    (he : ∀ lib loaded, e ≠ .dlopen lib loaded) : e ∉ loads := by
  intro hmem
  obtain ⟨lib, loaded, rfl⟩ := hloads e hmem
  exact he lib loaded rfl

theorem filterMap_tail {γ : Type} {f : Event → Option γ} (htail : ∀ e ∈ tail, e.serves = true)
    (hf : ∀ e, e.serves = true → f e = none) : tail.filterMap f = [] :=
  List.filterMap_eq_nil_iff.mpr fun e he => hf e (htail e he)

theorem undone_opens (hopens : loads.filterMap Event.opens = [lib])
    (htail : ∀ e ∈ tail, e.serves = true) :
    (undone loads s tail cookie lib).filterMap Event.opens = [lib] := by
  have hnone := filterMap_tail htail fun e he => (Event.serves_spec he).1
  simp [undone, List.filterMap_cons, hopens, hnone, Event.opens]

theorem undone_closes (hloads : ∀ e ∈ loads, ∃ lib loaded, e = .dlopen lib loaded)
    (htail : ∀ e ∈ tail, e.serves = true) :
    (undone loads s tail cookie lib).filterMap Event.closes = [lib] := by
  have hloads' := filterMap_loads hloads (f := Event.closes) fun _ _ => rfl
  have hnone := filterMap_tail htail fun e he => (Event.serves_spec he).2.1
  simp [undone, List.filterMap_cons, hloads', hnone, Event.closes]

theorem undone_deinits (hloads : ∀ e ∈ loads, ∃ lib loaded, e = .dlopen lib loaded)
    (htail : ∀ e ∈ tail, e.serves = true) :
    (undone loads s tail cookie lib).filterMap Event.deinits = [cookie] := by
  have hloads' := filterMap_loads hloads (f := Event.deinits) fun _ _ => rfl
  have hnone := filterMap_tail htail fun e he => (Event.serves_spec he).2.2.1
  simp [undone, List.filterMap_cons, hloads', hnone, Event.deinits]

theorem init_mem_undone (hloads : ∀ e ∈ loads, ∃ lib loaded, e = .dlopen lib loaded)
    (htail : ∀ e ∈ tail, e.serves = true) :
    Event.dispApiInit 0 ∈ undone loads s tail cookie lib ↔ s = 0 := by
  have hl : Event.dispApiInit 0 ∉ loads := not_mem_loads hloads fun _ _ => Event.noConfusion
  have ht : Event.dispApiInit 0 ∉ tail := fun h => (Event.serves_spec (htail _ h)).2.2.2 0 rfl
  simp [undone, hl, ht, eq_comm]

theorem register_mem_undone (hloads : ∀ e ∈ loads, ∃ lib loaded, e = .dlopen lib loaded) :
    Event.registerPictureAdjustment 0 ∈ undone loads s tail cookie lib ↔
      Event.registerPictureAdjustment 0 ∈ tail := by
  have hl : Event.registerPictureAdjustment 0 ∉ loads :=
    not_mem_loads hloads fun _ _ => Event.noConfusion
  simp [undone, hl]

/-- Nothing is released after the library is closed. -/
theorem order_of_concat {before : List Event} (h : before.filterMap Event.closes = []) :
    ((before ++ [Event.dlclose lib]).dropWhile fun e => e.closes.isNone).filterMap Event.deinits
      = [] := by
  have hnone : ∀ e ∈ before, e.closes.isNone = true := fun e he =>
    Option.isNone_iff_eq_none.mpr (List.filterMap_eq_nil_iff.mp h e he)
  rw [List.dropWhile_append_of_pos hnone]
  rfl

/-- Undoing an initialisation is right if it succeeded and nothing that calls the library is
registered. -/
theorem cleansUp_undone_iff (hloads : ∀ e ∈ loads, ∃ lib loaded, e = .dlopen lib loaded)
    (hopens : loads.filterMap Event.opens = [lib]) (htail : ∀ e ∈ tail, e.serves = true) :
    CleansUp cookie (undone loads s tail cookie lib) ↔
      s = 0 ∧ Event.registerPictureAdjustment 0 ∉ tail := by
  have hinit : Event.dispApiInit 0 ∈ undone loads s tail cookie lib ↔ s = 0 :=
    init_mem_undone hloads htail
  constructor
  · intro h
    constructor
    · have hd := h.deinit
      rw [undone_deinits hloads htail] at hd
      by_contra hs
      rw [if_neg (fun hmem => hs (hinit.mp hmem))] at hd
      cases hd
    · intro hreg
      have hclosed := h.unregistered ((register_mem_undone hloads).mpr hreg) lib
      rw [undone_opens hopens htail, undone_closes hloads htail] at hclosed
      exact hclosed (List.mem_singleton_self lib) (List.mem_singleton_self lib)
  · intro h
    apply CleansUp.mk
    · rw [undone_deinits hloads htail, if_pos (hinit.mpr h.1)]
    · rw [undone_closes hloads htail, undone_opens hopens htail]
    · apply order_of_concat
      have hloads' := filterMap_loads hloads (f := Event.closes) fun _ _ => rfl
      have hnone := filterMap_tail htail fun e he => (Event.serves_spec he).2.1
      simp [List.filterMap_cons, hloads', hnone, Event.closes]
    · exact fun hreg => absurd ((register_mem_undone hloads).mp hreg) h.2

/-- Without a library there is nothing to release. -/
theorem cleansUp_unloaded (hloads : ∀ e ∈ loads, ∃ lib loaded, e = .dlopen lib loaded)
    (hopens : loads.filterMap Event.opens = []) : CleansUp cookie loads := by
  have hcloses := filterMap_loads hloads (f := Event.closes) fun _ _ => rfl
  have hdeinits := filterMap_loads hloads (f := Event.deinits) fun _ _ => rfl
  have hinit : Event.dispApiInit 0 ∉ loads :=
    not_mem_loads hloads fun _ _ => Event.noConfusion
  apply CleansUp.mk
  · rw [hdeinits, if_neg hinit]
  · rw [hcloses, hopens]
  · apply List.filterMap_eq_nil_iff.mpr
    intro e he
    exact List.filterMap_eq_nil_iff.mp hdeinits e ((List.dropWhile_sublist _).subset he)
  · rw [hopens]
    simp

/-- Closing a library that was never initialised is right. -/
theorem cleansUp_closed (hloads : ∀ e ∈ loads, ∃ lib loaded, e = .dlopen lib loaded)
    (hopens : loads.filterMap Event.opens = [lib]) :
    CleansUp cookie (loads ++ [.dlclose lib]) := by
  have hcloses := filterMap_loads hloads (f := Event.closes) fun _ _ => rfl
  have hdeinits := filterMap_loads hloads (f := Event.deinits) fun _ _ => rfl
  have hother : ∀ e ∈ loads ++ [.dlclose lib], e ≠ .dispApiInit 0 ∧
      e ≠ .registerPictureAdjustment 0 := by
    intro e he
    rcases List.mem_append.mp he with he | he
    · obtain ⟨lib', loaded, rfl⟩ := hloads e he
      exact ⟨Event.noConfusion, Event.noConfusion⟩
    · rw [List.mem_singleton.mp he]
      exact ⟨Event.noConfusion, Event.noConfusion⟩
  apply CleansUp.mk
  · rw [if_neg fun h => (hother _ h).1 rfl]
    simp [hdeinits, Event.deinits]
  · simp [hcloses, hopens, Event.closes, Event.opens]
  · exact order_of_concat hcloses
  · exact fun h => absurd rfl (hother _ h).2

end CleansUp

/-! ## `main` -/

/-- `main` with a library that has both symbols: everything from `disp_api_init` on is undone. -/
theorem main_undone {env : Env β} {lib : String}
    (hlib : sdmDispLibs.find? env.loads = some lib) (hinit : env.findsInit = true)
    (hdeinit : env.findsDeinit = true) :
    ∃ tail, (main env).events
        = undone (loadEvents env sdmDispLibs) env.initStatus tail env.initCookie lib ∧
      (∀ e ∈ tail, e.serves = true) ∧
      (env.initStatus = 0 → (Event.registerPictureAdjustment 0 ∈ tail ↔
        PaSupported env ∧ env.paRegisters = 0)) ∧
      ((∃ st, startUp env = .error st) ↔ env.initStatus ≠ 0 ∨ ¬ Registers env) := by
  by_cases hok : env.initStatus = 0
  · obtain ⟨tail, hrun, htail, hreg⟩ := startUp_served hlib hinit hdeinit hok
    refine ⟨tail, ?_, htail, fun _ => hreg, ?_⟩
    · rcases hrun with ⟨hrun, -⟩ | ⟨hrun, -⟩
      · rw [main, hrun, hok]
        simp [shutdown, MainState.extend, initialised, checkSupported, MainState.log, undone]
      · rw [main, hrun, hok]
        simp [shutdown, MainState.extend, initialised, checkSupported, MainState.log, undone]
    · rcases hrun with ⟨hrun, hall⟩ | ⟨hrun, hall⟩
      · simp [hrun, hok, hall]
      · simp [hrun, hok, hall]
  · refine ⟨[], ?_, by simp, fun h => absurd h hok, ?_⟩
    · rw [main, startUp_failed hlib hinit hdeinit hok]
      simp [shutdown, MainState.log, MainState.first, undone]
    · exact iff_of_true ⟨_, startUp_failed hlib hinit hdeinit hok⟩ (Or.inl hok)

/-- On every path to the end of `main` exactly what was acquired is released, and not under a
registered interface, precisely when the library is not loaded or lacks a symbol, or when it is
initialised and either the picture adjustment is not registered or `main` never leaves the
thread pool. -/
theorem main_cleansUp_iff (env : Env β) (joinReturns : Bool) :
    (Ends env joinReturns → CleansUp env.initCookie (main env).events) ↔
      (∀ lib ∈ sdmDispLibs, env.loads lib = false) ∨
      env.findsInit = false ∨ env.findsDeinit = false ∨
      env.initStatus = 0 ∧ (¬ PaSupported env ∨ env.paRegisters ≠ 0 ∨
        joinReturns = false ∧ (env.seSupported = true → env.seRegisters = 0)) := by
  have hspec := loadEvents_spec env sdmDispLibs
  cases hlib : sdmDispLibs.find? env.loads with
  | none =>
    have hnone : ∀ lib ∈ sdmDispLibs, env.loads lib = false := by
      simpa using List.find?_eq_none.mp hlib
    refine iff_of_true (fun _ => ?_) (Or.inl hnone)
    rw [main, startUp_unloaded hlib]
    apply cleansUp_unloaded hspec.2
    rw [hspec.1, hlib]
    rfl
  | some lib =>
    have hopens : (loadEvents env sdmDispLibs).filterMap Event.opens = [lib] := by
      rw [hspec.1, hlib]
      rfl
    have hloaded : ¬ ∀ lib ∈ sdmDispLibs, env.loads lib = false := by
      intro hall
      have hlib' := List.find?_some hlib
      rw [hall lib (List.mem_of_find?_eq_some hlib)] at hlib'
      cases hlib'
    by_cases hsym : env.findsInit = true ∧ env.findsDeinit = true
    · obtain ⟨tail, hevents, htail, hreg, herror⟩ := main_undone hlib hsym.1 hsym.2
      rw [hevents, cleansUp_undone_iff hspec.2 hopens htail, Ends, herror]
      simp only [hloaded, hsym.1, hsym.2, false_or, Bool.true_eq_false]
      by_cases hok : env.initStatus = 0
      · rw [hreg hok]
        simp only [hok, Registers, ← Bool.not_eq_true, true_and, ne_eq, not_true, false_or]
        by_cases hpa : PaSupported env ∧ env.paRegisters = 0
        · -- the library has to stay, so `main` must not get to its end
          simp only [hpa.1, hpa.2, true_and, not_true, imp_false, false_or, not_or, not_not]
        · refine iff_of_true (fun _ => hpa) ?_
          rcases not_and_or.mp hpa with h | h
          · exact Or.inl h
          · exact Or.inr (Or.inl h)
      · exact iff_of_false (fun h => hok (h (Or.inr (Or.inl hok))).1) fun h => hok h.1
    · have hmissing : env.findsInit = false ∨ env.findsDeinit = false := by
        rcases not_and_or.mp hsym with h | h
        · exact Or.inl (Bool.eq_false_iff.mpr h)
        · exact Or.inr (Bool.eq_false_iff.mpr h)
      refine iff_of_true (fun _ => ?_) (Or.inr ?_)
      · rw [main, startUp_missing hlib hmissing]
        exact cleansUp_closed hspec.2 hopens
      · rcases hmissing with h | h
        · exact Or.inl h
        · exact Or.inr (Or.inl h)

end Shutdown

/-- A failed initialisation is undone all the same, and a failed second registration closes the
library under the first. -/
theorem main_cleansUp_fails :
    (Ends { startingEnv HsicData.zero with initStatus := -19 } false ∧
      ¬ CleansUp 7 (main { startingEnv HsicData.zero with initStatus := -19 }).events) ∧
    Ends { startingEnv HsicData.zero with seRegisters := -1 } false ∧
      ¬ CleansUp 7 (main { startingEnv HsicData.zero with seRegisters := -1 }).events := by
  refine ⟨⟨Or.inr ⟨_, rfl⟩, fun h => ?_⟩, Or.inr ⟨_, rfl⟩, fun h => ?_⟩
  · have hdeinit := h.deinit
    revert hdeinit
    decide
  · have hunregistered := h.unregistered (by decide) "libsdm-disp-apis.qti.so" (by decide)
    revert hunregistered
    decide

end MeizuSm8150.Display
