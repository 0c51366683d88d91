import MeizuSm8150.Lib.Machine
import MeizuSm8150.Display.FingerprintInscreen

/-!
# Runs of the fingerprint service

With a daemon every call is answered, and the commands that reach the daemon are those of the
calls in order, whatever it answers. The boost is switched on by the first view and by nothing
switched off again. Without a daemon the first call that has something to tell it ends the
process, after its file is written.
-/

namespace MeizuSm8150.Display

open CMachine CDecimal Sysfs Machine

/-! ## What a call does -/

/-- What a call leaves in the files, and the commands it sends. -/
def fodEffect (files : Files) : FodCall → Files × List ℤ
  | .onPress => onPress files
  | .onRelease => onRelease files
  | .onShowFODView => onShowFODView files
  | .onHideFODView => onHideFODView files
  | _ => (files, [])

/-- What a call answers. -/
def fodAnswer (platform : Platform) (files : Files) : FodCall → FodReply
  | .getPositionX => .int (some platform.fodPosX)
  | .getPositionY => .int (some platform.fodPosY)
  | .getSize => .int (some platform.fodSize)
  | .getDimAmount _ => .int (dimAmount platform.pow (get files brightnessPath 0))
  | .handleAcquired _ _ => .bool false
  | .handleError _ _ => .bool false
  | .shouldBoostBrightness => .bool false
  | _ => .void

/-- The command of a call. -/
def FodCall.command : FodCall → Option ℤ
  | .onPress => some 1536
  | .onRelease => some 1537
  | .onShowFODView => some 1607
  | .onHideFODView => some 1608
  | _ => none

/-- What a call writes to the high brightness attribute. -/
def FodCall.hbm : FodCall → Option ℤ
  | .onPress => some 1
  | .onRelease => some 0
  | _ => none

def FodEvent.sent : FodEvent → Option ℤ
  | .sendCommand cmd => some cmd
  | _ => none

def FodEvent.failed : FodEvent → Option ℤ
  | .logError cmd => some cmd
  | _ => none

def FodEvent.answered : FodEvent → Option FodReply
  | .reply r => some r
  | _ => none

theorem fodEffect_commands (files : Files) (c : FodCall) :
    (fodEffect files c).2 = c.command.toList := by
  cases c <;> rfl

/-- With a daemon. -/
theorem fodStep_daemon (platform : Platform) (daemon : Daemon) (files : Files) (sent : ℕ)
    (c : FodCall) : fodStep platform ⟨⟨some daemon⟩, files, true, sent⟩ c
      = (⟨⟨some daemon⟩, (fodEffect files c).1, true, sent + (fodEffect files c).2.length⟩,
        notifyAll daemon sent (fodEffect files c).2
          ++ [.reply (fodAnswer platform files c)]) := by
  cases c <;> rfl

/-- Without a daemon. -/
theorem fodStep_null (platform : Platform) (files : Files) (sent : ℕ) (c : FodCall) :
    fodStep platform ⟨⟨none⟩, files, true, sent⟩ c
      = (⟨⟨none⟩, (fodEffect files c).1, c.command.isNone, sent⟩,
        if c.command.isNone then [.reply (fodAnswer platform files c)] else []) := by
  cases c <;> rfl

theorem fodStep_stopped (platform : Platform) (p : FodProcess) (h : p.running = false)
    (c : FodCall) : fodStep platform p c = (p, []) := by
  rw [fodStep.eq_def, h]
  rfl

/-! ## The files -/

theorem hbmEnablePath_ne : boostEnablePath ≠ hbmEnablePath := by decide

theorem fodEffect_hbm (files : Files) (c : FodCall) : (fodEffect files c).1 hbmEnablePath
    = (c.hbm.map fun v => some (ascii (toString v))).getD (files hbmEnablePath) := by
  cases c with
  | onPress => exact files.set_same hbmEnablePath 1
  | onRelease => exact files.set_same hbmEnablePath 0
  | onShowFODView => exact files.set_other hbmEnablePath_ne.symm 1
  | _ => rfl

theorem fodEffect_boost (files : Files) (c : FodCall) : (fodEffect files c).1 boostEnablePath
    = if c = .onShowFODView then some (ascii "1") else files boostEnablePath := by
  cases c with
  | onPress => exact files.set_other hbmEnablePath_ne 1
  | onRelease => exact files.set_other hbmEnablePath_ne 0
  | onShowFODView => exact files.set_same boostEnablePath 1
  | _ => rfl

theorem fodEffect_other (files : Files) (c : FodCall) {path : String} (hhbm : path ≠ hbmEnablePath)
    (hboost : path ≠ boostEnablePath) : (fodEffect files c).1 path = files path := by
  cases c with
  | onPress => exact files.set_other hhbm 1
  | onRelease => exact files.set_other hhbm 0
  | onShowFODView => exact files.set_other hboost 1
  | _ => rfl

theorem run_fodEffect_boost (files : Files) (calls : List FodCall) :
    (run fodEffect files calls).1 boostEnablePath
      = if FodCall.onShowFODView ∈ calls then some (ascii "1") else files boostEnablePath := by
  induction calls generalizing files with
  | nil => rfl
  | cons c calls ih =>
    show (run fodEffect (fodEffect files c).1 calls).1 boostEnablePath = _
    rw [ih, fodEffect_boost]
    by_cases hc : c = .onShowFODView
    · rw [if_pos hc, ite_self, if_pos (List.mem_cons.mpr (Or.inl hc.symm))]
    · have hmem : FodCall.onShowFODView ∈ c :: calls ↔ .onShowFODView ∈ calls := by
        rw [List.mem_cons]
        exact or_iff_right (Ne.symm hc)
      simp only [if_neg hc, hmem]

theorem run_fodEffect_commands (files : Files) (calls : List FodCall) :
    (run fodEffect files calls).2 = calls.filterMap FodCall.command := by
  have h := run_filterMap fodEffect some FodCall.command
    (fun files c => by rw [fodEffect_commands, List.filterMap_some]) files calls
  rwa [List.filterMap_some] at h

/-! ## With a daemon -/

/-- Of some commands, the first with the number `k`, those the daemon does not take. -/
def Daemon.refused (daemon : Daemon) (k : ℕ) (cmds : List ℤ) : List ℤ :=
  ((cmds.zipIdx k).filter fun c => !daemon c.2 c.1).map Prod.fst

theorem Daemon.refused_cons (daemon : Daemon) (k : ℕ) (cmd : ℤ) (cmds : List ℤ) :
    daemon.refused k (cmd :: cmds)
      = (if daemon k cmd then [] else [cmd]) ++ daemon.refused (k + 1) cmds := by
  rw [refused, List.zipIdx_cons, List.filter_cons]
  cases daemon k cmd <;> rfl

theorem Daemon.refused_append (daemon : Daemon) (k : ℕ) (cmds cmds' : List ℤ) :
    daemon.refused k (cmds ++ cmds')
      = daemon.refused k cmds ++ daemon.refused (k + cmds.length) cmds' := by
  rw [refused, List.zipIdx_append, List.filter_append, List.map_append]
  rfl

/-- The commands of a call, and of those the ones that fail, and no reply. -/
theorem filterMap_notifyAll (daemon : Daemon) (k : ℕ) (cmds : List ℤ) :
    (notifyAll daemon k cmds).filterMap FodEvent.sent = cmds ∧
      (notifyAll daemon k cmds).filterMap FodEvent.failed = daemon.refused k cmds ∧
      (notifyAll daemon k cmds).filterMap FodEvent.answered = [] := by
  induction cmds generalizing k with
  | nil => exact ⟨rfl, rfl, rfl⟩
  | cons cmd cmds ih =>
    rcases ih (k + 1) with ⟨hsent, hfailed, hanswered⟩
    have hcons : notifyAll daemon k (cmd :: cmds)
        = notifyHal daemon k cmd ++ notifyAll daemon (k + 1) cmds := by
      rw [notifyAll, List.zipIdx_cons, List.flatMap_cons]
      rfl
    rw [hcons, List.filterMap_append, List.filterMap_append, List.filterMap_append, hsent, hfailed,
      hanswered, daemon.refused_cons, notifyHal]
    cases daemon k cmd <;> exact ⟨rfl, rfl, rfl⟩

/-- The files and the commands do not depend on what the daemon answers. -/
theorem run_daemon (platform : Platform) (daemon : Daemon) (files : Files) (sent : ℕ)
    (calls : List FodCall) :
    let r := run (fodStep platform) ⟨⟨some daemon⟩, files, true, sent⟩ calls
    let plain := run fodEffect files calls
    r.1 = ⟨⟨some daemon⟩, plain.1, true, sent + plain.2.length⟩ ∧
      r.2.filterMap FodEvent.sent = plain.2 ∧
      r.2.filterMap FodEvent.failed = daemon.refused sent plain.2 ∧
      (r.2.filterMap FodEvent.answered).length = calls.length := by
  induction calls generalizing files sent with
  | nil => exact ⟨rfl, rfl, rfl, rfl⟩
  | cons c calls ih =>
    rcases ih (fodEffect files c).1 (sent + (fodEffect files c).2.length) with
      ⟨hstate, hsent, hfailed, hanswered⟩
    rcases filterMap_notifyAll daemon sent (fodEffect files c).2 with ⟨hs, hf, ha⟩
    simp only [run, fodStep_daemon, List.filterMap_append, List.length_append,
      daemon.refused_append, hsent, hfailed, hanswered, hs, hf, ha, ← Nat.add_assoc]
    refine ⟨hstate, ?_, ?_, ?_⟩
    · rw [List.filterMap_cons_none rfl, List.filterMap_nil, List.append_nil]
    · rw [List.filterMap_cons_none rfl, List.filterMap_nil, List.append_nil]
    · exact Nat.add_comm _ _

/-- Every call is answered; the daemon is sent one command for each press, release, showing and
hiding, in order, and those it does not take at their turn are logged; the attribute is what the
finger left it at; and what a view switched on stays on. -/
theorem fod_run (platform : Platform) (daemon : Daemon) (files : Files) (calls : List FodCall) :
    let r := run (fodStep platform) (.new (some daemon) files) calls
    r.1.running = true ∧
      (r.2.filterMap FodEvent.answered).length = calls.length ∧
      r.2.filterMap FodEvent.sent = calls.filterMap FodCall.command ∧
      r.2.filterMap FodEvent.failed = daemon.refused 0 (calls.filterMap FodCall.command) ∧
      r.1.files hbmEnablePath = ((lastSome FodCall.hbm calls).map fun v =>
        some (ascii (toString v))).getD (files hbmEnablePath) ∧
      r.1.files boostEnablePath
        = (if FodCall.onShowFODView ∈ calls then some (ascii "1") else files boostEnablePath) ∧
      ∀ path, path ≠ hbmEnablePath → path ≠ boostEnablePath → r.1.files path = files path := by
  rcases run_daemon platform daemon files 0 calls with ⟨hstate, hsent, hfailed, hanswered⟩
  rw [run_fodEffect_commands] at hsent hfailed
  have hfiles : (run (fodStep platform) (.new (some daemon) files) calls).1.files
      = (run fodEffect files calls).1 := congrArg FodProcess.files hstate
  refine ⟨congrArg FodProcess.running hstate, hanswered, hsent, hfailed, ?_, ?_, ?_⟩
  · rw [hfiles, ← lastSome_map]
    exact run_register fodEffect (· hbmEnablePath) _ fodEffect_hbm files calls
  · rw [hfiles, run_fodEffect_boost]
  · intro path hhbm hboost
    rw [hfiles]
    apply run_inv fodEffect (fun files' => files' path = files path) _ rfl
    exact fun files' c h => (fodEffect_other files' c hhbm hboost).trans h

/-! ## Without a daemon -/

/-- The calls before the first that sends a command are answered. That call writes its file and
ends the process, so nothing is sent, and a press leaves the panel bright. -/
theorem fod_run_null (platform : Platform) (files : Files) (calls : List FodCall) :
    let r := run (fodStep platform) (.new none files) calls
    (r.1.running = true ↔ ∀ c ∈ calls, c.command = none) ∧
      r.2 = (calls.takeWhile (·.command.isNone)).map (.reply ∘ fodAnswer platform files) ∧
      r.1.files = ((calls.find? (·.command.isSome)).map fun c =>
        (fodEffect files c).1).getD files := by
  unfold FodProcess.new
  induction calls with
  | nil => exact ⟨iff_of_true rfl (List.forall_mem_nil _), rfl, rfl⟩
  | cons c calls ih =>
    rw [List.takeWhile_cons, List.find?_cons, List.forall_mem_cons]
    simp only [run, fodStep_null]
    cases hc : c.command with
    | none =>
      -- such a call leaves everything as it is
      have hfiles : (fodEffect files c).1 = files := by
        cases c <;> first | rfl | cases hc
      rcases ih with ⟨hrunning, hevents, hleft⟩
      simp only [Option.isNone_none, Option.isSome_none, if_true, hfiles, hrunning, hevents, hleft]
      exact ⟨by simp, rfl, trivial⟩
    | some cmd =>
      simp only [Option.isNone_some, Option.isSome_some]
      -- the process is gone, and the calls behind find nobody
      rw [run_stopped _ (fodStep_stopped platform _ rfl)]
      exact ⟨by simp, rfl, rfl⟩

end MeizuSm8150.Display
