import Mathlib.Tactic.Common
import Mathlib.Data.List.Induction

/-!
# Machines that serve calls

A component that serves one call at a time: a step takes its state and a call to the next state
and what it puts out. The rules speak of whole runs: an invariant of the state, an invariant of
the history, a register that holds what the last call of a kind stored, when two runs of the
same calls put out the same, and when a run is, for those who see a part of it only, the run of
a simpler machine.
-/

namespace Machine

variable {σ ι ω α : Type}

/-- Serve the calls in order: the state they leave, and everything they put out. -/
def run (step : σ → ι → σ × List ω) : σ → List ι → σ × List ω
  | s, [] => (s, [])
  | s, c :: cs =>
    let next := step s c
    let rest := run step next.1 cs
    (rest.1, next.2 ++ rest.2)

section Run
variable (step : σ → ι → σ × List ω)

theorem run_append (s : σ) (cs cs' : List ι) :
    run step s (cs ++ cs') = ((run step (run step s cs).1 cs').1,
      (run step s cs).2 ++ (run step (run step s cs).1 cs').2) := by
  induction cs generalizing s with
  | nil => rfl
  | cons c cs ih => simp only [List.cons_append, run, ih, List.append_assoc]

theorem run_concat (s : σ) (cs : List ι) (c : ι) :
    run step s (cs ++ [c]) = ((step (run step s cs).1 c).1,
      (run step s cs).2 ++ (step (run step s cs).1 c).2) := by
  rw [run_append]
  simp [run]

/-- What every call keeps holds after any calls. -/
theorem run_inv (I : σ → Prop) (hstep : ∀ s c, I s → I (step s c).1) {s : σ} (h : I s)
    (cs : List ι) : I (run step s cs).1 := by
  induction cs generalizing s with
  | nil => exact h
  | cons c cs ih => exact ih (hstep s c h)

/-- An invariant that relates the state and the output to the calls served so far. -/
theorem run_history (I : List ι → σ × List ω → Prop) {s : σ} (h0 : I [] (s, []))
    (hstep : ∀ cs c r, I cs r → I (cs ++ [c]) ((step r.1 c).1, r.2 ++ (step r.1 c).2))
    (cs : List ι) : I cs (run step s cs) := by
  induction cs using List.reverseRecOn with
  | nil => exact h0
  | append_singleton cs c ih =>
    rw [run_concat]
    exact hstep cs c _ ih

end Run

/-! ## The last call of a kind -/

/-- What `f` makes of the last call it is defined on. -/
def lastSome (f : ι → Option α) (cs : List ι) : Option α := cs.reverse.findSome? f

@[simp] theorem lastSome_nil (f : ι → Option α) : lastSome f [] = none := rfl

@[simp] theorem lastSome_concat (f : ι → Option α) (cs : List ι) (c : ι) :
    lastSome f (cs ++ [c]) = (f c).or (lastSome f cs) := by
  rw [lastSome, List.reverse_concat, List.findSome?_cons]
  cases f c <;> rfl

theorem lastSome_append (f : ι → Option α) (cs cs' : List ι) :
    lastSome f (cs ++ cs') = (lastSome f cs').or (lastSome f cs) := by
  rw [lastSome, List.reverse_append, List.findSome?_append]
  rfl

theorem lastSome_map {β : Type} (f : ι → Option α) (g : α → β) (cs : List ι) :
    lastSome (fun c => (f c).map g) cs = (lastSome f cs).map g := by
  induction cs using List.reverseRecOn with
  | nil => rfl
  | append_singleton cs c ih =>
    rw [lastSome_concat, lastSome_concat, ih]
    cases f c <;> rfl

/-- A register that the calls `f` is defined on overwrite and no other call touches. -/
theorem run_register (step : σ → ι → σ × List ω) (get : σ → α) (f : ι → Option α)
    (hstep : ∀ s c, get (step s c).1 = (f c).getD (get s)) (s : σ) (cs : List ι) :
    get (run step s cs).1 = (lastSome f cs).getD (get s) := by
  refine run_history step (fun cs r => get r.1 = (lastSome f cs).getD (get s)) rfl ?_ cs
  intro cs c r ih
  rw [hstep, ih, lastSome_concat]
  cases f c <;> rfl

/-- A machine that serves no more calls. -/
theorem run_stopped (step : σ → ι → σ × List ω) {s : σ} (h : ∀ c, step s c = (s, []))
    (cs : List ι) : run step s cs = (s, []) := by
  induction cs with
  | nil => rfl
  | cons c cs ih =>
    simp only [run, h, ih]
    rfl

/-- Where what `f` sees of a call's output depends on the call alone, that of a run is what it
sees of the calls in order. -/
theorem run_filterMap_of (step : σ → ι → σ × List ω) (I : σ → Prop)
    (hinv : ∀ s c, I s → I (step s c).1) (f : ω → Option α) (g : ι → Option α)
    (hstep : ∀ s c, I s → (step s c).2.filterMap f = (g c).toList) {s : σ} (hs : I s)
    (cs : List ι) : (run step s cs).2.filterMap f = cs.filterMap g := by
  induction cs generalizing s with
  | nil => rfl
  | cons c cs ih =>
    simp only [run, List.filterMap_append, hstep s c hs, ih (hinv s c hs)]
    cases hg : g c with
    | some a => rw [List.filterMap_cons_some hg]; rfl
    | none => rw [List.filterMap_cons_none hg]; rfl

theorem run_filterMap (step : σ → ι → σ × List ω) (f : ω → Option α) (g : ι → Option α)
    (hstep : ∀ s c, (step s c).2.filterMap f = (g c).toList) (s : σ) (cs : List ι) :
    (run step s cs).2.filterMap f = cs.filterMap g :=
  run_filterMap_of step (fun _ => True) (fun _ _ h => h) f g (fun s c _ => hstep s c) trivial cs

/-! ## Two runs of the same calls -/

/-- Where the amount of output depends on the call only, two runs put out the same exactly when
each call does. -/
theorem run_output_eq_iff (step : σ → ι → σ × List ω)
    (hlen : ∀ s s' c, (step s c).2.length = (step s' c).2.length) (s s' : σ) (cs : List ι) :
    (run step s cs).2 = (run step s' cs).2 ↔ ∀ pre c post, cs = pre ++ c :: post →
      (step (run step s pre).1 c).2 = (step (run step s' pre).1 c).2 := by
  induction cs generalizing s s' with
  | nil =>
    refine iff_of_true rfl fun pre c post h => ?_
    simp at h
  | cons c cs ih =>
    have hsplit : (run step s (c :: cs)).2 = (run step s' (c :: cs)).2 ↔
        (step s c).2 = (step s' c).2 ∧
          (run step (step s c).1 cs).2 = (run step (step s' c).1 cs).2 :=
      ⟨fun h => List.append_inj h (hlen s s' c), fun h => congrArg₂ _ h.1 h.2⟩
    rw [hsplit, ih]
    constructor
    · intro hboth pre d post h
      rcases hboth with ⟨hhead, htail⟩
      cases pre with
      | nil =>
        cases h
        exact hhead
      | cons e pre =>
        cases h
        exact htail pre d post rfl
    · intro h
      exact ⟨h [] c cs rfl, fun pre d post heq => h (c :: pre) d post (by rw [heq]; rfl)⟩

/-! ## A part of a run -/

/-- As `run_register`, for the states of an invariant. -/
theorem run_register_of (step : σ → ι → σ × List ω) (I : σ → Prop)
    (hinv : ∀ s c, I s → I (step s c).1) (get : σ → α) (f : ι → Option α)
    (hstep : ∀ s c, I s → get (step s c).1 = (f c).getD (get s)) {s : σ} (hs : I s)
    (cs : List ι) : get (run step s cs).1 = (lastSome f cs).getD (get s) := by
  refine (run_history step (fun cs r => I r.1 ∧ get r.1 = (lastSome f cs).getD (get s))
    ⟨hs, rfl⟩ ?_ cs).2
  intro cs c r ih
  rcases ih with ⟨hr, hget⟩
  refine ⟨hinv r.1 c hr, ?_⟩
  rw [hstep r.1 c hr, hget, lastSome_concat]
  cases f c <;> rfl

/-- Who sees `view` of the state and `mine` of the output sees `step'`, in the states of `I`: a
call that `own` takes for a call of `step'` acts on the view as that does, and any other leaves
the view alone. -/
structure Projects {σ' ι' ω' : Type} (step : σ → ι → σ × List ω) (step' : σ' → ι' → σ' × List ω')
    (I : σ → Prop) (view : σ → σ') (own : ι → Option ι') (mine : ω → Option ω') : Prop where
  inv_step : ∀ s c, I s → I (step s c).1
  own_step : ∀ s c c', I s → own c = some c' → view (step s c).1 = (step' (view s) c').1 ∧
    (step s c).2.filterMap mine = (step' (view s) c').2
  other_step : ∀ s c, I s → own c = none → view (step s c).1 = view s ∧
    (step s c).2.filterMap mine = []

/-- Any run is then a run of the simpler machine on the calls it takes part in, in order. -/
theorem Projects.run_eq {σ' ι' ω' : Type} {step : σ → ι → σ × List ω}
    {step' : σ' → ι' → σ' × List ω'} {I : σ → Prop} {view : σ → σ'} {own : ι → Option ι'}
    {mine : ω → Option ω'} (h : Projects step step' I view own mine) {s : σ} (hs : I s)
    (cs : List ι) :
    view (run step s cs).1 = (run step' (view s) (cs.filterMap own)).1 ∧
      (run step s cs).2.filterMap mine = (run step' (view s) (cs.filterMap own)).2 := by
  induction cs generalizing s with
  | nil => exact ⟨rfl, rfl⟩
  | cons c cs ih =>
    rcases ih (h.inv_step s c hs) with ⟨hview, hmine⟩
    simp only [run, List.filterMap_append]
    cases hown : own c with
    | some c' =>
      rcases h.own_step s c c' hs hown with ⟨hstep, hout⟩
      rw [List.filterMap_cons_some hown, hview, hmine, hstep, hout]
      exact ⟨rfl, rfl⟩
    | none =>
      rcases h.other_step s c hs hown with ⟨hstep, hout⟩
      rw [List.filterMap_cons_none hown, hview, hmine, hstep, hout]
      exact ⟨rfl, rfl⟩

end Machine
