import Mathlib.Data.List.Induction

/-!
# Protocols of calls

A protocol says, in each of its phases, which calls are allowed and where they lead. A list of
calls follows it when each call is allowed where it is made; a resource is then accounted for by
what single calls do to it.
-/

namespace Protocol

variable {σ ι : Type}

/-- The phase after some calls; `none` once a call was not allowed. -/
def follow (next : σ → ι → Option σ) (phase : σ) (calls : List ι) : Option σ :=
  calls.foldlM next phase

section Rules
variable {next : σ → ι → Option σ} {phase phase' : σ}

theorem follow_append (calls calls' : List ι) :
    follow next phase (calls ++ calls')
      = (follow next phase calls).bind fun p => follow next p calls' :=
  List.foldlM_append

/-- One more call. -/
theorem follow_concat {calls : List ι} (h : follow next phase calls = some phase') (call : ι) :
    follow next phase (calls ++ [call]) = next phase' call := by
  rw [follow_append, h, Option.bind_some, follow, List.foldlM_cons]
  exact bind_pure (next phase' call)

/-- Whoever follows the protocol has followed it up to any point. -/
theorem follow_prefix {calls calls' : List ι}
    (h : follow next phase (calls ++ calls') = some phase') :
    ∃ p, follow next phase calls = some p := by
  rw [follow_append] at h
  obtain ⟨p, hp, -⟩ := Option.bind_eq_some_iff.mp h
  exact ⟨p, hp⟩

/-- What every allowed call keeps holds after all of them. -/
theorem follow_inv (I : σ → List ι → Prop) (h0 : I phase [])
    (hstep : ∀ p p' calls call, I p calls → next p call = some p' → I p' (calls ++ [call]))
    {calls : List ι} (h : follow next phase calls = some phase') : I phase' calls := by
  induction calls using List.reverseRecOn generalizing phase' with
  | nil =>
    obtain rfl := Option.some.inj h
    exact h0
  | append_singleton calls call ih =>
    obtain ⟨p, hp⟩ := follow_prefix h
    rw [follow_concat hp] at h
    exact hstep p phase' calls call (ih hp) h

/-- Where each call changes what a phase holds by what it acquires and releases, all calls
together have acquired what they released and what is still held. -/
theorem follow_balance (held : σ → ℕ) (acquires releases : ι → Bool)
    (hstep : ∀ p p' call, next p call = some p' →
      held p' + (if releases call then 1 else 0) = held p + (if acquires call then 1 else 0))
    {calls : List ι} (h : follow next phase calls = some phase') :
    held phase' + calls.countP releases = held phase + calls.countP acquires := by
  refine follow_inv (fun p calls =>
    held p + calls.countP releases = held phase + calls.countP acquires) rfl ?_ h
  intro p p' calls call ih hnext
  have hcall := hstep p p' call hnext
  rw [List.countP_append, List.countP_append, List.countP_singleton, List.countP_singleton]
  omega

end Rules

end Protocol
