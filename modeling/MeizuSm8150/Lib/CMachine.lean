import Mathlib.Tactic.Common
import Mathlib.Data.Nat.Notation
import Mathlib.Data.Int.Notation
import Mathlib.Logic.Relation

/-!
# C integers, checked memory and loops

The vocabulary a C function over byte buffers is written in:

* conversions to the fixed-width types, each modulo its own width;
* `Run`, a computation that faults when an index leaves its object, so that a run which
  returns has made no access out of range;
* loops as the iteration of one step. A counted loop recurses on its count; any other loop
  carries fuel, and running out of it is a fault of its own, so a statement that the loop
  returns is a statement that it terminates.
-/

namespace CMachine

/-! ## Integer conversions -/

/-- The largest 32-bit `int`. -/
def intMax : ℕ := 2147483647

/-- Conversion to a 32-bit `int`. -/
def toInt (x : ℤ) : ℤ := (x + 2147483648) % 4294967296 - 2147483648

/-- Conversion to `uint32_t`. -/
def toU32 (x : ℤ) : ℕ := (x % 4294967296).toNat

/-- Conversion to a 64-bit `size_t`. -/
def toSize (x : ℤ) : ℕ := (x % 18446744073709551616).toNat

theorem toInt_of_range {x : ℤ} (h1 : -2147483648 ≤ x) (h2 : x ≤ intMax) : toInt x = x := by
  simp only [intMax] at h2
  unfold toInt
  omega

theorem toSize_of_lt {x : ℕ} (h : x < 18446744073709551616) : toSize x = x := by
  unfold toSize
  omega

theorem toInt_le (x : ℤ) : toInt x ≤ intMax := by
  unfold toInt intMax
  omega

/-- An `int` goes through `size_t` and back unchanged. -/
theorem toInt_toSize (x : ℤ) : toInt (toSize x) = toInt x := by
  unfold toInt toSize
  omega

/-! ## Checked computations -/

/-- Why a computation stops without a result. -/
inductive Fault where
  /-- An access at `index` of an object with `length` elements. -/
  | outOfBounds (index : ℤ) (length : ℕ)
  /-- A loop that did not end within its fuel. -/
  | outOfFuel
deriving Repr, DecidableEq

/-- A computation that may fault. -/
abbrev Run (α : Type) : Type := Except Fault α

@[simp] theorem ok_bind {ε α β : Type} (a : α) (f : α → Except ε β) :
    ((Except.ok a : Except ε α) >>= f) = f a := rfl

@[simp] theorem error_bind {ε α β : Type} (e : ε) (f : α → Except ε β) :
    ((Except.error e : Except ε α) >>= f) = Except.error e := rfl

/-- The value a sequenced computation returned came from a value of its first part. -/
theorem bind_eq_ok {ε α β : Type} {x : Except ε α} {f : α → Except ε β} {b : β}
    (h : (x >>= f) = .ok b) : ∃ a, x = .ok a ∧ f a = .ok b := by
  cases x with
  | error e => cases h
  | ok a => exact ⟨a, rfl, h⟩

/-! ## Byte memory -/

/-- The bytes of one object, in order. -/
abbrev Mem : Type := List UInt8

/-- The bytes of a literal of ASCII characters. -/
def ascii (s : String) : Mem := s.toList.map fun c => c.toNat.toUInt8

/-- Read the byte at index `i`. -/
def Mem.read (m : Mem) (i : ℤ) : Run UInt8 :=
  if 0 ≤ i then
    match m[i.toNat]? with
    | some b => .ok b
    | none => .error (.outOfBounds i m.length)
  else .error (.outOfBounds i m.length)

theorem Mem.read_some {m : Mem} {k : ℕ} {b : UInt8} (h : m[k]? = some b) {i : ℤ}
    (hi : i = k) : m.read i = .ok b := by
  subst hi
  simp [Mem.read, h]

theorem Mem.read_lt {m : Mem} {k : ℕ} (h : k < m.length) {i : ℤ} (hi : i = k) :
    m.read i = .ok m[k] :=
  Mem.read_some (List.getElem?_eq_getElem h) hi

/-- A read returns exactly when its index is in range. -/
theorem Mem.read_ge {m : Mem} {i : ℤ} (h : (m.length : ℤ) ≤ i) :
    m.read i = .error (.outOfBounds i m.length) := by
  have hn : m[i.toNat]? = none := List.getElem?_eq_none (by omega)
  simp [Mem.read, hn]

/-- Write `bytes` from index `off` on. -/
def Mem.write (m : Mem) (off : ℕ) (bytes : Mem) : Run Mem :=
  if off + bytes.length ≤ m.length then
    .ok (m.take off ++ (bytes ++ m.drop (off + bytes.length)))
  else .error (.outOfBounds (off + bytes.length - 1) m.length)

/-- A write behind `a` that replaces `b` and leaves `c`. -/
theorem Mem.write_append {a b c : Mem} {off : ℕ} (hoff : off = a.length) {bytes : Mem}
    (hlen : bytes.length = b.length) :
    (a ++ (b ++ c)).write off bytes = .ok (a ++ (bytes ++ c)) := by
  subst hoff
  have hfits : a.length + bytes.length ≤ (a ++ (b ++ c)).length := by
    simp only [List.length_append]
    omega
  have hrest : (a ++ (b ++ c)).drop (a.length + bytes.length) = c := by
    rw [← List.drop_drop, List.drop_left, hlen, List.drop_left]
  rw [Mem.write, if_pos hfits, List.take_left, hrest]

/-- A write inside an object goes on inside a larger one. -/
theorem Mem.write_append_right {m m' bytes : Mem} {off : ℕ} (h : m.write off bytes = .ok m')
    (tail : Mem) : (m ++ tail).write off bytes = .ok (m' ++ tail) := by
  unfold Mem.write at h ⊢
  by_cases hfits : off + bytes.length ≤ m.length
  · rw [if_pos hfits] at h
    obtain rfl := Except.ok.inj h
    rw [if_pos (by rw [List.length_append]; omega), List.take_append_of_le_length (by omega),
      List.drop_append_of_le_length hfits, List.append_assoc, List.append_assoc]
  · rw [if_neg hfits] at h
    cases h

/-! ## Tables of `int` -/

/-- An `int` array of length `n`. -/
abbrev Table (n : ℕ) : Type := Vector ℤ n

/-- Read entry `i`. -/
def Table.load {n : ℕ} (t : Table n) (i : ℤ) : Run ℤ :=
  if h : 0 ≤ i ∧ i.toNat < n then .ok t[i.toNat] else .error (.outOfBounds i n)

/-- Write entry `i`. -/
def Table.store {n : ℕ} (t : Table n) (i : ℤ) (v : ℤ) : Run (Table n) :=
  if h : 0 ≤ i ∧ i.toNat < n then .ok (t.set i.toNat v h.2) else .error (.outOfBounds i n)

/-- A write in range changes the entry it names and no other. -/
theorem Table.store_lt {n : ℕ} (t : Table n) {k : ℕ} (h : k < n) (v : ℤ) :
    ∃ t', t.store k v = .ok t' ∧ ∀ i : ℤ, t'.load i = if i = k then .ok v else t.load i := by
  refine ⟨t.set k v h, by simp [Table.store, h], fun i => ?_⟩
  by_cases hi : 0 ≤ i ∧ i.toNat < n
  · simp only [Table.load, dif_pos hi, Vector.getElem_set]
    by_cases hik : i = k
    · rw [if_pos hik, if_pos (by omega)]
    · rw [if_neg hik, if_neg (by omega)]
  · simp only [Table.load, dif_neg hi]
    rw [if_neg (by omega)]

/-- A table is what its entries are. -/
theorem Table.ext_load {n : ℕ} {t t' : Table n} (h : ∀ k : ℕ, k < n → t.load k = t'.load k) :
    t = t' := by
  apply Vector.ext
  intro k hk
  have hload := h k hk
  simp only [Table.load, Int.natCast_nonneg, Int.toNat_natCast, hk, and_self, dite_true] at hload
  exact Except.ok.inj hload

/-! ## Counted loops -/

section Counted
variable {σ : Type}

/-- `for (p = 0; p < n; p++)`. -/
def forUp (body : ℕ → σ → Run σ) : ℕ → σ → Run σ
  | 0, s => .ok s
  | n + 1, s => do
    let s' ← forUp body n s
    body n s'

/-- `for (p = n - 1; p >= 0; p--)`. -/
def forDown (body : ℕ → σ → Run σ) : ℕ → σ → Run σ
  | 0, s => .ok s
  | n + 1, s => do
    let s' ← body n s
    forDown body n s'

/-- An invariant indexed by the number of passes made. -/
theorem forUp_ok (I : ℕ → σ → Prop) {body : ℕ → σ → Run σ} {n : ℕ} {s : σ} (h0 : I 0 s)
    (hstep : ∀ k s, k < n → I k s → ∃ s', body k s = .ok s' ∧ I (k + 1) s') :
    ∃ s', forUp body n s = .ok s' ∧ I n s' := by
  induction n with
  | zero => exact ⟨s, rfl, h0⟩
  | succ n ih =>
    obtain ⟨s₁, hrun, hI⟩ := ih fun k s hk => hstep k s (by omega)
    rcases hstep n s₁ (by omega) hI with ⟨s₂, hbody, hI'⟩
    exact ⟨s₂, by rw [forUp, hrun, ok_bind, hbody], hI'⟩

/-- An invariant indexed by the number of passes left. -/
theorem forDown_ok (I : ℕ → σ → Prop) {body : ℕ → σ → Run σ} {n : ℕ} {s : σ} (h0 : I n s)
    (hstep : ∀ k s, k < n → I (k + 1) s → ∃ s', body k s = .ok s' ∧ I k s') :
    ∃ s', forDown body n s = .ok s' ∧ I 0 s' := by
  induction n generalizing s with
  | zero => exact ⟨s, rfl, h0⟩
  | succ n ih =>
    rcases hstep n s (by omega) h0 with ⟨s₁, hbody, hI⟩
    obtain ⟨s₂, hrun, hI'⟩ := ih hI fun k s hk => hstep k s (by omega)
    exact ⟨s₂, by rw [forDown, hbody, ok_bind, hrun], hI'⟩

end Counted

/-! ## Loops that decide when to stop -/

/-- What one pass of a loop ends with. -/
inductive Step (σ ρ : Type) where
  /-- Go round again from this state. -/
  | next (s : σ)
  /-- Leave the loop with this result. -/
  | done (r : ρ)
deriving Repr, DecidableEq

section Iterate
variable {σ ρ : Type}

/-- Run passes until one leaves the loop. -/
def iterate (step : σ → Run (Step σ ρ)) : ℕ → σ → Run ρ
  | 0, _ => .error .outOfFuel
  | fuel + 1, s => do
    match ← step s with
    | .next s' => iterate step fuel s'
    | .done r => .ok r

/-- One pass takes `s` to `s'` and stays in the loop. -/
def Passes (step : σ → Run (Step σ ρ)) (s s' : σ) : Prop := step s = .ok (.next s')

/-- Some number of passes takes `s` to `s'`. -/
def Reaches (step : σ → Run (Step σ ρ)) : σ → σ → Prop := Relation.ReflTransGen (Passes step)

theorem iterate_next {step : σ → Run (Step σ ρ)} {s s' : σ} (h : step s = .ok (.next s'))
    (fuel : ℕ) : iterate step (fuel + 1) s = iterate step fuel s' := by
  rw [iterate, h, ok_bind]

theorem iterate_done {step : σ → Run (Step σ ρ)} {s : σ} {r : ρ} (h : step s = .ok (.done r))
    (fuel : ℕ) : iterate step (fuel + 1) s = .ok r := by
  rw [iterate, h, ok_bind]

/-- More fuel does not change a result. -/
theorem iterate_mono {step : σ → Run (Step σ ρ)} {fuel fuel' : ℕ} (hle : fuel ≤ fuel') {s : σ}
    {r : ρ} (h : iterate step fuel s = .ok r) : iterate step fuel' s = .ok r := by
  induction fuel generalizing fuel' s with
  | zero => cases h
  | succ fuel ih =>
    obtain ⟨fuel', rfl⟩ : ∃ k, fuel' = k + 1 := ⟨fuel' - 1, by omega⟩
    rw [iterate] at h ⊢
    obtain ⟨o, ho, h⟩ := bind_eq_ok h
    rw [ho, ok_bind]
    cases o with
    | next s' => exact ih (by omega) h
    | done r' => exact h

/-- Every pass keeps `I` and decreases `μ`, or ends the run in a way that satisfies `Q`. -/
theorem iterate_ends (I : σ → Prop) (μ : σ → ℕ) (Q : Run ρ → Prop)
    {step : σ → Run (Step σ ρ)}
    (hstep : ∀ s, I s → (∃ s', step s = .ok (.next s') ∧ I s' ∧ μ s' < μ s) ∨
      (∃ r, step s = .ok (.done r) ∧ Q (.ok r)) ∨ ∃ e, step s = .error e ∧ Q (.error e)) :
    ∀ (fuel : ℕ) (s : σ), I s → μ s < fuel → Q (iterate step fuel s) := by
  intro fuel
  induction fuel with
  | zero => intro s _ hμ; omega
  | succ fuel ih =>
    intro s hI hμ
    rcases hstep s hI with ⟨s', hs', hI', hdec⟩ | ⟨r, hr, hQ⟩ | ⟨e, he, hQ⟩
    · rw [iterate_next hs']
      exact ih s' hI' (by omega)
    · rw [iterate_done hr]
      exact hQ
    · rw [iterate, he, error_bind]
      exact hQ

/-- Total correctness: every pass keeps `I` and decreases `μ`, or leaves with a result
that satisfies `Q`. -/
theorem iterate_total (I : σ → Prop) (μ : σ → ℕ) (Q : ρ → Prop) {step : σ → Run (Step σ ρ)}
    (hstep : ∀ s, I s → (∃ s', step s = .ok (.next s') ∧ I s' ∧ μ s' < μ s) ∨
      ∃ r, step s = .ok (.done r) ∧ Q r) :
    ∀ (fuel : ℕ) (s : σ), I s → μ s < fuel → ∃ r, iterate step fuel s = .ok r ∧ Q r := by
  refine iterate_ends I μ (fun x => ∃ r, x = .ok r ∧ Q r) fun s hI => ?_
  rcases hstep s hI with hnext | ⟨r, hr, hQ⟩
  · exact Or.inl hnext
  · exact Or.inr (Or.inl ⟨r, hr, r, rfl, hQ⟩)

/-- Partial correctness: what every pass keeps still holds when the loop returns. -/
theorem iterate_inv (I : σ → Prop) (Q : ρ → Prop) {step : σ → Run (Step σ ρ)}
    (hnext : ∀ s s', I s → step s = .ok (.next s') → I s')
    (hdone : ∀ s r, I s → step s = .ok (.done r) → Q r) :
    ∀ (fuel : ℕ) (s : σ) (r : ρ), I s → iterate step fuel s = .ok r → Q r := by
  intro fuel
  induction fuel with
  | zero => intro s r _ h; cases h
  | succ fuel ih =>
    intro s r hI h
    rw [iterate] at h
    rcases bind_eq_ok h with ⟨o, ho, h⟩
    cases o with
    | next s' => exact ih s' r (hnext s s' hI ho) h
    | done r' =>
      obtain rfl : r' = r := by simpa using h
      exact hdone s r' hI ho

/-- A loop each of whose passes follows one of another loop returns what that returns. -/
theorem iterate_map {σ' ρ' : Type} (f : σ → σ') (g : ρ → ρ') {step : σ → Run (Step σ ρ)}
    {step' : σ' → Run (Step σ' ρ')}
    (hnext : ∀ s s', step s = .ok (.next s') → step' (f s) = .ok (.next (f s')))
    (hdone : ∀ s r, step s = .ok (.done r) → step' (f s) = .ok (.done (g r))) {fuel : ℕ} {s : σ}
    {r : ρ} (h : iterate step fuel s = .ok r) : iterate step' fuel (f s) = .ok (g r) := by
  induction fuel generalizing s with
  | zero => cases h
  | succ fuel ih =>
    rw [iterate] at h
    obtain ⟨o, ho, h⟩ := bind_eq_ok h
    cases o with
    | next s' =>
      rw [iterate_next (hnext s s' ho)]
      exact ih h
    | done r' =>
      obtain rfl : r' = r := Except.ok.inj h
      exact iterate_done (hdone s r' ho) fuel

/-- A loop none of whose passes leaves it returns nothing. -/
theorem iterate_endless (I : σ → Prop) {step : σ → Run (Step σ ρ)}
    (hstep : ∀ s o, I s → step s = .ok o → ∃ s', o = .next s' ∧ I s') {fuel : ℕ} {s : σ} {r : ρ}
    (hI : I s) : iterate step fuel s ≠ .ok r := by
  refine fun h => iterate_inv I (fun _ => False) (fun s s' hI hrun => ?_) (fun s r hI hrun => ?_)
    fuel s r hI h
  · obtain ⟨_, hnext, hI'⟩ := hstep s _ hI hrun
    cases hnext
    exact hI'
  · obtain ⟨_, hnext, -⟩ := hstep s _ hI hrun
    cases hnext

/-- A property every pass keeps holds in every state reached. -/
theorem Reaches.inv {step : σ → Run (Step σ ρ)} (I : σ → Prop)
    (hnext : ∀ s s', I s → step s = .ok (.next s') → I s') {s s' : σ}
    (h : Reaches step s s') (hI : I s) : I s' := by
  induction h with
  | refl => exact hI
  | tail _ hp ih => exact hnext _ _ ih hp

end Iterate

end CMachine
