import MeizuSm8150.Recovery.BoyerMooreTables

/-!
# The bad-character table

`bm_make_delta1` compares a 32-bit counter with `pat_len - 1` as a `size_t`. For the empty
pattern that bound is the largest `size_t` and the loop reads the pattern past its end; for a
pattern of more than `2 ^ 32` bytes the counter never reaches the bound. In between the table is
right when every distance fits in an `int`.
-/

namespace MeizuSm8150.Recovery

open CMachine CString Matching

/-! ## Lengths the loop does not end for -/

/-- The first pass over the empty pattern reads a character it does not have. -/
theorem bmMakeDelta1_empty (fuel : ℕ) (delta1 t : Table alphabetLen) :
    bmMakeDelta1 fuel delta1 [] 0 ≠ .ok t := by
  intro h
  obtain ⟨t₁, -, h⟩ := bind_eq_ok h
  cases fuel with
  | zero => cases h
  | succ fuel => cases h

/-- The counter stays below the bound. -/
theorem bmMakeDelta1_endless {pat : Mem} (hlen : 4294967296 < pat.length)
    (hsize : pat.length < 18446744073709551616) (fuel : ℕ) (delta1 t : Table alphabetLen) :
    bmMakeDelta1 fuel delta1 pat pat.length ≠ .ok t := by
  have hbound : toSize ((pat.length : ℤ) - 1) = pat.length - 1 := by
    unfold toSize
    omega
  have hstep : ∀ (s : ℕ × Table alphabetLen) o, s.1 < 4294967296 →
      bmMakeDelta1Step pat pat.length s = .ok o → ∃ s', o = .next s' ∧ s'.1 < 4294967296 := by
    intro s o hs hrun
    rcases s with ⟨i, table⟩
    rw [bmMakeDelta1Step, hbound, if_pos (by dsimp only at hs; omega)] at hrun
    obtain ⟨idx, -, hrun⟩ := bind_eq_ok hrun
    obtain ⟨table', -, hrun⟩ := bind_eq_ok hrun
    refine ⟨_, (Except.ok.inj hrun).symm, ?_⟩
    dsimp only
    unfold toU32
    omega
  intro h
  obtain ⟨t₁, -, h⟩ := bind_eq_ok h
  exact iterate_endless (fun s => s.1 < 4294967296) hstep (by dsimp only; omega) h

/-! ## The whole table -/

/-- A table once built does not depend on how long the loop was given. -/
theorem bmMakeDelta1_unique {pat : Mem} {patLen fuel fuel' : ℕ} {delta1 t t' : Table alphabetLen}
    (hle : fuel ≤ fuel') (h : bmMakeDelta1 fuel delta1 pat patLen = .ok t)
    (h' : bmMakeDelta1 fuel' delta1 pat patLen = .ok t') : t = t' := by
  obtain ⟨t₁, hfill, h⟩ := bind_eq_ok h
  obtain ⟨t₁', hfill', h'⟩ := bind_eq_ok h'
  rw [hfill] at hfill'
  obtain rfl := Except.ok.inj hfill'
  rw [iterate_mono hle h] at h'
  exact Except.ok.inj h'

/-- The entry of every character is its distance: `pat_len - 1 - q` for the last `q` in front of
the end that holds it, and `pat_len` if there is none. -/
def ExactDistances (pat : Mem) (t : Table alphabetLen) : Prop :=
  ∀ c : UInt8,
    (∃ q : ℕ, q + 1 < pat.length ∧ pat[q]? = some c ∧
      (∀ q' : ℕ, q < q' → q' + 1 < pat.length → pat[q']? ≠ some c) ∧
      t.load c.toNat = .ok ((pat.length : ℤ) - 1 - q)) ∨
    (∀ q : ℕ, q + 1 < pat.length → pat[q]? ≠ some c) ∧ t.load c.toNat = .ok (pat.length : ℤ)

/-- The alignments between a mismatch and the one its text character moves on to hold no
occurrence. -/
def SkipsNothing (pat : Mem) (t : Table alphabetLen) : Prop :=
  ∀ (str : Mem) (a j : ℕ) (c : UInt8) (v : ℤ), j < pat.length → str[a + j]? = some c →
    pat[j]? ≠ some c → t.load c.toNat = .ok v →
    ∀ o : ℕ, a < o → (o : ℤ) + (pat.length - 1) < a + j + v → ¬ OccursAt pat str o

theorem ExactDistances.skipsNothing {pat : Mem} {t : Table alphabetLen}
    (h : ExactDistances pat t) : SkipsNothing pat t := by
  intro str a j c v hj hc _ hload o hao hov
  rcases h c with ⟨q₀, hq₀, -, hlast, hentry⟩ | ⟨hnone, hentry⟩
  · rw [hload] at hentry
    obtain rfl := Except.ok.inj hentry
    exact skip_char (v := pat.length - 1 - q₀) hj hc (by omega)
      (fun q hq hlt => hlast q (by omega) hq) o hao (by omega)
  · rw [hload] at hentry
    obtain rfl := Except.ok.inj hentry
    exact skip_char (v := pat.length) hj hc (le_refl _) (fun q hq _ => hnone q hq) o hao (by omega)

/-- The distances fit in an `int` when the length does, or when no character is missing from the
end of the pattern. -/
def DistancesFit (pat : Mem) : Prop :=
  pat.length ≤ intMax ∨
    ∀ c : UInt8, ∃ q : ℕ, q + 1 < pat.length ∧ pat.length - 1 - q ≤ intMax ∧ pat[q]? = some c

theorem DistancesFit.le {pat : Mem} (h : DistancesFit pat) {c : UInt8} {w : ℕ}
    (hw : CharDistance pat (pat.length - 1) c w) : w ≤ intMax := by
  rcases h with hlen | hall
  · exact le_trans hw.le hlen
  · obtain ⟨q, hq, hfits, hqc⟩ := hall c
    by_contra hlt
    exact hw.nearer q hq (by omega) hqc

/-- The table is exact precisely when the distances fit. -/
theorem exactDistances_iff {pat : Mem} {t : Table alphabetLen} (hpos : 1 ≤ pat.length)
    (h : ∀ c : UInt8, ∃ w : ℕ, t.load c.toNat = .ok (toInt w) ∧
      CharDistance pat (pat.length - 1) c w) : ExactDistances pat t ↔ DistancesFit pat := by
  constructor
  · intro hexact
    by_cases hlen : pat.length ≤ intMax
    · exact Or.inl hlen
    · refine Or.inr fun c => ?_
      obtain ⟨w, hload, -⟩ := h c
      have hle := toInt_le w
      rcases hexact c with ⟨q, hq, hqc, -, hentry⟩ | ⟨-, hentry⟩
      · rw [hload] at hentry
        have hv := Except.ok.inj hentry
        exact ⟨q, hq, by omega, hqc⟩
      · rw [hload] at hentry
        have hv := Except.ok.inj hentry
        omega
  · intro hfits c
    obtain ⟨w, hload, hw⟩ := h c
    rw [toInt_of_range (by omega) (by exact_mod_cast hfits.le hw)] at hload
    rcases hw with ⟨q, hq, hqc, hlast, rfl⟩ | ⟨hnone, rfl⟩
    · refine Or.inl ⟨q, by omega, hqc, fun q' hqq hq' => hlast q' hqq (by omega), ?_⟩
      rw [hload]
      congr 1
      omega
    · exact Or.inr ⟨fun q hq => hnone q (by omega), hload⟩

/-- The table is built, from reads inside the pattern, with every entry exact and no occurrence
skipped, exactly when the pattern has at least one and at most `2 ^ 32` bytes and its distances
fit in an `int`. -/
theorem bmMakeDelta1_iff (pat : Mem) (delta1 : Table alphabetLen)
    (hsize : pat.length < 18446744073709551616) :
    (∃ fuel t, bmMakeDelta1 fuel delta1 pat pat.length = .ok t ∧ ExactDistances pat t ∧
      SkipsNothing pat t) ↔
      1 ≤ pat.length ∧ pat.length ≤ 4294967296 ∧
        (pat.length ≤ intMax ∨ ∀ c : UInt8, ∃ q : ℕ, q + 1 < pat.length ∧
          pat.length - 1 - q ≤ intMax ∧ pat[q]? = some c) := by
  constructor
  · intro h
    obtain ⟨fuel, t, hrun, hexact, -⟩ := h
    have hpos : 1 ≤ pat.length := by
      by_contra hempty
      obtain rfl : pat = [] := List.length_eq_zero_iff.mp (by omega)
      exact bmMakeDelta1_empty fuel delta1 t hrun
    have hlen : pat.length ≤ 4294967296 := by
      by_contra hlong
      exact bmMakeDelta1_endless (by omega) hsize fuel delta1 t hrun
    obtain ⟨t', hrun', hentries⟩ := bmMakeDelta1_distances delta1 hpos hlen
      (le_max_right fuel pat.length)
    obtain rfl := bmMakeDelta1_unique (le_max_left _ _) hrun hrun'
    exact ⟨hpos, hlen, (exactDistances_iff hpos hentries).mp hexact⟩
  · intro h
    obtain ⟨hpos, hlen, hfits⟩ := h
    obtain ⟨t, hrun, hentries⟩ := bmMakeDelta1_distances delta1 hpos hlen (le_refl _)
    have hexact := (exactDistances_iff hpos hentries).mpr hfits
    exact ⟨_, t, hrun, hexact, hexact.skipsNothing⟩

/-- A pattern with a byte that is negative as a `char`, twice. -/
theorem bmMakeDelta1_iff_four : ∃ fuel t,
    bmMakeDelta1 fuel (Vector.replicate _ 0) [0x80, 0xff, 0x80, 0x7a] 4 = .ok t ∧
      ExactDistances [0x80, 0xff, 0x80, 0x7a] t := by
  obtain ⟨fuel, t, hrun, hexact, -⟩ := (bmMakeDelta1_iff [0x80, 0xff, 0x80, 0x7a]
    (Vector.replicate _ 0) (by decide)).mpr ⟨by decide, by decide, Or.inl (by decide)⟩
  exact ⟨fuel, t, hrun, hexact⟩

/-- For the empty pattern, which `bm_search` has a case for, no table is ever built. -/
theorem bmMakeDelta1_no_table :
    ¬ ∃ fuel t, bmMakeDelta1 fuel (Vector.replicate _ 0) [] 0 = .ok t := by
  intro h
  obtain ⟨fuel, t, hrun⟩ := h
  exact bmMakeDelta1_empty fuel _ t hrun

end MeizuSm8150.Recovery
