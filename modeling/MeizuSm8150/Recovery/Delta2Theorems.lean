import MeizuSm8150.Recovery.BoyerMooreTables

/-!
# The good-suffix table

The second loop of `bm_make_delta2` sees every place the end of the pattern re-occurs behind a
different byte, from left to right. A later place is a smaller shift, so the last write of an
entry is the largest place for it. The counters of both loops are `int`, so a pattern longer
than an `int` is not looked at.
-/

namespace MeizuSm8150.Recovery

open CMachine CString Matching

/-! ## Re-occurrences of the end of the pattern -/

/-- The last `k` bytes of the pattern end at `p` too, behind a different byte. -/
structure Reoccurs (pat : Mem) (k p : ℕ) : Prop where
  le : k ≤ p
  lt : p + 1 < pat.length
  slice : (pat.drop (p + 1 - k)).take k = pat.drop (pat.length - k)
  differ : pat[p - k]? ≠ pat[pat.length - 1 - k]?

instance (pat : Mem) (k p : ℕ) : Decidable (Reoccurs pat k p) :=
  decidable_of_iff
    (k ≤ p ∧ p + 1 < pat.length ∧ (pat.drop (p + 1 - k)).take k = pat.drop (pat.length - k) ∧
      pat[p - k]? ≠ pat[pat.length - 1 - k]?)
    ⟨fun h => ⟨h.1, h.2.1, h.2.2.1, h.2.2.2⟩, fun h => ⟨h.le, h.lt, h.slice, h.differ⟩⟩

/-- A re-occurrence that ends at `p` is a shift that is good for the position in front. -/
theorem reoccurs_iff_goodShift {pat : Mem} {j k p : ℕ} (hk : j + k + 1 = pat.length)
    (hp : p + 1 < pat.length) : Reoccurs pat k p ↔ GoodShift pat j (pat.length - 1 - p) := by
  constructor
  · intro h
    have hkp := h.le
    refine ⟨by omega, by omega, fun x hx hxn => ?_, ?_⟩
    · have hget : ((pat.drop (p + 1 - k)).take k)[x - (pat.length - k)]?
          = (pat.drop (pat.length - k))[x - (pat.length - k)]? := by rw [h.slice]
      rw [List.getElem?_take, if_pos (by omega), List.getElem?_drop, List.getElem?_drop,
        show p + 1 - k + (x - (pat.length - k)) = x - (pat.length - 1 - p) by omega,
        show pat.length - k + (x - (pat.length - k)) = x by omega] at hget
      exact hget
    · have hdiffer := h.differ
      rwa [show pat.length - 1 - k = j by omega,
        show p - k = j - (pat.length - 1 - p) by omega] at hdiffer
  · intro h
    have hsj := h.le
    refine ⟨by omega, hp, ?_, ?_⟩
    · ext1 i
      rw [List.getElem?_take, List.getElem?_drop, List.getElem?_drop]
      by_cases hi : i < k
      · have hget := h.suffix (pat.length - k + i) (by omega) (by omega)
        rw [if_pos hi, ← hget]
        congr 1
        omega
      · rw [if_neg hi, List.getElem?_eq_none (by omega)]
    · have hdiffer := h.differ
      rwa [show j = pat.length - 1 - k by omega,
        show pat.length - 1 - k - (pat.length - 1 - p) = p - k by omega] at hdiffer

/-- The least good shift is the largest re-occurrence. -/
theorem LeastGoodShift.largest {pat : Mem} {j k s : ℕ} (hk : j + k + 1 = pat.length)
    (h : LeastGoodShift pat (pat.length - 1) j s) :
    Reoccurs pat k (pat.length - 1 - s) ∧ ∀ p, Reoccurs pat k p → p ≤ pat.length - 1 - s := by
  have hpos := h.good.pos
  have hsj := h.good.le
  constructor
  · rw [reoccurs_iff_goodShift hk (by omega),
      show pat.length - 1 - (pat.length - 1 - s) = s by omega]
    exact h.good
  · intro p hp
    have hlt := hp.lt
    have hle := h.least _ ((reoccurs_iff_goodShift hk hlt).mp hp) (by omega)
    omega

/-! ## The second loop -/

/-- A pass leaves every table alone or writes one entry other than the first. -/
theorem bmMakeDelta2Suffix_writes {pat : Mem} {p : ℕ} (hp : p + 1 < pat.length)
    (hlen : pat.length ≤ intMax + 1) :
    (∀ t : Table pat.length, bmMakeDelta2Suffix pat pat.length p t = .ok t) ∨
      ∃ (i : ℕ) (v : ℤ), 1 ≤ i ∧ i ≤ pat.length - 1 ∧
        ∀ t : Table pat.length, bmMakeDelta2Suffix pat pat.length p t = t.store i v := by
  obtain ⟨l, hl, hrun⟩ := bmMakeDelta2Suffix_eq hp hlen
  have hle := hl.le
  by_cases hne : pat[p - l]? ≠ pat[pat.length - 1 - l]?
  · refine Or.inr ⟨pat.length - 1 - l, (pat.length : ℤ) - 1 - p + l, by omega, by omega,
      fun t => ?_⟩
    rw [hrun, if_pos hne]
  · refine Or.inl fun t => ?_
    rw [hrun, if_neg hne]

/-- After `bm_make_delta2` the entry at `j` is the shift to the largest re-occurrence of what
follows `j`, and the value of the first loop where there is none. The passes of the second loop
write no entry but those from 1 on, and there is no pass for a single byte. -/
theorem bmMakeDelta2_largest (pat : Mem) (delta2 : Table pat.length) (hpos : 1 ≤ pat.length)
    (hlen : pat.length ≤ intMax) :
    ∃ (lastPrefix : ℕ) (t₁ t₂ : Table pat.length),
      forDown (bmMakeDelta2Prefix pat pat.length) pat.length (pat.length - 1, delta2)
        = .ok (lastPrefix, t₁) ∧
      forUp (bmMakeDelta2Suffix pat pat.length) (pat.length - 1) t₁ = .ok t₂ ∧
      bmMakeDelta2 delta2 pat pat.length = .ok t₂ ∧
      (∀ j k : ℕ, j + k + 1 = pat.length →
        ((∃ p, Reoccurs pat k p) →
          ∃ p', Reoccurs pat k p' ∧ (∀ p, Reoccurs pat k p → p ≤ p') ∧
            t₂.load j = .ok ((pat.length : ℤ) - 1 - p' + k)) ∧
        ((∀ p, ¬ Reoccurs pat k p) → t₂.load j = t₁.load j ∧ ∃ v, t₁.load j = .ok v)) ∧
      (∀ p, p < pat.length - 1 →
        (∀ t : Table pat.length, bmMakeDelta2Suffix pat pat.length p t = .ok t) ∨
          ∃ (i : ℕ) (v : ℤ), 1 ≤ i ∧ i ≤ pat.length - 1 ∧
            ∀ t : Table pat.length, bmMakeDelta2Suffix pat pat.length p t = t.store i v) ∧
      (pat.length = 1 → t₂ = t₁) := by
  have hlen' : pat.length ≤ intMax + 1 := by omega
  obtain ⟨⟨lastPrefix, t₁⟩, hrun₁, hI₁⟩ := bmMakeDelta2Prefix_spec delta2 hlen'
  obtain ⟨t₂, hrun₂, hI₂⟩ := bmMakeDelta2_suffixes t₁ hlen'
  refine ⟨lastPrefix, t₁, t₂, hrun₁, hrun₂, ?_, ?_, ?_, ?_⟩
  · rw [bmMakeDelta2_loops delta2 hpos hlen', hrun₁, ok_bind]
    exact hrun₂
  · intro j k hk
    rcases hI₂ j (by omega) with ⟨s, hs, hload⟩ | ⟨hnone, hload⟩
    · obtain ⟨hre, hlargest⟩ := hs.largest hk
      have hsj := hs.good.le
      refine ⟨fun _ => ⟨_, hre, hlargest, ?_⟩, fun h => absurd hre (h _)⟩
      rw [hload]
      congr 1
      omega
    · refine ⟨fun h => ?_, fun _ => ⟨hload, ?_⟩⟩
      · obtain ⟨p, hp⟩ := h
        have hlt := hp.lt
        have hs := hnone _ ((reoccurs_iff_goodShift hk hlt).mp hp)
        omega
      · obtain ⟨v, hv, -⟩ := hI₁ j (by omega)
        exact ⟨v, hv⟩
  · exact fun p hp => bmMakeDelta2Suffix_writes (by omega) hlen'
  · intro hone
    rw [show pat.length - 1 = 0 by omega] at hrun₂
    exact (Except.ok.inj hrun₂).symm

/-- The end `ab` of `yabxab` re-occurs behind `y`, three bytes earlier. -/
theorem bmMakeDelta2_largest_yabxab :
    ∃ t₂ : Table 6, bmMakeDelta2 (Vector.replicate 6 0) (ascii "yabxab") 6 = .ok t₂ ∧
      t₂.load 3 = .ok 5 := by
  obtain ⟨_, _, t₂, -, -, hrun, hentries, -, -⟩ :=
    bmMakeDelta2_largest (ascii "yabxab") (Vector.replicate 6 0) (by decide) (by decide)
  obtain ⟨p', hp', -, hload⟩ := (hentries 3 2 (by decide)).1 ⟨2, by decide⟩
  have honly : ∀ p, p < 5 → Reoccurs (ascii "yabxab") 2 p → p = 2 := by decide
  obtain rfl := honly p' (Nat.lt_of_succ_lt_succ hp'.lt) hp'
  exact ⟨t₂, hrun, hload⟩

/-! ## Patterns longer than an `int` -/

/-- Up to `2 ^ 32` bytes both counters start or end below zero and no pass is made. -/
theorem bmMakeDelta2_noPasses {pat : Mem} (delta2 : Table pat.length)
    (hlong : intMax + 1 < pat.length) (hlen : pat.length ≤ 4294967296) :
    bmMakeDelta2 delta2 pat pat.length = .ok delta2 := by
  simp only [intMax] at hlong
  have hfirst : (toInt (toSize ((pat.length : ℤ) - 1)) + 1).toNat = 0 := by
    unfold toInt toSize
    omega
  have hsecond : (toInt (toInt pat.length - 1)).toNat = 0 := by
    unfold toInt
    omega
  rw [bmMakeDelta2]
  dsimp only
  rw [hfirst, hsecond]
  rfl

/-- A one and `2 ^ 31` zeros. -/
def longPattern : Mem := 1 :: List.replicate 2147483648 0

theorem longPattern_length : longPattern.length = 2147483649 := by
  rw [longPattern, List.length_cons, List.length_replicate]

theorem longPattern_succ {i : ℕ} (h : i < 2147483648) : longPattern[i + 1]? = some 0 := by
  rw [longPattern, List.getElem?_cons_succ, List.getElem?_replicate, if_pos h]

/-- The empty end of the pattern is behind a byte other than the last at the first byte only. -/
theorem reoccurs_longPattern (p : ℕ) : Reoccurs longPattern 0 p ↔ p = 0 := by
  have hlast : longPattern[longPattern.length - 1 - 0]? = some 0 := by
    rw [longPattern_length]
    exact longPattern_succ (i := 2147483647) (by omega)
  constructor
  · intro h
    by_contra hp
    have hlt := h.lt
    rw [longPattern_length] at hlt
    have hget := longPattern_succ (show p - 1 < 2147483648 by omega)
    rw [show p - 1 + 1 = p - 0 by omega] at hget
    exact h.differ (by rw [hget, hlast])
  · intro h
    subst h
    refine ⟨le_refl 0, by rw [longPattern_length]; omega, ?_, ?_⟩
    · rw [List.take_zero, Nat.sub_zero, List.drop_length]
    · rw [hlast]
      exact fun h => absurd (Option.some.inj h) (by decide)

/-- The entry of the last byte should be the length less one; the table keeps what was on the
stack. -/
theorem bmMakeDelta2_unwritten :
    ∃ t₂, bmMakeDelta2 (Vector.replicate longPattern.length 0) longPattern longPattern.length
        = .ok t₂ ∧
      Reoccurs longPattern 0 0 ∧ (∀ p, Reoccurs longPattern 0 p → p ≤ 0) ∧
      t₂.load (longPattern.length - 1) ≠ .ok ((longPattern.length : ℤ) - 1 - 0 + 0) := by
  have hlen := longPattern_length
  refine ⟨_, bmMakeDelta2_noPasses _ (by simp only [intMax]; omega) (by omega),
    (reoccurs_longPattern 0).mpr rfl, fun p hp => ((reoccurs_longPattern p).mp hp).le, ?_⟩
  rw [Table.load, dif_pos (by omega), Vector.getElem_replicate]
  intro h
  have hv := Except.ok.inj h
  omega

end MeizuSm8150.Recovery
