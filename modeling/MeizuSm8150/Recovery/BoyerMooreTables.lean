import MeizuSm8150.Recovery.BoyerMoore
import MeizuSm8150.Lib.Matching

/-!
# What the two shift tables hold

Both table builders run without leaving their objects on every nonempty pattern whose length
fits the `int` loop counters, and each entry is described by the pattern alone:

* `CharDistance`: the distance from the end to the last earlier occurrence of a character, which
  `Delta1Entry` is as an `int`;
* `LastPrefix`: what the first loop of `bm_make_delta2` keeps in `last_prefix`, one past the
  leftmost border at or behind the current position;
* `Delta2Entry`: the least good shift, or the first loop's value where there is none.
-/

namespace MeizuSm8150.Recovery

open CMachine CString Matching

/-! ## `delta1` -/

/-- How far the last `c` among the positions before `m` is from the end, or the length of the
pattern if there is none. -/
def CharDistance (pat : Mem) (m : ℕ) (c : UInt8) (w : ℕ) : Prop :=
  (∃ q, q < m ∧ pat[q]? = some c ∧ (∀ q', q < q' → q' < m → pat[q']? ≠ some c) ∧
    w = pat.length - 1 - q) ∨
  ((∀ q, q < m → pat[q]? ≠ some c) ∧ w = pat.length)

/-- Entering position `m` gives its character a new distance and keeps the others. -/
theorem CharDistance.step {pat : Mem} {m w : ℕ} {c b : UInt8} (hb : pat[m]? = some b)
    (h : CharDistance pat m c w) :
    CharDistance pat (m + 1) c (if c = b then pat.length - 1 - m else w) := by
  by_cases hcb : c = b
  · rw [if_pos hcb]
    exact Or.inl ⟨m, by omega, by rw [hb, hcb], fun q' hq hq' => by omega, rfl⟩
  · rw [if_neg hcb]
    -- the new position holds another character
    have hm : ∀ q, q < m + 1 → ¬ q < m → pat[q]? ≠ some c := by
      intro q hq hqm
      obtain rfl : q = m := by omega
      rw [hb]
      exact fun heq => hcb (Option.some.inj heq).symm
    rcases h with ⟨q, hq, hqc, hlast, hw⟩ | ⟨hnone, hw⟩
    · refine Or.inl ⟨q, by omega, hqc, fun q' hqq hq' => ?_, hw⟩
      by_cases hlt : q' < m
      · exact hlast q' hqq hlt
      · exact hm q' hq' hlt
    · refine Or.inr ⟨fun q hq => ?_, hw⟩
      by_cases hlt : q < m
      · exact hnone q hlt
      · exact hm q hq hlt

theorem CharDistance.le {pat : Mem} {m w : ℕ} {c : UInt8} (h : CharDistance pat m c w) :
    w ≤ pat.length := by
  rcases h with ⟨q, -, -, -, hw⟩ | ⟨-, hw⟩ <;> omega

/-- No `c` is nearer to the end than the distance says. -/
theorem CharDistance.nearer {pat : Mem} {w : ℕ} {c : UInt8}
    (h : CharDistance pat (pat.length - 1) c w) :
    ∀ q, q + 1 < pat.length → pat.length < q + 1 + w → pat[q]? ≠ some c := by
  intro q hq hlt
  rcases h with ⟨q₀, -, -, hlast, hw⟩ | ⟨hnone, -⟩
  · exact hlast q (by omega) (by omega)
  · exact hnone q (by omega)

/-- The value `delta1` holds for the character `c` once the positions before `m` have been
entered. -/
def Delta1Entry (pat : Mem) (m : ℕ) (c : UInt8) (v : ℤ) : Prop :=
  (∃ q, q < m ∧ pat[q]? = some c ∧ (∀ q', q < q' → q' < m → pat[q']? ≠ some c) ∧
    v = (pat.length : ℤ) - 1 - q) ∨
  ((∀ q, q < m → pat[q]? ≠ some c) ∧ v = toInt pat.length)

/-- Every distance but the length itself fits in an `int`. -/
theorem CharDistance.delta1Entry {pat : Mem} {w : ℕ} {c : UInt8}
    (hlen : pat.length ≤ intMax + 1) (h : CharDistance pat (pat.length - 1) c w) :
    Delta1Entry pat (pat.length - 1) c (toInt w) := by
  rcases h with ⟨q, hq, hqc, hlast, hw⟩ | ⟨hnone, hw⟩
  · refine Or.inl ⟨q, hq, hqc, hlast, ?_⟩
    rw [toInt_of_range (by omega) (by omega)]
    omega
  · exact Or.inr ⟨hnone, by rw [hw]⟩

theorem Delta1Entry.le {pat : Mem} {m : ℕ} {c : UInt8} {v : ℤ} (hlen : pat.length ≤ intMax)
    (h : Delta1Entry pat m c v) : v ≤ pat.length := by
  rcases h with ⟨q, hq, -, -, hv⟩ | ⟨-, hv⟩
  · omega
  · have := toInt_of_range (show -2147483648 ≤ (pat.length : ℤ) by omega) (by omega)
    omega

/-- The finished entry of `c` measures back to the last `c` in front of the end. -/
theorem Delta1Entry.last {pat : Mem} {c : UInt8} {v : ℤ} (hlen : pat.length ≤ intMax)
    (h : Delta1Entry pat (pat.length - 1) c v) :
    ∃ w : ℕ, v = w ∧ w ≤ pat.length ∧
      ∀ q, q + 1 < pat.length → pat.length < q + 1 + w → pat[q]? ≠ some c := by
  rcases h with ⟨q₀, hq₀, -, hlast, hv⟩ | ⟨hnone, hv⟩
  · exact ⟨pat.length - 1 - q₀, by omega, by omega, fun q hq hlt => hlast q (by omega) (by omega)⟩
  · rw [toInt_of_range (by omega) (by omega)] at hv
    exact ⟨pat.length, hv, le_refl _, fun q hq _ => hnone q (by omega)⟩

/-- The first loop: `pat_len` for every character. -/
private theorem fillDelta1 (pat : Mem) (delta1 : Table alphabetLen) :
    ∃ t, forUp (fun i (t : Table alphabetLen) => t.store i (toInt pat.length)) alphabetLen delta1
        = .ok t ∧
      ∀ c : UInt8, t.load c.toNat = .ok (toInt pat.length) := by
  have hstep : ∀ k (t : Table alphabetLen), k < alphabetLen →
      (∀ i, i < k → t.load (i : ℕ) = .ok (toInt pat.length)) →
      ∃ t', t.store k (toInt pat.length) = .ok t' ∧
        ∀ i, i < k + 1 → t'.load (i : ℕ) = .ok (toInt pat.length) := by
    intro k t hk hI
    rcases t.store_lt hk (toInt pat.length) with ⟨t', hrun, hload⟩
    refine ⟨t', hrun, fun i hi => ?_⟩
    rw [hload]
    by_cases hik : i = k
    · rw [if_pos (by omega)]
    · rw [if_neg (by omega), hI i (by omega)]
  obtain ⟨t, hrun, hI⟩ := forUp_ok
    (fun k (t : Table alphabetLen) => ∀ i, i < k → t.load (i : ℕ) = .ok (toInt pat.length))
    (fun i hi => by omega) hstep
  exact ⟨t, hrun, fun c => hI c.toNat c.toNat_lt⟩

/-- `bm_make_delta1` runs inside its objects as long as its counter reaches the end, and enters
every distance, cut to an `int`. -/
theorem bmMakeDelta1_distances {pat : Mem} {fuel : ℕ} (delta1 : Table alphabetLen)
    (hpos : 1 ≤ pat.length) (hlen : pat.length ≤ 4294967296) (hfuel : pat.length ≤ fuel) :
    ∃ t : Table alphabetLen, bmMakeDelta1 fuel delta1 pat pat.length = .ok t ∧
      ∀ c : UInt8, ∃ w : ℕ, t.load c.toNat = .ok (toInt w) ∧
        CharDistance pat (pat.length - 1) c w := by
  rcases fillDelta1 pat delta1 with ⟨t₁, hrun₁, hfill⟩
  -- the invariant of the second loop: every entry speaks of the positions before the counter
  have hstep : ∀ s : ℕ × Table alphabetLen, (s.1 ≤ pat.length - 1 ∧
      ∀ c : UInt8, ∃ w : ℕ, s.2.load c.toNat = .ok (toInt w) ∧ CharDistance pat s.1 c w) →
      (∃ s', bmMakeDelta1Step pat pat.length s = .ok (.next s') ∧ (s'.1 ≤ pat.length - 1 ∧
        ∀ c : UInt8, ∃ w : ℕ, s'.2.load c.toNat = .ok (toInt w) ∧ CharDistance pat s'.1 c w) ∧
        pat.length - 1 - s'.1 < pat.length - 1 - s.1) ∨
      ∃ t, bmMakeDelta1Step pat pat.length s = .ok (.done t) ∧
        ∀ c : UInt8, ∃ w : ℕ, t.load c.toNat = .ok (toInt w) ∧
          CharDistance pat (pat.length - 1) c w := by
    intro s hs
    rcases s with ⟨i, t⟩
    rcases hs with ⟨hi, hI⟩
    dsimp only at hi hI
    have hbound : toSize ((pat.length : ℤ) - 1) = pat.length - 1 := by
      unfold toSize
      omega
    by_cases hlt : i < pat.length - 1
    · have hget := List.getElem?_eq_getElem (show i < pat.length by omega)
      have hdist : toInt (toSize ((pat.length : ℤ) - 1 - i))
          = toInt ((pat.length - 1 - i : ℕ) : ℤ) := by
        rw [toInt_toSize, show (pat.length : ℤ) - 1 - i = ((pat.length - 1 - i : ℕ) : ℤ) by omega]
      obtain ⟨t', hstore, hload⟩ := t.store_lt
        (show (pat[i]).toNat < alphabetLen from (pat[i]).toNat_lt)
        (toInt ((pat.length - 1 - i : ℕ) : ℤ))
      have hcount : toU32 ((i : ℤ) + 1) = i + 1 := by
        unfold toU32
        omega
      refine Or.inl ⟨(i + 1, t'), ?_, ⟨by dsimp only; omega, fun c => ?_⟩, by dsimp only; omega⟩
      · rw [bmMakeDelta1Step, hbound, if_pos hlt, Mem.read_some hget rfl, ok_bind, hdist, hstore,
          ok_bind, hcount]
        rfl
      · rcases hI c with ⟨w, hw, hentry⟩
        refine ⟨_, ?_, hentry.step hget⟩
        rw [hload, hw]
        -- characters share an entry of the table only when they are equal
        by_cases hc : c = pat[i]
        · rw [if_pos (by rw [hc]), if_pos hc]
        · rw [if_neg (fun h => hc (UInt8.toNat_inj.mp (by omega))), if_neg hc]
    · obtain rfl : i = pat.length - 1 := by omega
      refine Or.inr ⟨t, ?_, hI⟩
      rw [bmMakeDelta1Step, hbound, if_neg (by omega)]
      rfl
  have hinit : ∀ c : UInt8, ∃ w : ℕ, t₁.load c.toNat = .ok (toInt w) ∧ CharDistance pat 0 c w :=
    fun c => ⟨_, hfill c, Or.inr ⟨fun q hq => by omega, rfl⟩⟩
  obtain ⟨t, hrun, hI⟩ := iterate_total _ (fun s => pat.length - 1 - s.1) _ hstep fuel (0, t₁)
    ⟨by omega, hinit⟩ (by dsimp only; omega)
  exact ⟨t, by rw [bmMakeDelta1, hrun₁, ok_bind, hrun], hI⟩

/-- `bm_make_delta1` runs inside its objects and fills in every character. -/
theorem bmMakeDelta1_spec {pat : Mem} {fuel : ℕ} (delta1 : Table alphabetLen)
    (hpos : 1 ≤ pat.length) (hlen : pat.length ≤ intMax + 1) (hfuel : pat.length ≤ fuel) :
    ∃ t : Table alphabetLen, bmMakeDelta1 fuel delta1 pat pat.length = .ok t ∧
      ∀ c : UInt8, ∃ v, t.load c.toNat = .ok v ∧ Delta1Entry pat (pat.length - 1) c v := by
  have hlen' : pat.length ≤ 4294967296 := by
    simp only [intMax] at hlen
    omega
  obtain ⟨t, hrun, hentries⟩ := bmMakeDelta1_distances delta1 hpos hlen' hfuel
  refine ⟨t, hrun, fun c => ?_⟩
  obtain ⟨w, hload, hw⟩ := hentries c
  exact ⟨_, hload, hw.delta1Entry hlen⟩

/-! ## `max_suffix_len` -/

/-- The suffix that ends at `p` re-occurs there as far as `l` characters, and either the
characters in front differ or the start of the pattern is reached. -/
structure SuffixLen (pat : Mem) (p l : ℕ) : Prop where
  le : l ≤ p
  agree : ∀ t, t < l → pat[p - t]? = pat[pat.length - 1 - t]?
  stop : l = p ∨ pat[p - l]? ≠ pat[pat.length - 1 - l]?

theorem maxSuffixLen_spec {pat : Mem} {p : ℕ} (hp : p + 1 < pat.length)
    (hlen : pat.length ≤ intMax + 1) :
    ∃ l : ℕ, maxSuffixLen pat pat.length p = .ok (l : ℤ) ∧ SuffixLen pat p l := by
  simp only [intMax] at hlen
  -- the invariant: the last `i` characters re-occur in front of `p`
  have hstep : ∀ i, (i ≤ p ∧ ∀ t, t < i → pat[p - t]? = pat[pat.length - 1 - t]?) →
      (∃ i', maxSuffixLenStep pat pat.length p i = .ok (.next i') ∧
        (i' ≤ p ∧ ∀ t, t < i' → pat[p - t]? = pat[pat.length - 1 - t]?) ∧ p - i' < p - i) ∨
      ∃ l, maxSuffixLenStep pat pat.length p i = .ok (.done l) ∧ SuffixLen pat p l := by
    intro i hi
    rcases hi with ⟨hip, hI⟩
    have ha := List.getElem?_eq_getElem (show p - i < pat.length by omega)
    have hb := List.getElem?_eq_getElem (show pat.length - 1 - i < pat.length by omega)
    have hrun : maxSuffixLenStep pat pat.length p i
        = .ok (if pat[p - i] = pat[pat.length - 1 - i] ∧ i < p then .next (i + 1)
            else .done i) := by
      rw [maxSuffixLenStep, Mem.read_some ha (by omega), ok_bind, Mem.read_some hb (by omega),
        ok_bind]
      split <;> rfl
    rw [hrun]
    by_cases hgo : pat[p - i] = pat[pat.length - 1 - i] ∧ i < p
    · rw [if_pos hgo]
      refine Or.inl ⟨i + 1, rfl, ⟨by omega, fun t ht => ?_⟩, by omega⟩
      rcases Nat.lt_succ_iff_lt_or_eq.mp ht with hlt | rfl
      · exact hI t hlt
      · rw [ha, hb, hgo.1]
    · rw [if_neg hgo]
      refine Or.inr ⟨i, rfl, hip, hI, ?_⟩
      by_cases heq : i = p
      · exact Or.inl heq
      · refine Or.inr fun h => hgo ⟨?_, by omega⟩
        rw [ha, hb] at h
        exact Option.some.inj h
  obtain ⟨l, hrun, hl⟩ := iterate_total _ (fun i => p - i) _ hstep (p + 1) 0
    ⟨by omega, fun t ht => by omega⟩ (by omega)
  refine ⟨l, ?_, hl⟩
  have hle := hl.le
  rw [maxSuffixLen, hrun, ok_bind, toInt_of_range (by omega) (by simp only [intMax]; omega)]
  rfl

/-- Where the characters in front differ, the shift that brings the end of the pattern to
`p` is good for the position in front of the suffix. -/
theorem SuffixLen.goodShift {pat : Mem} {p l : ℕ} (h : SuffixLen pat p l)
    (hp : p + 1 < pat.length) (hne : pat[p - l]? ≠ pat[pat.length - 1 - l]?) :
    GoodShift pat (pat.length - 1 - l) (pat.length - 1 - p) := by
  have hle := h.le
  refine ⟨by omega, by omega, fun x hx hxn => ?_, ?_⟩
  · have ht := h.agree (pat.length - 1 - x) (by omega)
    rw [show pat.length - 1 - (pat.length - 1 - x) = x by omega] at ht
    rw [← ht]
    congr 1
    omega
  · rw [show pat.length - 1 - l - (pat.length - 1 - p) = p - l by omega]
    exact hne

/-- That shift is good for no other position. -/
theorem SuffixLen.eq_of_goodShift {pat : Mem} {p l j : ℕ} (h : SuffixLen pat p l)
    (hp : p + 1 < pat.length) (hj : j < pat.length)
    (hg : GoodShift pat j (pat.length - 1 - p)) :
    j = pat.length - 1 - l ∧ pat[p - l]? ≠ pat[pat.length - 1 - l]? := by
  have hle := h.le
  have hsj := hg.le
  rcases Nat.lt_trichotomy j (pat.length - 1 - l) with hlt | heq | hgt
  · -- a longer suffix would re-occur at `p`
    have hx := hg.suffix (pat.length - 1 - l) hlt (by omega)
    rw [show pat.length - 1 - l - (pat.length - 1 - p) = p - l by omega] at hx
    rcases h.stop with hstop | hstop
    · omega
    · exact absurd hx hstop
  · refine ⟨heq, ?_⟩
    have hd := hg.differ
    rwa [heq, show pat.length - 1 - l - (pat.length - 1 - p) = p - l by omega] at hd
  · -- the characters at `j` agree
    have ht := h.agree (pat.length - 1 - j) (by omega)
    rw [show pat.length - 1 - (pat.length - 1 - j) = j by omega,
      show p - (pat.length - 1 - j) = j - (pat.length - 1 - p) by omega] at ht
    exact absurd ht hg.differ

/-! ## First loop of `bm_make_delta2` -/

/-- What `strncmp(pat + p, pat, pat_len - p) == 0` says. -/
def PrefixEq (pat : Mem) (p : ℕ) : Prop := EqUpTo pat p pat 0 (pat.length - p)

/-- Without a NUL in the pattern the comparison goes to its end. -/
theorem prefixEq_iff_borderAt {pat : Mem} (h : 0 ∉ pat) (p : ℕ) :
    PrefixEq pat p ↔ BorderAt pat p := by
  constructor
  · intro heq k hk
    have hget := heq k (by omega) fun s _ h0 => h (List.mem_of_getElem? h0)
    rwa [Nat.zero_add] at hget
  · intro hb t ht _
    rw [Nat.zero_add]
    exact hb t (by omega)

/-- The value of `last_prefix` once the positions from `j` on have been compared. -/
def LastPrefix (pat : Mem) (j : ℕ) (l : ℕ) : Prop :=
  (∃ p, j ≤ p ∧ p < pat.length ∧ PrefixEq pat p ∧
    (∀ p', j ≤ p' → p' < p → ¬ PrefixEq pat p') ∧ l = p + 1) ∨
  ((∀ p, j ≤ p → p < pat.length → ¬ PrefixEq pat p) ∧ l = pat.length - 1)

theorem LastPrefix.le {pat : Mem} {j l : ℕ} (h : LastPrefix pat j l) : l ≤ pat.length := by
  rcases h with ⟨p, -, hp, -, -, hl⟩ | ⟨-, hl⟩ <;> omega

/-- The whole pattern is a prefix of itself, so the value is never `0`. -/
theorem LastPrefix.pos {pat : Mem} {j l : ℕ} (hj : j < pat.length) (h : LastPrefix pat j l) :
    1 ≤ l := by
  rcases h with ⟨p, -, -, -, -, hl⟩ | ⟨hnone, hl⟩
  · omega
  · by_cases hj0 : j = 0
    · exact absurd (fun t _ _ => by rw [Nat.zero_add]) (hnone 0 (by omega) (by omega))
    · omega

theorem LastPrefix.step_eq {pat : Mem} {j : ℕ} (hj : j < pat.length) (h : PrefixEq pat j) :
    LastPrefix pat j (j + 1) :=
  Or.inl ⟨j, le_refl j, hj, h, fun p' h1 h2 => by omega, rfl⟩

theorem LastPrefix.step_ne {pat : Mem} {j l : ℕ} (h : ¬ PrefixEq pat j)
    (hl : LastPrefix pat (j + 1) l) : LastPrefix pat j l := by
  have hne : ∀ p, j ≤ p → ¬ j + 1 ≤ p → ¬ PrefixEq pat p := by
    intro p hjp hp
    obtain rfl : p = j := by omega
    exact h
  rcases hl with ⟨p, hjp, hp, heq, hmin, hl⟩ | ⟨hnone, hl⟩
  · refine Or.inl ⟨p, by omega, hp, heq, fun p' hjp' hp' => ?_, hl⟩
    by_cases hle : j + 1 ≤ p'
    · exact hmin p' hle hp'
    · exact hne p' hjp' hle
  · refine Or.inr ⟨fun p hjp hp => ?_, hl⟩
    by_cases hle : j + 1 ≤ p
    · exact hnone p hle hp
    · exact hne p hjp hle

/-- The entry the first loop leaves at `j`. -/
def PrefixEntry (pat : Mem) (j : ℕ) (v : ℤ) : Prop :=
  ∃ l : ℕ, LastPrefix pat j l ∧ v = toInt ((l : ℤ) + (pat.length - 1 - j))

/-- The first loop fills the whole table. -/
theorem bmMakeDelta2Prefix_spec {pat : Mem} (delta2 : Table pat.length)
    (hlen : pat.length ≤ intMax + 1) :
    ∃ s : ℕ × Table pat.length,
      forDown (bmMakeDelta2Prefix pat pat.length) pat.length (pat.length - 1, delta2) = .ok s ∧
      ∀ j, j < pat.length → ∃ v, s.2.load j = .ok v ∧ PrefixEntry pat j v := by
  simp only [intMax] at hlen
  -- the loop runs down, so its invariant speaks of the positions from the current one on
  have hstep : ∀ k (s : ℕ × Table pat.length), k < pat.length →
      (LastPrefix pat (k + 1) s.1 ∧
        ∀ j, k + 1 ≤ j → j < pat.length → ∃ v, s.2.load j = .ok v ∧ PrefixEntry pat j v) →
      ∃ s', bmMakeDelta2Prefix pat pat.length k s = .ok s' ∧ LastPrefix pat k s'.1 ∧
        ∀ j, k ≤ j → j < pat.length → ∃ v, s'.2.load j = .ok v ∧ PrefixEntry pat j v := by
    intro k s hk hs
    rcases s with ⟨lastPrefix, t⟩
    rcases hs with ⟨hlast, hI⟩
    dsimp only at hlast hI
    obtain ⟨cmp, hcmp, hcmp0⟩ : ∃ r, strncmp pat k pat 0 (pat.length - k) = .ok r ∧
        (r = 0 ↔ PrefixEq pat k) := strncmp_spec (by omega) (by omega)
    have hnew : LastPrefix pat k (if cmp = 0 then toU32 ((k : ℤ) + 1) else lastPrefix) := by
      by_cases h0 : cmp = 0
      · rw [if_pos h0, show toU32 ((k : ℤ) + 1) = k + 1 by unfold toU32; omega]
        exact LastPrefix.step_eq hk (hcmp0.mp h0)
      · rw [if_neg h0]
        exact LastPrefix.step_ne (fun h => h0 (hcmp0.mpr h)) hlast
    obtain ⟨t', hstore, hload⟩ := t.store_lt hk (toInt (toSize
      (((if cmp = 0 then toU32 ((k : ℤ) + 1) else lastPrefix : ℕ) : ℤ) + (pat.length - 1 - k))))
    refine ⟨(_, t'), ?_, hnew, fun j hkj hj => ?_⟩
    · rw [bmMakeDelta2Prefix, hcmp, ok_bind]
      dsimp only
      rw [hstore, ok_bind]
      rfl
    · dsimp only
      rw [hload]
      by_cases hjk : j = k
      · subst hjk
        rw [if_pos rfl]
        exact ⟨_, rfl, _, hnew, toInt_toSize _⟩
      · rw [if_neg (by omega)]
        exact hI j (by omega) hj
  have hinit : LastPrefix pat pat.length (pat.length - 1) :=
    Or.inr ⟨fun p hp hpn => by omega, rfl⟩
  obtain ⟨s, hrun, -, hI⟩ := @forDown_ok _
    (fun k (s : ℕ × Table pat.length) => LastPrefix pat k s.1 ∧
      ∀ j, k ≤ j → j < pat.length → ∃ v, s.2.load j = .ok v ∧ PrefixEntry pat j v)
    _ _ (pat.length - 1, delta2) ⟨hinit, fun j hj hjn => by omega⟩ hstep
  exact ⟨s, hrun, fun j hj => hI j (by omega) hj⟩

/-! ## Second loop of `bm_make_delta2` -/

/-- `s` is the least good shift at `j` among those that end the pattern before `m`. -/
structure LeastGoodShift (pat : Mem) (m j s : ℕ) : Prop where
  good : GoodShift pat j s
  before : pat.length < m + 1 + s
  least : ∀ s', GoodShift pat j s' → pat.length < m + 1 + s' → s ≤ s'

/-- The entry at `j` after the second loop has seen the positions before `m`, given the one
the first loop left. -/
def SuffixEntry (pat : Mem) (m j : ℕ) (old v : Run ℤ) : Prop :=
  (∃ s : ℕ, LeastGoodShift pat m j s ∧ v = .ok ((s : ℤ) + (pat.length - 1 - j))) ∨
  ((∀ s, GoodShift pat j s → m + 1 + s ≤ pat.length) ∧ v = old)

/-- Position `m` gives a good shift at `j`: it is less than all before. -/
theorem SuffixEntry.step_good {pat : Mem} {m j : ℕ} {old : Run ℤ} (hm : m + 1 < pat.length)
    (hg : GoodShift pat j (pat.length - 1 - m)) :
    SuffixEntry pat (m + 1) j old
      (.ok (((pat.length - 1 - m : ℕ) : ℤ) + (pat.length - 1 - j))) :=
  Or.inl ⟨_, ⟨hg, by omega, fun s' _ hs' => by omega⟩, rfl⟩

/-- Position `m` gives no good shift at `j`. -/
theorem SuffixEntry.step_none {pat : Mem} {m j : ℕ} {old v : Run ℤ} (hm : m + 1 < pat.length)
    (hg : ¬ GoodShift pat j (pat.length - 1 - m)) (h : SuffixEntry pat m j old v) :
    SuffixEntry pat (m + 1) j old v := by
  have hne : ∀ s, GoodShift pat j s → m + 1 + s ≠ pat.length := by
    intro s hs heq
    exact hg (by rwa [show pat.length - 1 - m = s by omega])
  rcases h with ⟨s, hs, hv⟩ | ⟨hnone, hv⟩
  · refine Or.inl ⟨s, ⟨hs.good, ?_, fun s' hs' hlt => ?_⟩, hv⟩
    · have := hs.before
      omega
    · have := hne s' hs'
      exact hs.least s' hs' (by omega)
  · refine Or.inr ⟨fun s hs => ?_, hv⟩
    have := hnone s hs
    have := hne s hs
    omega

/-- One pass writes the entry in front of the longest suffix that ends at its position, or
nothing where the start of the pattern stopped the comparison. -/
theorem bmMakeDelta2Suffix_eq {pat : Mem} {p : ℕ} (hp : p + 1 < pat.length)
    (hlen : pat.length ≤ intMax + 1) :
    ∃ l, SuffixLen pat p l ∧ ∀ t : Table pat.length,
      bmMakeDelta2Suffix pat pat.length p t =
        if pat[p - l]? ≠ pat[pat.length - 1 - l]? then
          t.store (pat.length - 1 - l : ℕ) ((pat.length : ℤ) - 1 - p + l)
        else .ok t := by
  rcases maxSuffixLen_spec hp hlen with ⟨l, hrun, hl⟩
  refine ⟨l, hl, fun t => ?_⟩
  have hle := hl.le
  have ha := List.getElem?_eq_getElem (show p - l < pat.length by omega)
  have hb := List.getElem?_eq_getElem (show pat.length - 1 - l < pat.length by omega)
  have hvalue : toInt (toSize ((pat.length : ℤ) - 1 - p + l)) = (pat.length : ℤ) - 1 - p + l := by
    simp only [intMax] at hlen
    rw [toInt_toSize, toInt_of_range (by omega) (by simp only [intMax]; omega)]
  have hindex : ((pat.length : ℤ) - 1 - l) = (pat.length - 1 - l : ℕ) := by omega
  rw [bmMakeDelta2Suffix, hrun, ok_bind, Mem.read_some ha (by omega), ok_bind,
    Mem.read_some hb (by omega), ok_bind, hvalue, hindex, ha, hb]
  by_cases heq : pat[p - l] = pat[pat.length - 1 - l]
  · rw [if_neg (not_not.mpr heq), if_neg (not_not.mpr (congrArg some heq))]
    rfl
  · rw [if_pos heq, if_pos (fun h => heq (Option.some.inj h))]

/-- One pass writes at most the entry its position gives a good shift for. -/
theorem bmMakeDelta2Suffix_spec {pat : Mem} {p : ℕ} (delta2 : Table pat.length)
    (hp : p + 1 < pat.length) (hlen : pat.length ≤ intMax + 1) :
    ∃ t, bmMakeDelta2Suffix pat pat.length p delta2 = .ok t ∧ ∀ j, j < pat.length →
      (GoodShift pat j (pat.length - 1 - p) →
        t.load j = .ok (((pat.length - 1 - p : ℕ) : ℤ) + (pat.length - 1 - j))) ∧
      (¬ GoodShift pat j (pat.length - 1 - p) → t.load j = delta2.load j) := by
  rcases bmMakeDelta2Suffix_eq hp hlen with ⟨l, hl, hrun⟩
  have hle := hl.le
  rw [hrun]
  by_cases hne : pat[p - l]? ≠ pat[pat.length - 1 - l]?
  · obtain ⟨t, hstore, hload⟩ := delta2.store_lt (show pat.length - 1 - l < pat.length by omega)
      ((pat.length : ℤ) - 1 - p + l)
    rw [if_pos hne]
    refine ⟨t, hstore, fun j hj => ⟨fun hg => ?_, fun hg => ?_⟩⟩
    · -- the entry written is the one this shift is good for
      have hj := (hl.eq_of_goodShift hp hj hg).1
      rw [hload, if_pos (by omega)]
      congr 1
      omega
    · rw [hload, if_neg]
      intro hj
      have hj' : j = pat.length - 1 - l := by omega
      exact hg (hj' ▸ hl.goodShift hp hne)
  · rw [if_neg hne]
    exact ⟨delta2, rfl, fun j hj =>
      ⟨fun hg => absurd (hl.eq_of_goodShift hp hj hg).2 hne, fun _ => rfl⟩⟩

/-- The second loop puts the least good shift over the first loop's value. -/
theorem bmMakeDelta2_suffixes {pat : Mem} (delta2 : Table pat.length)
    (hlen : pat.length ≤ intMax + 1) :
    ∃ t, forUp (bmMakeDelta2Suffix pat pat.length) (pat.length - 1) delta2 = .ok t ∧
      ∀ j, j < pat.length → SuffixEntry pat (pat.length - 1) j (delta2.load j) (t.load j) := by
  have hstep : ∀ m (t : Table pat.length), m < pat.length - 1 →
      (∀ j, j < pat.length → SuffixEntry pat m j (delta2.load j) (t.load j)) →
      ∃ t', bmMakeDelta2Suffix pat pat.length m t = .ok t' ∧
        ∀ j, j < pat.length → SuffixEntry pat (m + 1) j (delta2.load j) (t'.load j) := by
    intro m t hm hI
    rcases bmMakeDelta2Suffix_spec t (show m + 1 < pat.length by omega) hlen with ⟨t', hrun, hload⟩
    refine ⟨t', hrun, fun j hj => ?_⟩
    by_cases hg : GoodShift pat j (pat.length - 1 - m)
    · rw [(hload j hj).1 hg]
      exact SuffixEntry.step_good (by omega) hg
    · rw [(hload j hj).2 hg]
      exact (hI j hj).step_none (by omega) hg
  refine forUp_ok
    (fun m (t : Table pat.length) =>
      ∀ j, j < pat.length → SuffixEntry pat m j (delta2.load j) (t.load j)) ?_ hstep
  intro j hj
  refine Or.inr ⟨fun s hs => ?_, rfl⟩
  have := hs.le
  omega

/-! ## The finished table -/

/-- The entry of `delta2` for a mismatch at `j`. -/
def Delta2Entry (pat : Mem) (j : ℕ) (v : ℤ) : Prop :=
  (∃ s : ℕ, GoodShift pat j s ∧ (∀ s', s' < s → ¬ GoodShift pat j s') ∧
    v = (s : ℤ) + (pat.length - 1 - j)) ∨
  ((∀ s, ¬ GoodShift pat j s) ∧ PrefixEntry pat j v)

/-- Up to this length the `int` counters of the two loops go over the whole pattern. -/
theorem bmMakeDelta2_loops {pat : Mem} (delta2 : Table pat.length) (hpos : 1 ≤ pat.length)
    (hlen : pat.length ≤ intMax + 1) :
    bmMakeDelta2 delta2 pat pat.length = (do
      let (_, t) ← forDown (bmMakeDelta2Prefix pat pat.length) pat.length
        (pat.length - 1, delta2)
      forUp (bmMakeDelta2Suffix pat pat.length) (pat.length - 1) t) := by
  simp only [intMax] at hlen
  have hp : (toInt (toSize ((pat.length : ℤ) - 1)) + 1).toNat = pat.length := by
    rw [toInt_toSize, toInt_of_range (by omega) (by simp only [intMax]; omega)]
    omega
  have hlast : toU32 (toSize ((pat.length : ℤ) - 1)) = pat.length - 1 := by
    unfold toU32 toSize
    omega
  -- `(int) pat_len - 1` is right for the largest length too, where both operations wrap
  have hbound : (toInt (toInt pat.length - 1)).toNat = pat.length - 1 := by
    unfold toInt
    omega
  rw [bmMakeDelta2]
  dsimp only
  rw [hp, hlast, hbound]

/-- `bm_make_delta2` runs inside its objects and fills in every position. -/
theorem bmMakeDelta2_spec {pat : Mem} (delta2 : Table pat.length) (hpos : 1 ≤ pat.length)
    (hlen : pat.length ≤ intMax + 1) :
    ∃ t : Table pat.length, bmMakeDelta2 delta2 pat pat.length = .ok t ∧
      ∀ j, j < pat.length → ∃ v, t.load j = .ok v ∧ Delta2Entry pat j v := by
  rcases bmMakeDelta2Prefix_spec delta2 hlen with ⟨⟨l, t₁⟩, hrun₁, hI₁⟩
  rcases bmMakeDelta2_suffixes t₁ hlen with ⟨t₂, hrun₂, hI₂⟩
  refine ⟨t₂, ?_, fun j hj => ?_⟩
  · rw [bmMakeDelta2_loops delta2 hpos hlen, hrun₁, ok_bind]
    exact hrun₂
  · rcases hI₁ j hj with ⟨v, hv, hentry⟩
    -- every shift was seen by the second loop, so least among those seen is least
    rcases hI₂ j hj with ⟨s, hs, hload⟩ | ⟨hnone, hload⟩
    · refine ⟨_, hload, Or.inl ⟨s, hs.good, fun s' hlt hg => ?_, rfl⟩⟩
      have := hg.pos
      have := hs.least s' hg (by omega)
      omega
    · refine ⟨v, by rw [hload, hv], Or.inr ⟨fun s hg => ?_, hentry⟩⟩
      have := hg.pos
      have := hnone s hg
      omega

/-! ## Bounds -/

/-- A mismatch at `j` moves the alignment on by at least one and at most its length. -/
theorem Delta2Entry.bounds {pat : Mem} {j : ℕ} {v : ℤ} (hj : j < pat.length)
    (hlen : 2 * pat.length ≤ intMax + 1) (h : Delta2Entry pat j v) :
    (pat.length : ℤ) - j ≤ v ∧ v ≤ pat.length + (pat.length - 1 - j) := by
  simp only [intMax] at hlen
  rcases h with ⟨s, hs, -, hv⟩ | ⟨-, l, hl, hv⟩
  · have := hs.pos
    have := hs.le
    omega
  · have := hl.pos hj
    have := hl.le
    rw [toInt_of_range (by omega) (by simp only [intMax]; omega)] at hv
    omega

end MeizuSm8150.Recovery
