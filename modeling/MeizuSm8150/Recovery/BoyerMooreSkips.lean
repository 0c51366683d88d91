import MeizuSm8150.Recovery.BoyerMooreTheorems

/-!
# Which occurrences the search can lose

`bm_make_delta2` compares `pat + p` where the algorithm it follows compares `pat + p + 1`, so
`last_prefix` is one more than the border it stands for. A mismatch in front of a border, at a
position without a good shift, therefore skips the alignment of that border. The skip is
harmless in exactly two cases: all characters of the pattern are equal, so every position has a
border of its own, or no border leaves room in the text for the occurrence it would skip.

For every other pattern `overlapText` is a text on which the search loses its occurrence.
-/

namespace MeizuSm8150.Recovery

open CMachine CString Matching

/-- No skip past a border of `pat` can reach over an occurrence in `n` bytes of text. -/
def Harmless (pat : Mem) (n : ℕ) : Prop :=
  Constant pat ∨ ∀ p, 0 < p → p < pat.length → BorderAt pat p → n < pat.length + p

/-! ## Harmless skips -/

/-- The part of a skip that comes from the first loop of `bm_make_delta2`. -/
theorem LastPrefix.skip {str pat : Mem} {a j l : ℕ} (hnul : 0 ∉ pat)
    (hsafe : Harmless pat str.length) (hm : MismatchAt pat str a j)
    (hgood : ∀ s, ¬ GoodShift pat j s) (hl : LastPrefix pat j l) :
    ∀ o, a < o → o < a + l → ¬ OccursAt pat str o := by
  have hj := hm.lt
  rcases hl with ⟨p, hjp, hp, hb, hmin, rfl⟩ | ⟨hnone, rfl⟩
  · have hbefore := hm.skip_suffix (d := p) (fun s _ => hgood s) (fun s hjs hsp hbs =>
      hmin s (by omega) hsp ((prefixEq_iff_borderAt hnul s).mpr hbs))
    intro o hao hol hocc
    by_cases hop : o < a + p
    · exact hbefore o hao hop hocc
    · -- the alignment of the border itself: `last_prefix` is one past it
      obtain rfl : o = a + p := by omega
      have hfit := hocc.le_length (by omega)
      rcases hsafe with hconst | hroom
      · have hpj : ¬ j < p := fun hlt =>
          hmin j (le_refl j) hlt ((prefixEq_iff_borderAt hnul j).mpr (hconst.borderAt j))
        rcases hm.shift_cases (by omega) hocc with hg | ⟨hlt, -⟩
        · exact hgood p hg
        · exact hpj hlt
      · by_cases hp0 : p = 0
        · omega
        · have := hroom p (by omega) hp ((prefixEq_iff_borderAt hnul p).mp hb)
          omega
  · exact hm.skip_suffix (fun s _ => hgood s) fun s hjs hsn hbs =>
      hnone s (by omega) (by omega) ((prefixEq_iff_borderAt hnul s).mpr hbs)

/-- A harmless pattern loses nothing to a skip, whichever table it comes from. -/
theorem SkipBy.no_occurrence {str pat : Mem} {a j d : ℕ} (hnul : 0 ∉ pat)
    (hsafe : Harmless pat str.length) (hlen : 2 * pat.length ≤ intMax + 1)
    (h : SkipBy str pat a j d) : ∀ o, a < o → o < a + d → ¬ OccursAt pat str o := by
  have hm := h.mismatch
  have hj := hm.lt
  rcases h.entries with ⟨c, v₁, v₂, hc, hentry₁, hentry₂, hd⟩
  rcases hentry₁.last (by omega) with ⟨w, hw, hwn, hlast⟩
  intro o hao hod
  by_cases hmax : v₂ ≤ v₁
  · exact skip_char hj hc hwn hlast o hao (by omega)
  · rcases hentry₂ with ⟨s, hs, hleast, hv⟩ | ⟨hgood, l, hl, hv⟩
    · have hsj := hs.le
      exact hm.skip_suffix (d := s) hleast (fun q h1 h2 => by omega) o hao (by omega)
    · have hle := hl.le
      rw [toInt_of_range (by omega) (by omega)] at hv
      exact hl.skip hnul hsafe hm hgood o hao (by omega)

/-- With harmless skips the search is the naive scan. -/
theorem bmSearch_eq_naiveSearch {str pat : Mem} {fuel : ℕ} (locals : Locals pat.length)
    (hpos : 1 ≤ pat.length) (hnul : 0 ∉ pat) (hsafe : Harmless pat str.length)
    (hmax : str.length + pat.length - 1 ≤ intMax) (hfuel : str.length + pat.length ≤ fuel) :
    bmSearch fuel locals str str.length pat
      = .ok ((naiveSearch str pat).map (Nat.cast : ℕ → ℤ)) := by
  obtain ⟨delta1, delta2, h1, h2, ht⟩ := exists_tables locals hpos (by omega)
    (show pat.length ≤ fuel by omega)
  have hmax' : str.length + pat.length ≤ intMax + 1 := by omega
  -- the invariant: nothing to the left of the alignment
  have hstep : ∀ i : ℤ, (∃ a : ℕ, i = (a : ℤ) + pat.length - 1 ∧ a ≤ str.length ∧
        ∀ o, o < a → ¬ OccursAt pat str o) →
      (∃ i', bmSearchStep delta1 delta2 str str.length pat pat.length i = .ok (.next i') ∧
        (∃ a : ℕ, i' = (a : ℤ) + pat.length - 1 ∧ a ≤ str.length ∧
          ∀ o, o < a → ¬ OccursAt pat str o) ∧
        ((str.length : ℤ) + pat.length - 1 - i').toNat
          < ((str.length : ℤ) + pat.length - 1 - i).toNat) ∨
      ∃ r, bmSearchStep delta1 delta2 str str.length pat pat.length i = .ok (.done r) ∧
        r = (naiveSearch str pat).map (Nat.cast : ℕ → ℤ) := by
    intro i halign
    rcases halign with ⟨a, hi, ha, hnone⟩
    rcases bmSearchStep_spec hpos ht hmax' hi with
      ⟨hfit, hrun⟩ | ⟨hocc, hrun⟩ | ⟨j, d, hd, hfit, hrun⟩
    · refine Or.inr ⟨none, hrun, ?_⟩
      rw [(naiveSearch_eq_none hpos).mpr, Option.map_none]
      intro o hocc
      have := hocc.le_length hpos
      exact hnone o (by omega) hocc
    · refine Or.inr ⟨_, hrun, ?_⟩
      rw [(naiveSearch_eq_some hpos).mpr ⟨hocc, hnone⟩, Option.map_some]
    · have hd1 := hd.pos
      have hd2 := hd.le
      refine Or.inl ⟨_, hrun, ⟨a + d, by omega, by omega, fun o ho => ?_⟩, by omega⟩
      rcases Nat.lt_trichotomy o a with hlt | rfl | hgt
      · exact hnone o hlt
      · exact hd.mismatch.not_occursAt
      · exact hd.no_occurrence hnul hsafe (by omega) o hgt ho
  obtain ⟨r, hrun, rfl⟩ := iterate_total _ _ _ hstep fuel ((pat.length : ℤ) - 1)
    ⟨0, by omega, by omega, fun o ho => by omega⟩ (by omega)
  rw [bmSearch_eq hpos (by omega) h1 h2, hrun]

/-! ## A lost occurrence -/

/-- The search only reports offsets at or to the right of its alignment. -/
theorem iterate_bmSearchStep_ge {str pat : Mem} {delta1 : Table alphabetLen}
    {delta2 : Table pat.length} (hpos : 1 ≤ pat.length) (ht : TablesFor pat delta1 delta2)
    (hmax : str.length + pat.length ≤ intMax + 1) {fuel a o : ℕ}
    (h : iterate (bmSearchStep delta1 delta2 str str.length pat pat.length) fuel
      ((a : ℤ) + pat.length - 1) = .ok (some (o : ℤ))) : a ≤ o := by
  have hnext : ∀ i i' : ℤ, (∃ b : ℕ, i = (b : ℤ) + pat.length - 1 ∧ a ≤ b) →
      bmSearchStep delta1 delta2 str str.length pat pat.length i = .ok (.next i') →
      ∃ b : ℕ, i' = (b : ℤ) + pat.length - 1 ∧ a ≤ b := by
    intro i i' halign hrun
    rcases halign with ⟨b, hi, hab⟩
    rcases bmSearchStep_next hpos ht hmax hi hrun with ⟨j, d, -, -, rfl⟩
    exact ⟨b + d, by omega, by omega⟩
  have hdone : ∀ (i : ℤ) (r : Option ℤ), (∃ b : ℕ, i = (b : ℤ) + pat.length - 1 ∧ a ≤ b) →
      bmSearchStep delta1 delta2 str str.length pat pat.length i = .ok (.done r) →
      ∀ o : ℕ, r = some (o : ℤ) → a ≤ o := by
    intro i r halign hrun o ho
    rcases halign with ⟨b, hi, hab⟩
    subst ho
    rcases bmSearchStep_done hpos ht hmax hi hrun with hr | hr
    · cases hr
    · have hbo : (o : ℤ) = b := Option.some.inj hr
      omega
  exact iterate_inv _ _ hnext hdone fuel _ _ ⟨a, rfl, le_refl a⟩ h o rfl

/-- At the second character of a pattern whose leftmost border is at `p`, the table says to
move on to the alignment behind that of the border. -/
theorem Delta2Entry.eq_of_first_border {pat : Mem} {p : ℕ} {v : ℤ} (hnul : 0 ∉ pat) (hp : 2 ≤ p)
    (hpn : p < pat.length) (hb : BorderAt pat p)
    (hfirst : ∀ q, 0 < q → q < p → ¬ BorderAt pat q) (hlen : 2 * pat.length ≤ intMax + 1)
    (h : Delta2Entry pat 1 v) : v = (p : ℤ) + 1 + (pat.length - 1 - 1) := by
  rcases h with ⟨s, hs, -, -⟩ | ⟨-, l, hl, hv⟩
  · exact absurd hs (not_goodShift_one hb hp hpn)
  · have hle := hl.le
    rw [toInt_of_range (by omega) (by omega)] at hv
    rcases hl with ⟨p', hp', -, hb', hmin, rfl⟩ | ⟨hnone, -⟩
    · rw [prefixEq_iff_borderAt hnul] at hb'
      rcases Nat.lt_trichotomy p' p with hlt | rfl | hgt
      · exact absurd hb' (hfirst p' (by omega) hlt)
      · omega
      · exact absurd ((prefixEq_iff_borderAt hnul p).mpr hb) (hmin p (by omega) hgt)
    · exact absurd ((prefixEq_iff_borderAt hnul p).mpr hb) (hnone p (by omega) hpn)

/-- A pattern that is not harmless for texts of length `n` has such a text on which the
search does not find its leftmost occurrence. -/
theorem exists_lost_occurrence {pat : Mem} {fuel n : ℕ} (locals : Locals pat.length)
    (hpos : 1 ≤ pat.length) (hnul : 0 ∉ pat) (hharm : ¬ Harmless pat n)
    (hmax : n + pat.length - 1 ≤ intMax) (hfuel : n + pat.length ≤ fuel) :
    ∃ str : Mem, str.length = n ∧ bmSearch fuel locals str str.length pat
      ≠ .ok ((naiveSearch str pat).map (Nat.cast : ℕ → ℤ)) := by
  rw [Harmless, not_or] at hharm
  rcases hharm with ⟨hconst, hroom⟩
  push Not at hroom
  rcases hroom with ⟨q, hq, hqn, hbq, hfitq⟩
  -- the leftmost border is the one whose occurrence gets lost
  rcases exists_first_border hq hbq with ⟨p, hp0, hpq, hb, hfirst⟩
  have hp : 2 ≤ p := by
    by_contra hlt
    obtain rfl : p = 1 := by omega
    exact hconst (constant_of_borderAt_one hb)
  have hpn : p < pat.length := by omega
  obtain ⟨x, hx⟩ : ∃ x, pat[1]? = some x := ⟨_, List.getElem?_eq_getElem (by omega)⟩
  -- any character but the second of the pattern makes the mismatch
  have hc : pat[1]? ≠ some (x + 1) := by
    rw [hx]
    intro h
    simpa using Option.some.inj h
  have hlen := length_overlapText (c := x + 1) hp hpn (show p + pat.length ≤ n by omega)
  have hocc := overlapText_occursAt (N := n) (c := x + 1) hp hpn
  have hm := overlapText_mismatchAt (N := n) hp hpn hb hc
  refine ⟨overlapText pat p n (x + 1), hlen, fun heq => ?_⟩
  obtain ⟨delta1, delta2, h1, h2, ht⟩ := exists_tables locals hpos (by omega)
    (show pat.length ≤ fuel by omega)
  have hmax' : (overlapText pat p n (x + 1)).length + pat.length ≤ intMax + 1 := by omega
  rw [bmSearch_eq hpos (by omega) h1 h2] at heq
  -- the first pass moves on from the mismatch at the second character
  have hi : (pat.length : ℤ) - 1 = ((0 : ℕ) : ℤ) + pat.length - 1 := by omega
  rcases bmSearchStep_spec hpos ht hmax' hi with ⟨hfit, -⟩ | ⟨hocc0, -⟩ | ⟨j, d, hd, -, hrun⟩
  · omega
  · exact hm.not_occursAt hocc0
  · obtain rfl : j = 1 := hd.mismatch.unique hm
    rcases hd.entries with ⟨c, v₁, v₂, -, -, hentry₂, hdv⟩
    have hv := hentry₂.eq_of_first_border hnul hp hpn hb hfirst (by omega)
    have hskip : p + 1 ≤ d := by omega
    obtain ⟨fuel', rfl⟩ : ∃ fuel', fuel = fuel' + 1 := ⟨fuel - 1, by omega⟩
    -- so the answer is behind the occurrence that is there
    rcases exists_firstAt hocc with ⟨o, hop, hfirst'⟩
    rw [iterate_next hrun, (naiveSearch_eq_some hpos).mpr hfirst', Option.map_some,
      show ((0 : ℕ) : ℤ) + d + pat.length - 1 = (d : ℤ) + pat.length - 1 by omega] at heq
    have := iterate_bmSearchStep_ge hpos ht hmax' heq
    omega

/-- The search agrees with the naive scan on all texts of length `n` exactly for the
patterns that are harmless for that length. -/
theorem bmSearch_eq_naiveSearch_iff (pat : Mem) (n fuel : ℕ) (locals : Locals pat.length)
    (hpos : 1 ≤ pat.length) (hnul : 0 ∉ pat) (hmax : n + pat.length - 1 ≤ intMax)
    (hfuel : n + pat.length ≤ fuel) :
    (∀ str : Mem, str.length = n → bmSearch fuel locals str str.length pat
        = .ok ((naiveSearch str pat).map (Nat.cast : ℕ → ℤ))) ↔
      (∀ x ∈ pat, ∀ y ∈ pat, x = y) ∨
        ∀ p, 0 < p → p < pat.length → pat.drop p <+: pat → n < pat.length + p := by
  have hharm : Harmless pat n ↔ (∀ x ∈ pat, ∀ y ∈ pat, x = y) ∨
      ∀ p, 0 < p → p < pat.length → pat.drop p <+: pat → n < pat.length + p := by
    simp only [Harmless, Constant, borderAt_iff_drop]
  rw [← hharm]
  constructor
  · intro h
    by_contra hno
    rcases exists_lost_occurrence locals hpos hnul hno hmax hfuel with ⟨str, hlen, hne⟩
    exact hne (h str hlen)
  · intro h str hlen
    subst hlen
    exact bmSearch_eq_naiveSearch locals hpos hnul h hmax hfuel

/-- The border of `aba` is too far back for a text of four bytes. -/
theorem bmSearch_eq_naiveSearch_aba :
    bmSearch 7 (default : Locals 3) (ascii "xaba") 4 (ascii "aba")
      = .ok ((naiveSearch (ascii "xaba") (ascii "aba")).map (Nat.cast : ℕ → ℤ)) := by
  have hcond : ∀ p, p < 3 → 0 < p → (ascii "aba").drop p <+: ascii "aba" → 4 < 3 + p := by decide
  exact (bmSearch_eq_naiveSearch_iff (ascii "aba") 4 7 default (by decide) (by decide) (by decide)
    (by decide)).mpr (Or.inr fun p h0 hp => hcond p hp h0) (ascii "xaba") (by decide)

/-- The mismatch at the middle of `aba` skips over the occurrence at the end. -/
theorem bmSearch_loses_aba :
    (0 : UInt8) ∉ ascii "aba" ∧
      bmSearch 8 (default : Locals 3) (ascii "xcaba") 5 (ascii "aba") = .ok none ∧
      naiveSearch (ascii "xcaba") (ascii "aba") = some 2 := by
  decide +kernel

end MeizuSm8150.Recovery
