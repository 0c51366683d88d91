import MeizuSm8150.Recovery.BoyerMooreTables

/-!
# The Boyer-Moore search

One pass of the outer loop is described once (`bmSearchStep_spec`): it finds the pattern at its
alignment, or moves on from a mismatch by `d` with `1 ≤ d ≤ n`, or stops because the pattern no
longer fits. From it the loop rules give termination, with every access in range and every
alignment further right than the last.
-/

namespace MeizuSm8150.Recovery

open CMachine CString Matching

/-! ## The inner loop -/

/-- The alignment at `a` compared backwards as far as position `m`. -/
structure Compared (str pat : Mem) (a m : ℕ) (s : ℤ × ℤ) : Prop where
  le : m ≤ pat.length
  fst : s.1 = (a : ℤ) + m - 1
  snd : s.2 = (m : ℤ) - 1
  agree : ∀ x, m ≤ x → x < pat.length → str[a + x]? = pat[x]?

/-- The state the inner loop ends in: before the alignment, or at its rightmost mismatch. -/
def Matched (str pat : Mem) (a : ℕ) (s : ℤ × ℤ) : Prop :=
  (OccursAt pat str a ∧ s = ((a : ℤ) - 1, -1)) ∨
  ∃ j : ℕ, MismatchAt pat str a j ∧ s = ((a : ℤ) + j, (j : ℤ))

theorem bmMatchStep_spec {str pat : Mem} {a m : ℕ} {s : ℤ × ℤ}
    (hfit : a + pat.length ≤ str.length) (hlen : str.length ≤ intMax)
    (h : Compared str pat a m s) :
    (∃ s' m', bmMatchStep str pat s = .ok (.next s') ∧ Compared str pat a m' s' ∧ m' + 1 = m) ∨
    (bmMatchStep str pat s = .ok (.done s) ∧ Matched str pat a s) := by
  rcases s with ⟨i, j⟩
  rcases h with ⟨hm, hi, hj, hagree⟩
  simp only [intMax] at hlen
  dsimp only at hi hj
  cases m with
  | zero =>
    -- the loop has passed the start of the pattern
    refine Or.inr ⟨?_, Or.inl ⟨fun k hk => hagree k (Nat.zero_le k) hk, ?_⟩⟩
    · rw [bmMatchStep, if_neg (by omega)]
      rfl
    · rw [hi, hj]
      simp
  | succ m =>
    have hx := List.getElem?_eq_getElem (show a + m < str.length by omega)
    have hy := List.getElem?_eq_getElem (show m < pat.length by omega)
    have hrun : bmMatchStep str pat (i, j) = .ok (if str[a + m] = pat[m] then
        .next (toInt (i - 1), toInt (j - 1)) else .done (i, j)) := by
      rw [bmMatchStep, if_pos (by omega), Mem.read_some hx (by omega), ok_bind,
        Mem.read_some hy (by omega), ok_bind]
      split <;> rfl
    rw [hrun]
    by_cases heq : str[a + m] = pat[m]
    · rw [if_pos heq]
      refine Or.inl ⟨_, m, rfl, ⟨by omega, ?_, ?_, fun x hmx hx' => ?_⟩, rfl⟩
      · dsimp only
        rw [toInt_of_range (by omega) (by simp only [intMax]; omega)]
        omega
      · dsimp only
        rw [toInt_of_range (by omega) (by simp only [intMax]; omega)]
        omega
      · by_cases hxm : x = m
        · rw [hxm, hx, hy, heq]
        · exact hagree x (by omega) hx'
    · rw [if_neg heq]
      refine Or.inr ⟨rfl, Or.inr ⟨m, ⟨by omega, fun x hmx => hagree x (by omega), ?_⟩, ?_⟩⟩
      · rw [hx, hy]
        exact fun h => heq (Option.some.inj h)
      · exact Prod.ext (by dsimp only; omega) (by dsimp only; omega)

theorem bmMatch_spec {str pat : Mem} {a : ℕ} {i : ℤ} (hpos : 1 ≤ pat.length)
    (hfit : a + pat.length ≤ str.length) (hlen : str.length ≤ intMax)
    (hi : i = (a : ℤ) + pat.length - 1) :
    ∃ s, bmMatch str pat pat.length i = .ok s ∧ Matched str pat a s := by
  have hstep : ∀ s, (∃ m, Compared str pat a m s) →
      (∃ s', bmMatchStep str pat s = .ok (.next s') ∧ (∃ m, Compared str pat a m s') ∧
        (s'.2 + 1).toNat < (s.2 + 1).toNat) ∨
      ∃ r, bmMatchStep str pat s = .ok (.done r) ∧ Matched str pat a r := by
    intro s hs
    rcases hs with ⟨m, hm⟩
    rcases bmMatchStep_spec hfit hlen hm with ⟨s', m', hrun, hm', hdec⟩ | hdone
    · have h1 := hm.snd
      have h2 := hm'.snd
      exact Or.inl ⟨s', hrun, ⟨m', hm'⟩, by omega⟩
    · exact Or.inr ⟨s, hdone⟩
  have hj : toInt (toSize ((pat.length : ℤ) - 1)) = (pat.length : ℤ) - 1 := by
    rw [toInt_toSize, toInt_of_range (by omega) (by omega)]
  have hinit : Compared str pat a pat.length (i, toInt (toSize ((pat.length : ℤ) - 1))) :=
    ⟨le_refl _, hi, hj, fun x h1 h2 => by omega⟩
  exact iterate_total _ (fun s => (s.2 + 1).toNat) _ hstep (pat.length + 1) _ ⟨_, hinit⟩
    (by rw [hj]; dsimp only; omega)

/-! ## One pass of the outer loop -/

/-- Both tables as their builders leave them. -/
structure TablesFor (pat : Mem) (delta1 : Table alphabetLen) (delta2 : Table pat.length) :
    Prop where
  char : ∀ c : UInt8, ∃ v, delta1.load c.toNat = .ok v ∧ Delta1Entry pat (pat.length - 1) c v
  suffix : ∀ j, j < pat.length → ∃ v, delta2.load j = .ok v ∧ Delta2Entry pat j v

theorem exists_tables {pat : Mem} {fuel : ℕ} (locals : Locals pat.length)
    (hpos : 1 ≤ pat.length) (hlen : pat.length ≤ intMax + 1) (hfuel : pat.length ≤ fuel) :
    ∃ delta1 delta2, bmMakeDelta1 fuel locals.delta1 pat pat.length = .ok delta1 ∧
      bmMakeDelta2 locals.delta2 pat pat.length = .ok delta2 ∧ TablesFor pat delta1 delta2 := by
  rcases bmMakeDelta1_spec locals.delta1 hpos hlen hfuel with ⟨delta1, hrun₁, hchar⟩
  rcases bmMakeDelta2_spec locals.delta2 hpos hlen with ⟨delta2, hrun₂, hsuffix⟩
  exact ⟨delta1, delta2, hrun₁, hrun₂, hchar, hsuffix⟩

/-- The alignment at `a` fails at `j` and the tables move it by `d`. -/
structure SkipBy (str pat : Mem) (a j d : ℕ) : Prop where
  mismatch : MismatchAt pat str a j
  pos : 1 ≤ d
  le : d ≤ pat.length
  entries : ∃ c v₁ v₂, str[a + j]? = some c ∧ Delta1Entry pat (pat.length - 1) c v₁ ∧
    Delta2Entry pat j v₂ ∧ (d : ℤ) + (pat.length - 1 - j) = max v₁ v₂

section Search
variable {str pat : Mem} {delta1 : Table alphabetLen} {delta2 : Table pat.length}

theorem bmSkip_spec (ht : TablesFor pat delta1 delta2) {a j : ℕ}
    (hfit : a + pat.length ≤ str.length) (hmax : str.length + pat.length ≤ intMax + 1)
    (hm : MismatchAt pat str a j) :
    ∃ d, SkipBy str pat a j d ∧
      bmSkip delta1 delta2 str ((a : ℤ) + j) j = .ok ((a : ℤ) + d + pat.length - 1) := by
  have hj := hm.lt
  have hc := List.getElem?_eq_getElem (show a + j < str.length by omega)
  rcases ht.char str[a + j] with ⟨v₁, hload₁, hentry₁⟩
  rcases ht.suffix j hj with ⟨v₂, hload₂, hentry₂⟩
  have hle₁ := hentry₁.le (by omega)
  rcases hentry₂.bounds hj (by omega) with ⟨hlow, hhigh⟩
  -- the inner loop moved `i` back by `n - 1 - j`, which the entries make up for
  have hskip : (((max v₁ v₂ - (pat.length - 1 - j)).toNat : ℕ) : ℤ) + (pat.length - 1 - j)
      = max v₁ v₂ := by omega
  refine ⟨(max v₁ v₂ - (pat.length - 1 - j)).toNat,
    ⟨hm, by omega, by omega, _, v₁, v₂, hc, hentry₁, hentry₂, hskip⟩, ?_⟩
  rw [bmSkip, Mem.read_some hc (by omega), ok_bind, hload₁, ok_bind, hload₂, ok_bind]
  change Except.ok _ = Except.ok _
  congr 1
  omega

/-- A pass at an occurrence reports it. -/
theorem bmSearchStep_occurs (hpos : 1 ≤ pat.length) (hlen : str.length ≤ intMax) {a : ℕ} {i : ℤ}
    (hi : i = (a : ℤ) + pat.length - 1) (hocc : OccursAt pat str a) :
    bmSearchStep delta1 delta2 str str.length pat pat.length i = .ok (.done (some (a : ℤ))) := by
  have hfit := hocc.le_length hpos
  have hstr : toInt str.length = str.length := toInt_of_range (by omega) (by omega)
  obtain ⟨s, hrun, hs⟩ := bmMatch_spec hpos hfit hlen hi
  rcases hs with ⟨-, rfl⟩ | ⟨j, hm, -⟩
  · rw [bmSearchStep, if_pos (by omega), hrun, ok_bind]
    dsimp only
    rw [if_pos (by omega), Int.sub_add_cancel]
    rfl
  · exact absurd hocc hm.not_occursAt

/-- What one pass does from the alignment at `a`. -/
theorem bmSearchStep_spec (hpos : 1 ≤ pat.length) (ht : TablesFor pat delta1 delta2)
    (hmax : str.length + pat.length ≤ intMax + 1) {a : ℕ} {i : ℤ}
    (hi : i = (a : ℤ) + pat.length - 1) :
    (str.length < a + pat.length ∧
      bmSearchStep delta1 delta2 str str.length pat pat.length i = .ok (.done none)) ∨
    (OccursAt pat str a ∧
      bmSearchStep delta1 delta2 str str.length pat pat.length i = .ok (.done (some (a : ℤ)))) ∨
    ∃ j d, SkipBy str pat a j d ∧ a + pat.length ≤ str.length ∧
      bmSearchStep delta1 delta2 str str.length pat pat.length i
        = .ok (.next ((a : ℤ) + d + pat.length - 1)) := by
  have hstr : toInt str.length = str.length := toInt_of_range (by omega) (by omega)
  -- the loop condition, which compares the end of the alignment, says that it fits
  by_cases hfit : str.length < a + pat.length
  · refine Or.inl ⟨hfit, ?_⟩
    rw [bmSearchStep, if_neg (by omega)]
    rfl
  · obtain ⟨s, hrun, hs⟩ := bmMatch_spec hpos (show a + pat.length ≤ str.length by omega)
      (by omega) hi
    rcases hs with ⟨hocc, -⟩ | ⟨j, hm, rfl⟩
    · exact Or.inr (Or.inl ⟨hocc, bmSearchStep_occurs hpos (by omega) hi hocc⟩)
    · rcases bmSkip_spec ht (by omega) hmax hm with ⟨d, hd, hskip⟩
      have := hd.le
      refine Or.inr (Or.inr ⟨j, d, hd, by omega, ?_⟩)
      rw [bmSearchStep, if_pos (by omega), hrun, ok_bind]
      dsimp only
      rw [if_neg (by omega), hskip, ok_bind, toInt_of_range (by omega) (by omega)]
      rfl

/-- A pass that goes on skipped from a mismatch. -/
theorem bmSearchStep_next (hpos : 1 ≤ pat.length) (ht : TablesFor pat delta1 delta2)
    (hmax : str.length + pat.length ≤ intMax + 1) {a : ℕ} {i i' : ℤ}
    (hi : i = (a : ℤ) + pat.length - 1)
    (hrun : bmSearchStep delta1 delta2 str str.length pat pat.length i = .ok (.next i')) :
    ∃ j d, SkipBy str pat a j d ∧ a + pat.length ≤ str.length ∧
      i' = (a : ℤ) + d + pat.length - 1 := by
  rcases bmSearchStep_spec hpos ht hmax hi with ⟨-, hrun'⟩ | ⟨-, hrun'⟩ | ⟨j, d, hd, hfit, hrun'⟩
  · rw [hrun'] at hrun
    cases hrun
  · rw [hrun'] at hrun
    cases hrun
  · rw [hrun'] at hrun
    cases hrun
    exact ⟨j, d, hd, hfit, rfl⟩

/-- A pass that leaves the loop reports its own alignment or none. -/
theorem bmSearchStep_done (hpos : 1 ≤ pat.length) (ht : TablesFor pat delta1 delta2)
    (hmax : str.length + pat.length ≤ intMax + 1) {a : ℕ} {i : ℤ} {r : Option ℤ}
    (hi : i = (a : ℤ) + pat.length - 1)
    (hrun : bmSearchStep delta1 delta2 str str.length pat pat.length i = .ok (.done r)) :
    r = none ∨ r = some (a : ℤ) := by
  rcases bmSearchStep_spec hpos ht hmax hi with ⟨-, hrun'⟩ | ⟨-, hrun'⟩ | ⟨j, d, -, -, hrun'⟩
  · rw [hrun'] at hrun
    cases hrun
    exact Or.inl rfl
  · rw [hrun'] at hrun
    cases hrun
    exact Or.inr rfl
  · rw [hrun'] at hrun
    cases hrun

/-! ## Termination -/

/-- The values `i` has on entry to the outer loop: the end of an alignment. -/
def Aligned (str pat : Mem) (i : ℤ) : Prop :=
  ∃ a : ℕ, i = (a : ℤ) + pat.length - 1 ∧ a ≤ str.length

theorem Aligned.first (str pat : Mem) : Aligned str pat ((pat.length : ℤ) - 1) :=
  ⟨0, by omega, by omega⟩

/-- A pass leaves the loop, or moves the alignment to the right inside the text. -/
theorem Aligned.step (hpos : 1 ≤ pat.length) (ht : TablesFor pat delta1 delta2)
    (hmax : str.length + pat.length ≤ intMax + 1) {i : ℤ} (hi : Aligned str pat i) :
    (∃ i', bmSearchStep delta1 delta2 str str.length pat pat.length i = .ok (.next i') ∧
      Aligned str pat i' ∧ i < i') ∨
    ∃ r, bmSearchStep delta1 delta2 str str.length pat pat.length i = .ok (.done r) ∧
      ∀ p, r = some p → ∃ o : ℕ, p = o ∧ OccursAt pat str o := by
  rcases hi with ⟨a, hi, ha⟩
  rcases bmSearchStep_spec hpos ht hmax hi with ⟨-, hrun⟩ | ⟨hocc, hrun⟩ | ⟨j, d, hd, hfit, hrun⟩
  · exact Or.inr ⟨none, hrun, fun p hp => by cases hp⟩
  · exact Or.inr ⟨_, hrun, fun p hp => ⟨a, (Option.some.inj hp).symm, hocc⟩⟩
  · have h1 := hd.pos
    have h2 := hd.le
    exact Or.inl ⟨_, hrun, ⟨a + d, by omega, by omega⟩, by omega⟩

theorem Aligned.next (hpos : 1 ≤ pat.length) (ht : TablesFor pat delta1 delta2)
    (hmax : str.length + pat.length ≤ intMax + 1) {i i' : ℤ} (hi : Aligned str pat i)
    (hrun : bmSearchStep delta1 delta2 str str.length pat pat.length i = .ok (.next i')) :
    Aligned str pat i' ∧ i < i' := by
  rcases hi with ⟨a, hi, ha⟩
  rcases bmSearchStep_next hpos ht hmax hi hrun with ⟨j, d, hd, hfit, rfl⟩
  have h1 := hd.pos
  have h2 := hd.le
  exact ⟨⟨a + d, by omega, by omega⟩, by omega⟩

theorem Aligned.of_reaches (hpos : 1 ≤ pat.length) (ht : TablesFor pat delta1 delta2)
    (hmax : str.length + pat.length ≤ intMax + 1) {i i' : ℤ}
    (h : Reaches (bmSearchStep delta1 delta2 str str.length pat pat.length) i i')
    (hi : Aligned str pat i) : Aligned str pat i' :=
  h.inv _ (fun _ _ hs hrun => (hs.next hpos ht hmax hrun).1) hi

/-- Every state of the inner loop has compared some end of the alignment. -/
theorem Compared.of_reaches {a : ℕ} {i : ℤ} (hfit : a + pat.length ≤ str.length)
    (hlen : str.length ≤ intMax) (hi : i = (a : ℤ) + pat.length - 1) {s : ℤ × ℤ}
    (h : Reaches (bmMatchStep str pat) (i, (pat.length : ℤ) - 1) s) :
    ∃ m, Compared str pat a m s := by
  refine h.inv (fun s => ∃ m, Compared str pat a m s) (fun s s' hs hrun => ?_)
    ⟨pat.length, le_refl _, hi, rfl, fun x h1 h2 => by omega⟩
  obtain ⟨m, hm⟩ := hs
  rcases bmMatchStep_spec hfit hlen hm with ⟨s'', m', hrun', hm', -⟩ | ⟨hrun', -⟩
  · rw [hrun] at hrun'
    cases hrun'
    exact ⟨m', hm'⟩
  · rw [hrun] at hrun'
    cases hrun'

/-- In the inner loop `i` only moves back from the end of the alignment. -/
theorem bmMatchStep_le {a : ℕ} {i : ℤ} (hfit : a + pat.length ≤ str.length)
    (hlen : str.length ≤ intMax) (hi : i = (a : ℤ) + pat.length - 1) {s : ℤ × ℤ}
    (h : Reaches (bmMatchStep str pat) (i, (pat.length : ℤ) - 1) s) : s.1 ≤ i := by
  obtain ⟨m, hm⟩ := Compared.of_reaches hfit hlen hi h
  have h1 := hm.fst
  have h2 := hm.le
  omega

end Search

/-- The search as its two tables followed by the outer loop. -/
theorem bmSearch_eq {str pat : Mem} {fuel : ℕ} {locals : Locals pat.length}
    {delta1 : Table alphabetLen} {delta2 : Table pat.length} (hpos : 1 ≤ pat.length)
    (hlen : pat.length ≤ intMax + 1)
    (h1 : bmMakeDelta1 fuel locals.delta1 pat pat.length = .ok delta1)
    (h2 : bmMakeDelta2 locals.delta2 pat pat.length = .ok delta2) :
    bmSearch fuel locals str str.length pat
      = iterate (bmSearchStep delta1 delta2 str str.length pat pat.length) fuel
          ((pat.length : ℤ) - 1) := by
  rw [bmSearch, h1, ok_bind, h2, ok_bind, if_neg (by omega), toInt_toSize,
    toInt_of_range (by omega) (by omega)]

/-- `bm_search` terminates on every text and every nonempty pattern, whatever bytes they
hold: no access leaves its object, each alignment is further right than the one before, and
an answer is an occurrence. -/
theorem bmSearch_terminates (str pat : Mem) (fuel : ℕ) (locals : Locals pat.length)
    (hpos : 1 ≤ pat.length) (hmax : str.length + pat.length - 1 ≤ intMax)
    (hfuel : str.length + pat.length ≤ fuel) :
    ∃ delta1 delta2,
      bmMakeDelta1 fuel locals.delta1 pat pat.length = .ok delta1 ∧
      bmMakeDelta2 locals.delta2 pat pat.length = .ok delta2 ∧
      (∀ i, Reaches (bmSearchStep delta1 delta2 str str.length pat pat.length)
          ((pat.length : ℤ) - 1) i →
        0 ≤ i - (pat.length - 1) ∧ i ≤ str.length + pat.length - 1 ∧
        (∃ o, bmSearchStep delta1 delta2 str str.length pat pat.length i = .ok o) ∧
        (i < str.length → ∀ s, Reaches (bmMatchStep str pat) (i, (pat.length : ℤ) - 1) s →
          s.1 ≤ i) ∧
        ∀ i', bmSearchStep delta1 delta2 str str.length pat pat.length i = .ok (.next i') →
          i - (pat.length - 1) < i' - (pat.length - 1)) ∧
      ∃ r, bmSearch fuel locals str str.length pat = .ok r ∧
        ∀ p, r = some p → ∃ o : ℕ, p = o ∧ o + pat.length ≤ str.length ∧
          (str.drop o).take pat.length = pat := by
  obtain ⟨delta1, delta2, h1, h2, ht⟩ := exists_tables locals hpos (by omega)
    (show pat.length ≤ fuel by omega)
  have hmax' : str.length + pat.length ≤ intMax + 1 := by omega
  refine ⟨delta1, delta2, h1, h2, fun i hi => ?_, ?_⟩
  · have hal := Aligned.of_reaches hpos ht hmax' hi (Aligned.first str pat)
    have hal' := hal
    rcases hal' with ⟨a, hia, ha⟩
    refine ⟨by omega, by omega, ?_, fun hlt s hs => ?_, fun i' hrun => ?_⟩
    · rcases hal.step hpos ht hmax' with ⟨i', hrun, -⟩ | ⟨r, hrun, -⟩
      · exact ⟨_, hrun⟩
      · exact ⟨_, hrun⟩
    · exact bmMatchStep_le (by omega) (by omega) hia hs
    · have hlt := (hal.next hpos ht hmax' hrun).2
      omega
  · have hstep : ∀ i, Aligned str pat i →
        (∃ i', bmSearchStep delta1 delta2 str str.length pat pat.length i = .ok (.next i') ∧
          Aligned str pat i' ∧
          ((str.length : ℤ) + pat.length - 1 - i').toNat
            < ((str.length : ℤ) + pat.length - 1 - i).toNat) ∨
        ∃ r, bmSearchStep delta1 delta2 str str.length pat pat.length i = .ok (.done r) ∧
          ∀ p, r = some p → ∃ o : ℕ, p = o ∧ OccursAt pat str o := by
      intro i hi
      rcases hi.step hpos ht hmax' with ⟨i', hrun, hi', hlt⟩ | hdone
      · have hi'' := hi'
        rcases hi'' with ⟨a, hia, ha⟩
        exact Or.inl ⟨i', hrun, hi', by omega⟩
      · exact Or.inr hdone
    rcases iterate_total _ _ _ hstep fuel _ (Aligned.first str pat) (by omega) with ⟨r, hrun, hr⟩
    refine ⟨r, by rw [bmSearch_eq hpos (by omega) h1 h2, hrun], fun p hp => ?_⟩
    rcases hr p hp with ⟨o, ho, hocc⟩
    exact ⟨o, ho, hocc.le_length hpos, (occursAt_iff_slice pat str o).mp hocc⟩

/-- The search for `aba` in `xcaba`. -/
theorem bmSearch_terminates_aba :
    ∃ r, bmSearch 8 (default : Locals 3) (ascii "xcaba") 5 (ascii "aba") = .ok r := by
  obtain ⟨-, -, -, -, -, r, hr, -⟩ := bmSearch_terminates (ascii "xcaba") (ascii "aba") 8 default
    (by decide) (by decide) (by decide)
  exact ⟨r, hr⟩

end MeizuSm8150.Recovery
