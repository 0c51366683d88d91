import Mathlib.Tactic.Common
import Mathlib.Data.Nat.Notation
import Mathlib.Data.List.Basic
import Mathlib.Data.Nat.Find

/-!
# Occurrences of a pattern in a text

Exact string matching over an arbitrary alphabet: occurrences, the leftmost one as the naive
scan finds it, and the two facts about a pattern that decide which alignments a mismatch rules
out, namely its borders and the re-occurrences of its suffixes.

A shift by `s` after a mismatch at pattern position `j` can only lead to an occurrence if it
brings the matched suffix onto an equal factor behind a different character (`GoodShift`) or,
when it moves past `j`, onto a prefix of the pattern (`BorderAt`). `MismatchAt.shift_cases` is
this dichotomy; every statement about skipping alignments is a consequence.
-/

namespace Matching

variable {α : Type}

/-! ## Occurrences -/

/-- `pat` occurs in `str` at offset `o`. -/
def OccursAt (pat str : List α) (o : ℕ) : Prop :=
  ∀ k, k < pat.length → str[o + k]? = pat[k]?

/-- `o` is the leftmost offset at which `pat` occurs in `str`. -/
def FirstAt (pat str : List α) (o : ℕ) : Prop :=
  OccursAt pat str o ∧ ∀ o', o' < o → ¬ OccursAt pat str o'

/-- A nonempty pattern occurs only where it fits. -/
theorem OccursAt.le_length {pat str : List α} {o : ℕ} (h : OccursAt pat str o)
    (hpat : 1 ≤ pat.length) : o + pat.length ≤ str.length := by
  have hlast := h (pat.length - 1) (by omega)
  rw [List.getElem?_eq_getElem (show pat.length - 1 < pat.length by omega)] at hlast
  have := (List.getElem?_eq_some_iff.mp hlast).1
  omega

/-- An occurrence, as a slice of the text. -/
theorem occursAt_iff_slice (pat str : List α) (o : ℕ) :
    OccursAt pat str o ↔ (str.drop o).take pat.length = pat := by
  constructor
  · intro h
    apply List.ext_getElem?
    intro k
    rw [List.getElem?_take, List.getElem?_drop]
    by_cases hk : k < pat.length
    · rw [if_pos hk, h k hk]
    · rw [if_neg hk, List.getElem?_eq_none (by omega)]
  · intro h k hk
    have hget := congrArg (fun l => l[k]?) h
    simpa only [List.getElem?_take, List.getElem?_drop, if_pos hk] using hget

theorem FirstAt.unique {pat str : List α} {o o' : ℕ} (h : FirstAt pat str o)
    (h' : FirstAt pat str o') : o = o' := by
  have hle : o' ≤ o := Nat.le_of_not_lt fun hlt => h'.2 o hlt h.1
  have hge : o ≤ o' := Nat.le_of_not_lt fun hlt => h.2 o' hlt h'.1
  omega

/-- Where there is an occurrence there is a leftmost one, no further right. -/
theorem exists_firstAt {pat str : List α} {o : ℕ} (h : OccursAt pat str o) :
    ∃ o', o' ≤ o ∧ FirstAt pat str o' := by
  classical
  have hex : ∃ o', OccursAt pat str o' := ⟨o, h⟩
  exact ⟨Nat.find hex, Nat.find_min' hex h, Nat.find_spec hex, fun _ => Nat.find_min hex⟩

/-! ## The naive scan -/

/-- Try the alignments from left to right. -/
def naiveSearch [DecidableEq α] (str pat : List α) : Option ℕ :=
  (List.range (str.length + 1 - pat.length)).find? fun o =>
    decide ((str.drop o).take pat.length = pat)

section Naive
variable [DecidableEq α] {pat str : List α}

theorem naiveSearch_eq_some (hpat : 1 ≤ pat.length) {o : ℕ} :
    naiveSearch str pat = some o ↔ FirstAt pat str o := by
  rw [naiveSearch, List.find?_range_eq_some]
  simp only [decide_eq_true_eq, Bool.not_eq_true', decide_eq_false_iff_not, List.mem_range,
    ← occursAt_iff_slice]
  constructor
  · intro h
    rcases h with ⟨hocc, _, hmin⟩
    exact ⟨hocc, hmin⟩
  · intro h
    rcases h with ⟨hocc, hmin⟩
    -- an occurrence fits, so the scan reaches it
    have := hocc.le_length hpat
    exact ⟨hocc, by omega, hmin⟩

theorem naiveSearch_eq_none (hpat : 1 ≤ pat.length) :
    naiveSearch str pat = none ↔ ∀ o, ¬ OccursAt pat str o := by
  constructor
  · intro h o hocc
    rcases exists_firstAt hocc with ⟨o', _, hfirst⟩
    rw [(naiveSearch_eq_some hpat).mpr hfirst] at h
    cases h
  · intro h
    cases hs : naiveSearch str pat with
    | none => rfl
    | some o => exact absurd ((naiveSearch_eq_some hpat).mp hs).1 (h o)

end Naive

/-! ## Borders -/

/-- The suffix of `pat` that starts at `p` is also a prefix. -/
def BorderAt (pat : List α) (p : ℕ) : Prop :=
  ∀ k, p + k < pat.length → pat[p + k]? = pat[k]?

theorem borderAt_iff_drop (pat : List α) (p : ℕ) : BorderAt pat p ↔ pat.drop p <+: pat := by
  rw [List.prefix_iff_getElem?]
  constructor
  · intro h k hk
    rw [List.length_drop] at hk
    rw [← h k (by omega), List.getElem_drop, List.getElem?_eq_getElem (by omega)]
  · intro h k hk
    have hget := h k (by rw [List.length_drop]; omega)
    rw [List.getElem_drop] at hget
    rw [hget, List.getElem?_eq_getElem hk]

instance [DecidableEq α] (pat : List α) (p : ℕ) : Decidable (BorderAt pat p) :=
  decidable_of_iff _ (borderAt_iff_drop pat p).symm

/-- A pattern with a border behind its first character has a leftmost one. -/
theorem exists_first_border {pat : List α} {p : ℕ} (hp : 0 < p) (hb : BorderAt pat p) :
    ∃ p', 0 < p' ∧ p' ≤ p ∧ BorderAt pat p' ∧ ∀ q, 0 < q → q < p' → ¬ BorderAt pat q := by
  classical
  have hex : ∃ p', 0 < p' ∧ BorderAt pat p' := ⟨p, hp, hb⟩
  exact ⟨Nat.find hex, (Nat.find_spec hex).1, Nat.find_min' hex ⟨hp, hb⟩, (Nat.find_spec hex).2,
    fun q hq hlt hbq => Nat.find_min hex hlt ⟨hq, hbq⟩⟩

/-- All characters of `pat` are the same. -/
def Constant (pat : List α) : Prop := ∀ x ∈ pat, ∀ y ∈ pat, x = y

theorem Constant.borderAt {pat : List α} (h : Constant pat) (p : ℕ) : BorderAt pat p := by
  intro k hk
  rw [List.getElem?_eq_getElem hk, List.getElem?_eq_getElem (show k < pat.length by omega)]
  exact congrArg some (h _ (List.getElem_mem _) _ (List.getElem_mem _))

/-- Only a constant pattern has a border that starts at its second character. -/
theorem constant_of_borderAt_one {pat : List α} (h : BorderAt pat 1) : Constant pat := by
  have hfirst : ∀ k, k < pat.length → pat[k]? = pat[0]? := by
    intro k
    induction k with
    | zero => intro _; rfl
    | succ k ih =>
      intro hk
      rw [Nat.add_comm, h k (by omega), ih (by omega)]
  intro x hx y hy
  rcases List.getElem_of_mem hx with ⟨i, hi, rfl⟩
  rcases List.getElem_of_mem hy with ⟨j, hj, rfl⟩
  have hij := (hfirst i hi).trans (hfirst j hj).symm
  rw [List.getElem?_eq_getElem hi, List.getElem?_eq_getElem hj] at hij
  exact Option.some.inj hij

/-! ## Re-occurrences of a suffix -/

/-- Moving the pattern right by `s` puts the suffix behind `j` on an equal factor, with a
different character at `j`. -/
structure GoodShift (pat : List α) (j s : ℕ) : Prop where
  pos : 1 ≤ s
  le : s ≤ j
  suffix : ∀ x, j < x → x < pat.length → pat[x - s]? = pat[x]?
  differ : pat[j - s]? ≠ pat[j]?

/-- A pattern with a border beyond its second character has no good shift at that
character: the rest of the pattern would be one repeated character that differs from the
first one, which the border says it starts with. -/
theorem not_goodShift_one {pat : List α} {p s : ℕ} (hb : BorderAt pat p) (hp : 2 ≤ p)
    (hpn : p < pat.length) : ¬ GoodShift pat 1 s := by
  intro hg
  have hs : s = 1 := by have := hg.pos; have := hg.le; omega
  subst hs
  have hrest : ∀ k, 1 + k < pat.length → pat[1 + k]? = pat[1]? := by
    intro k
    induction k with
    | zero => intro _; rfl
    | succ k ih =>
      intro hk
      have hstep := hg.suffix (1 + (k + 1)) (by omega) hk
      rw [← hstep, ← ih (by omega)]
      congr 1
  have h0 := hb 0 (by omega)
  have hpv := hrest (p - 1) (by omega)
  rw [show 1 + (p - 1) = p by omega] at hpv
  exact hg.differ (by rw [← hpv]; exact h0.symm)

/-! ## What a mismatch rules out -/

/-- With `pat` aligned at `a`, the characters behind `j` agree with the text and the one at
`j` does not. -/
structure MismatchAt (pat str : List α) (a j : ℕ) : Prop where
  lt : j < pat.length
  suffix : ∀ x, j < x → x < pat.length → str[a + x]? = pat[x]?
  differ : str[a + j]? ≠ pat[j]?

theorem MismatchAt.not_occursAt {pat str : List α} {a j : ℕ} (h : MismatchAt pat str a j) :
    ¬ OccursAt pat str a := fun hocc => h.differ (hocc j h.lt)

/-- An alignment has one rightmost mismatch. -/
theorem MismatchAt.unique {pat str : List α} {a j j' : ℕ} (h : MismatchAt pat str a j)
    (h' : MismatchAt pat str a j') : j = j' := by
  have hle : j' ≤ j := Nat.le_of_not_lt fun hlt => h'.differ (h.suffix j' hlt h'.lt)
  have hge : j ≤ j' := Nat.le_of_not_lt fun hlt => h.differ (h'.suffix j hlt h.lt)
  omega

/-- An occurrence to the right of a mismatch is at a good shift or at a border. -/
theorem MismatchAt.shift_cases {pat str : List α} {a j s : ℕ} (h : MismatchAt pat str a j)
    (hs : 1 ≤ s) (hocc : OccursAt pat str (a + s)) :
    GoodShift pat j s ∨ (j < s ∧ BorderAt pat s) := by
  have hlt := h.lt
  by_cases hsj : s ≤ j
  · -- the shifted pattern still covers the mismatch
    have hback : ∀ x, s ≤ x → x < pat.length → pat[x - s]? = str[a + x]? := by
      intro x hsx hx
      rw [← hocc (x - s) (by omega)]
      congr 1
      omega
    refine Or.inl ⟨hs, hsj, ?_, ?_⟩
    · intro x hjx hx
      rw [hback x (by omega) hx, h.suffix x hjx hx]
    · rw [hback j hsj hlt]
      exact h.differ
  · -- it is past the mismatch, and the matched suffix starts with it
    refine Or.inr ⟨by omega, ?_⟩
    intro k hk
    rw [← h.suffix (s + k) (by omega) hk, ← hocc k (by omega)]
    congr 1
    omega

/-- A shift that is no larger than any good shift and stops at the first border behind `j`
skips no occurrence. -/
theorem MismatchAt.skip_suffix {pat str : List α} {a j d : ℕ} (h : MismatchAt pat str a j)
    (hgood : ∀ s, s < d → ¬ GoodShift pat j s)
    (hborder : ∀ s, j < s → s < d → ¬ BorderAt pat s) :
    ∀ o, a < o → o < a + d → ¬ OccursAt pat str o := by
  intro o hao hod hocc
  rw [show o = a + (o - a) by omega] at hocc
  rcases h.shift_cases (by omega) hocc with hg | ⟨hj, hb⟩
  · exact hgood _ (by omega) hg
  · exact hborder _ hj (by omega) hb

/-- If `c` is not among the last `v - 1` characters of `pat` but the very last, a mismatch
against `c` at `j` rules out every alignment before the one that lines up position
`n - 1 - v` with it. -/
theorem skip_char {pat str : List α} {a j v : ℕ} {c : α} (hlt : j < pat.length)
    (hc : str[a + j]? = some c) (hv : v ≤ pat.length)
    (hlast : ∀ q, q + 1 < pat.length → pat.length < q + 1 + v → pat[q]? ≠ some c) :
    ∀ o, a < o → o + pat.length < a + j + v + 1 → ¬ OccursAt pat str o := by
  intro o hao hov hocc
  -- the position of the pattern that the occurrence puts on the mismatch
  have hget := hocc (a + j - o) (by omega)
  rw [show o + (a + j - o) = a + j by omega, hc] at hget
  exact hlast (a + j - o) (by omega) (by omega) hget.symm

/-! ## A text that a skip past a border loses -/

/-- A text of length `N` in which `pat` occurs at `p`, with `c` in front of the part of the
pattern that a border at `p` keeps. -/
def overlapText (pat : List α) (p N : ℕ) (c : α) : List α :=
  [c, c] ++ (pat.take p).drop 2 ++ pat ++ List.replicate (N - p - pat.length) c

section Overlap
variable {pat : List α} {p N : ℕ} {c : α}

theorem length_overlapText (hp : 2 ≤ p) (hpn : p < pat.length) (hN : p + pat.length ≤ N) :
    (overlapText pat p N c).length = N := by
  simp only [overlapText, List.length_append, List.length_cons, List.length_nil,
    List.length_drop, List.length_take, List.length_replicate]
  omega

private theorem overlapText_prefix_length (hp : 2 ≤ p) (hpn : p < pat.length) :
    ([c, c] ++ (pat.take p).drop 2).length = p := by
  simp only [List.length_append, List.length_cons, List.length_nil, List.length_drop,
    List.length_take]
  omega

theorem overlapText_occursAt (hp : 2 ≤ p) (hpn : p < pat.length) :
    OccursAt pat (overlapText pat p N c) p := by
  intro k hk
  have hlen := overlapText_prefix_length (c := c) hp hpn
  rw [overlapText, List.append_assoc, List.getElem?_append_right (by omega), hlen,
    Nat.add_sub_cancel_left, List.getElem?_append_left hk]

theorem overlapText_mismatchAt (hp : 2 ≤ p) (hpn : p < pat.length) (hb : BorderAt pat p)
    (hc : pat[1]? ≠ some c) : MismatchAt pat (overlapText pat p N c) 0 1 := by
  refine ⟨by omega, ?_, ?_⟩
  · intro x hx hxn
    rw [Nat.zero_add]
    by_cases hxp : x < p
    · rw [overlapText, List.append_assoc, List.append_assoc,
        List.getElem?_append_right (show [c, c].length ≤ x from hx),
        List.getElem?_append_left (by simp; omega), List.getElem?_drop,
        List.getElem?_take]
      simp only [List.length_cons, List.length_nil]
      rw [if_pos (by omega)]
      congr 1
      omega
    · -- behind the border the occurrence at `p` repeats the pattern itself
      have hocc := overlapText_occursAt (N := N) (c := c) hp hpn (x - p) (by omega)
      have hbx := hb (x - p) (by omega)
      rw [show p + (x - p) = x by omega] at hocc hbx
      rw [hocc, hbx]
  · intro heq
    exact hc (by rw [← heq]; rfl)

end Overlap

end Matching
