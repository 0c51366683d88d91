import MeizuSm8150.Ota.ReleasetoolsTheorems

/-!
# Line ends

An `android-info.txt` with carriage returns in front of its line feeds gives the same script: the
places and the texts behind them are the same up to the line ends, and a carriage return at the
end of a version is stripped.
-/

namespace MeizuSm8150.Ota

open CMachine CDecimal Regex Spans

/-- A carriage return in front of every line feed. -/
def crlf (s : Mem) : Mem := s.flatMap fun b => if b = 10 then [13, 10] else [b]

@[simp] theorem crlf_nil : crlf [] = [] := rfl

theorem crlf_cons_newline (s : Mem) : crlf (10 :: s) = 13 :: 10 :: crlf s := rfl

theorem crlf_cons {b : UInt8} (h : b ≠ 10) (s : Mem) : crlf (b :: s) = b :: crlf s := by
  rw [crlf, List.flatMap_cons, if_neg h]
  rfl

theorem crlf_append (s s' : Mem) : crlf (s ++ s') = crlf s ++ crlf s' := List.flatMap_append

theorem crlf_of_not_mem {s : Mem} (h : 10 ∉ s) : crlf s = s := by
  induction s with
  | nil => rfl
  | cons b s ih =>
    rw [List.mem_cons, not_or] at h
    rw [crlf_cons (Ne.symm h.1), ih h.2]

theorem crlf_ne_nil {s : Mem} (h : s ≠ []) : crlf s ≠ [] := by
  obtain ⟨b, s, rfl⟩ := List.exists_cons_of_ne_nil h
  by_cases hb : b = 10
  · rw [hb, crlf_cons_newline]
    exact List.cons_ne_nil _ _
  · rw [crlf_cons hb]
    exact List.cons_ne_nil _ _

/-- Line ends do not change what a text starts with. -/
theorem crlf_eq_append {lit : Mem} (h10 : 10 ∉ lit) (h13 : 13 ∉ lit) {s rest : Mem}
    (h : crlf s = lit ++ rest) : ∃ s', s = lit ++ s' ∧ crlf s' = rest := by
  induction lit generalizing s with
  | nil => exact ⟨s, rfl, h⟩
  | cons c lit ih =>
    rw [List.mem_cons, not_or] at h10 h13
    cases s with
    | nil => cases h
    | cons b s =>
      by_cases hb : b = 10
      · rw [hb, crlf_cons_newline] at h
        exact absurd (List.cons.inj h).1 h13.1
      · rw [crlf_cons hb, List.cons_append] at h
        rcases List.cons.inj h with ⟨rfl, htail⟩
        obtain ⟨s', rfl, hs'⟩ := ih h10.2 h13.2 htail
        exact ⟨s', rfl, hs'⟩

/-! ## White space -/

theorem spaces_crlf {s : Mem} (h : ∀ b ∈ s, isSpace b = true) : ∀ b ∈ crlf s, isSpace b = true := by
  intro b hb
  obtain ⟨a, ha, hba⟩ := List.mem_flatMap.mp hb
  by_cases h10 : a = 10
  · rw [if_pos h10] at hba
    rcases List.mem_pair.mp hba with rfl | rfl
    · decide
    · decide
  · rw [if_neg h10, List.mem_singleton] at hba
    rw [hba]
    exact h a ha

theorem stops_crlf {s : Mem} (h : Stops isSpace s) : Stops isSpace (crlf s) := by
  cases s with
  | nil => exact stops_nil
  | cons b s =>
    rw [stops_cons] at h
    have h10 : b ≠ 10 := by
      rintro rfl
      cases h
    rw [crlf_cons h10]
    exact stops_cons.mpr h

theorem crlf_split (s : Mem) : crlf s = crlf (s.takeWhile isSpace) ++ crlf (s.dropWhile isSpace) := by
  rw [← crlf_append, List.takeWhile_append_dropWhile]

theorem dropWhile_crlf (s : Mem) : (crlf s).dropWhile isSpace = crlf (s.dropWhile isSpace) := by
  rw [crlf_split, dropWhile_append (spaces_crlf fun b hb => List.mem_takeWhile_imp hb)
    (stops_crlf (stops_dropWhile s))]

theorem takeWhile_crlf (s : Mem) : (crlf s).takeWhile isSpace = crlf (s.takeWhile isSpace) := by
  rw [crlf_split, takeWhile_append (spaces_crlf fun b hb => List.mem_takeWhile_imp hb)
    (stops_crlf (stops_dropWhile s))]

/-- White space in front of something else. -/
theorem crlf_eq_spaces {s space rest : Mem} (hspace : ∀ b ∈ space, isSpace b = true)
    (hrest : Stops isSpace rest) (h : crlf s = space ++ rest) :
    space = crlf (s.takeWhile isSpace) ∧ rest = crlf (s.dropWhile isSpace) := by
  rw [← takeWhile_crlf, ← dropWhile_crlf, h, takeWhile_append hspace hrest,
    dropWhile_append hspace hrest]
  exact ⟨rfl, rfl⟩

/-! ## Places -/

theorem Place.crlf {l gap rest : Mem} (h : Place l gap rest) :
    Place (Ota.crlf l) (Ota.crlf gap) (Ota.crlf rest) := by
  obtain ⟨space, hne, hspace, hgap, rfl⟩ := h
  refine ⟨Ota.crlf space, crlf_ne_nil hne, spaces_crlf hspace, spaces_crlf hgap, ?_⟩
  have hrequire : Ota.crlf (ascii "require") = ascii "require" := crlf_of_not_mem (by decide)
  have hname : Ota.crlf (ascii "version-modem") = ascii "version-modem" :=
    crlf_of_not_mem (by decide)
  have hequals : Ota.crlf (ascii "=") = ascii "=" := crlf_of_not_mem (by decide)
  rw [crlf_append, crlf_append, crlf_append, crlf_append, crlf_append, hrequire, hname, hequals]

theorem place_of_crlf {l gap rest : Mem} (h : Place (crlf l) gap rest) :
    ∃ gap' rest', Place l gap' rest' := by
  obtain ⟨space, hne, hspace, hgap, hl⟩ := h
  -- the parts of the place are taken off the changed text one by one
  obtain ⟨l₁, rfl, h₁⟩ := crlf_eq_append (by decide) (by decide) hl
  rcases crlf_eq_spaces hspace (stops_append (by decide) _) h₁ with ⟨hs, h₂⟩
  obtain ⟨l₃, hl₃, h₃⟩ := crlf_eq_append (by decide) (by decide) h₂.symm
  rcases crlf_eq_spaces hgap (stops_append (by decide) _) h₃ with ⟨-, h₄⟩
  obtain ⟨l₅, hl₅, -⟩ := crlf_eq_append (by decide) (by decide) h₄.symm
  refine ⟨l₃.takeWhile isSpace, l₅, l₁.takeWhile isSpace, fun hnil => ?_,
    fun b hb => List.mem_takeWhile_imp hb, fun b hb => List.mem_takeWhile_imp hb, ?_⟩
  · rw [hnil] at hs
    exact hne hs
  · rw [← hl₅, List.takeWhile_append_dropWhile, ← hl₃, List.takeWhile_append_dropWhile]

/-- A suffix is one of the text with its line ends changed, or starts between the two characters
of a line end. -/
theorem drop_crlf (s : Mem) (j : ℕ) (hj : j ≤ (crlf s).length) :
    (∃ i, i ≤ s.length ∧ (crlf s).drop j = crlf (s.drop i) ∧ (crlf (s.take i)).length = j) ∨
      ∃ s', (crlf s).drop j = 10 :: s' := by
  induction s generalizing j with
  | nil =>
    obtain rfl : j = 0 := Nat.le_zero.mp hj
    exact Or.inl ⟨0, le_rfl, rfl, rfl⟩
  | cons b s ih =>
    by_cases hb : b = 10
    · rw [hb, crlf_cons_newline] at hj ⊢
      match j with
      | 0 => exact Or.inl ⟨0, Nat.zero_le _, rfl, rfl⟩
      | 1 => exact Or.inr ⟨crlf s, rfl⟩
      | j + 2 =>
        rcases ih j (by simpa using hj) with ⟨i, hi, hdrop, hlen⟩ | ⟨s', hs'⟩
        · refine Or.inl ⟨i + 1, Nat.succ_le_succ hi, hdrop, ?_⟩
          rw [List.take_succ_cons, crlf_cons_newline, List.length_cons, List.length_cons, hlen]
        · exact Or.inr ⟨s', hs'⟩
    · rw [crlf_cons hb] at hj ⊢
      match j with
      | 0 => exact Or.inl ⟨0, Nat.zero_le _, (crlf_cons hb s).symm, rfl⟩
      | j + 1 =>
        rcases ih j (by simpa using hj) with ⟨i, hi, hdrop, hlen⟩ | ⟨s', hs'⟩
        · refine Or.inl ⟨i + 1, Nat.succ_le_succ hi, hdrop, ?_⟩
          rw [List.take_succ_cons, crlf_cons hb, List.length_cons, hlen]
        · exact Or.inr ⟨s', hs'⟩

/-- A place in the changed text comes from one further left in the text. -/
theorem place_of_drop_crlf {text gap rest : Mem} {j : ℕ} (hj : j ≤ (crlf text).length)
    (h : Place ((crlf text).drop j) gap rest) : ∃ i gap' rest', i ≤ text.length ∧
      (crlf (text.take i)).length = j ∧ Place (text.drop i) gap' rest' := by
  rcases drop_crlf text j hj with ⟨i, hi, hdrop, hlen⟩ | ⟨s', hs'⟩
  · rw [hdrop] at h
    obtain ⟨gap', rest', hplace⟩ := place_of_crlf h
    exact ⟨i, gap', rest', hi, hlen, hplace⟩
  · -- a place starts with a letter
    obtain ⟨space, -, -, -, hl⟩ := h
    rw [hs'] at hl
    cases hl

theorem FirstPlace.crlf {text gap rest : Mem} (h : FirstPlace text gap rest) :
    FirstPlace (Ota.crlf text) (Ota.crlf gap) (Ota.crlf rest) := by
  obtain ⟨o, ho, hplace, hfirst⟩ := h
  have hsplit : Ota.crlf text = Ota.crlf (text.take o) ++ Ota.crlf (text.drop o) := by
    rw [← crlf_append, List.take_append_drop]
  have hlen := congrArg List.length hsplit
  rw [List.length_append] at hlen
  refine ⟨(Ota.crlf (text.take o)).length, by omega, ?_, fun j hj gap' rest' hplace' => ?_⟩
  · rw [hsplit, List.drop_left]
    exact hplace.crlf
  · obtain ⟨i, gap', rest', hi, hlen', hplace''⟩ := place_of_drop_crlf (by omega) hplace'
    refine hfirst i ?_ gap' rest' hplace''
    by_contra hle
    have hmono : (Ota.crlf (text.take o)).length ≤ (Ota.crlf (text.take i)).length := by
      rw [← List.take_append_drop o (text.take i), List.take_take, min_eq_left (by omega),
        crlf_append, List.length_append]
      exact Nat.le_add_right _ _
    omega

/-! ## The version -/

theorem takeWhile_notNewline_crlf (s : Mem) : (crlf s).takeWhile notNewline
    = s.takeWhile notNewline ∨
      (crlf s).takeWhile notNewline = s.takeWhile notNewline ++ [13] := by
  induction s with
  | nil => exact Or.inl rfl
  | cons b s ih =>
    by_cases hb : b = 10
    · rw [hb, crlf_cons_newline, List.takeWhile_cons_of_pos (by decide),
        List.takeWhile_cons_of_neg (by decide), List.takeWhile_cons_of_neg (by decide)]
      exact Or.inr rfl
    · have hline : notNewline b = true := decide_eq_true hb
      rw [crlf_cons hb, List.takeWhile_cons_of_pos hline, List.takeWhile_cons_of_pos hline]
      rcases ih with h | h
      · exact Or.inl (by rw [h])
      · exact Or.inr (by rw [h, List.cons_append])

/-- The carriage return behind the version is stripped. -/
theorem nextText_crlf (rest : Mem) : nextText (crlf rest) = nextText rest := by
  rw [nextText, nextText, dropWhile_crlf]
  rcases takeWhile_notNewline_crlf (rest.dropWhile isSpace) with h | h
  · rw [h]
  · rw [h, rstrip, rstrip, List.rdropWhile_concat_pos _ _ _ (by decide)]

/-- The hooks do not see the line ends. -/
theorem addModemAssertion_crlf (text : Mem) (script : List Mem) :
    (addModemAssertion ⟨crlf text, script⟩).script = (addModemAssertion ⟨text, script⟩).script ∧
      (fullOTAAssertions ⟨crlf text, script⟩).script
        = (fullOTAAssertions ⟨text, script⟩).script ∧
      (incrementalOTAAssertions ⟨crlf text, script⟩).script
        = (incrementalOTAAssertions ⟨text, script⟩).script := by
  have hadd : (addModemAssertion ⟨crlf text, script⟩).script
      = (addModemAssertion ⟨text, script⟩).script := by
    by_cases hplace : ∃ o, o ≤ text.length ∧ ∃ gap rest, Place (text.drop o) gap rest
    · obtain ⟨o, ho, _, _, hplace⟩ := hplace
      obtain ⟨gap, rest, hfirst⟩ := exists_firstPlace ho hplace
      rw [script_of_firstPlace hfirst, script_of_firstPlace hfirst.crlf, nextText_crlf]
    · have hno : ∀ o, o ≤ text.length → ∀ gap rest, ¬ Place (text.drop o) gap rest :=
        fun o ho gap rest h => hplace ⟨o, ho, gap, rest, h⟩
      rw [script_of_noPlace hno]
      refine script_of_noPlace (fun j hj gap rest h => ?_) script
      obtain ⟨i, gap', rest', hi, -, hplace'⟩ := place_of_drop_crlf hj h
      exact hno i hi gap' rest' hplace'
  exact ⟨hadd, hadd, hadd⟩

end MeizuSm8150.Ota
