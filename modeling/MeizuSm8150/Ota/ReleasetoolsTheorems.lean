import MeizuSm8150.Ota.Releasetools
import Mathlib.Data.Nat.Find

/-!
# Where the required version comes from

A place that requires a version is `require`, white space, `version-modem`, more white space and
`=`. The search takes the first of them, whether its `=` is on the line of `version-modem` or
not, and from there the first line that is not blank. `addModemAssertion_iff` says for which
texts that is the rest of the line of the first place written on a single line.
-/

namespace MeizuSm8150.Ota

open CMachine CDecimal Regex Spans

/-! ## Places -/

/-- `l` starts with a requirement: `gap` is the white space in front of the `=`, `rest` all that
is behind it. -/
def Place (l gap rest : Mem) : Prop :=
  ∃ space : Mem, space ≠ [] ∧ (∀ b ∈ space, isSpace b = true) ∧ (∀ b ∈ gap, isSpace b = true) ∧
    l = ascii "require" ++ (space ++ (ascii "version-modem" ++ (gap ++ (ascii "=" ++ rest))))

/-- What is behind `version-modem`. -/
theorem Place.afterName {l gap rest : Mem} (h : Place l gap rest) :
    ((l.drop 7).dropWhile isSpace).drop 13 = gap ++ (ascii "=" ++ rest) := by
  obtain ⟨space, -, hspace, -, rfl⟩ := h
  rw [List.drop_left' (by decide), dropWhile_append hspace (stops_append (by decide) _),
    List.drop_left' (by decide)]

theorem Place.unique {l gap rest gap' rest' : Mem} (h : Place l gap rest)
    (h' : Place l gap' rest') : gap = gap' ∧ rest = rest' := by
  have hafter := h.afterName
  rw [h'.afterName] at hafter
  obtain ⟨-, -, -, hgap, -⟩ := h
  obtain ⟨-, -, -, hgap', -⟩ := h'
  have hstops : ∀ r : Mem, Stops isSpace (ascii "=" ++ r) := stops_append (by decide)
  have htake := congrArg (List.takeWhile isSpace) hafter
  rw [takeWhile_append hgap (hstops _), takeWhile_append hgap' (hstops _)] at htake
  refine ⟨htake.symm, ?_⟩
  rw [htake] at hafter
  exact (List.append_cancel_left (List.append_cancel_left hafter)).symm

/-- Up to its end there is no other `=`, so a blank rest leaves room for no other rest. -/
theorem Place.rest_eq {l gap rest gap' rest' : Mem} {d : ℕ} (h : Place l gap rest)
    (hblank : ∀ b ∈ rest, isSpace b = true) (h' : Place (l.drop d) gap' rest') : rest' = rest := by
  have hspaces : ∀ u : Mem, (∀ b ∈ u, isSpace b = true) → 61 ∉ u := by
    intro u hu hmem
    exact absurd (hu 61 hmem) (by decide)
  obtain ⟨space, -, hspace, hgap, hl⟩ := h
  obtain ⟨space', -, -, -, hl'⟩ := h'
  have hsplit : (ascii "require" ++ (space ++ (ascii "version-modem" ++ gap))) ++ 61 :: rest
      = (l.take d ++ (ascii "require" ++ (space' ++ (ascii "version-modem" ++ gap')))) ++
        61 :: rest' := by
    have hcut := List.take_append_drop d l
    rw [hl'] at hcut
    have heq : ∀ r : Mem, ascii "=" ++ r = 61 :: r := fun _ => rfl
    rw [heq] at hcut hl
    simp only [List.append_assoc]
    rw [hcut, hl]
  have hfront : 61 ∉ ascii "require" ++ (space ++ (ascii "version-modem" ++ gap)) := by
    simp only [List.mem_append, not_or]
    exact ⟨by decide, hspaces _ hspace, by decide, hspaces _ hgap⟩
  exact ((List.append_cons_inj_of_notMem hfront (hspaces _ hblank)).mp hsplit).2.2.symm

/-! ## What the search finds -/

theorem run_of_place {l gap rest : Mem} (h : Place l gap rest) :
    requirePattern.matchAt l = valuePattern.matchAt rest := by
  obtain ⟨space, hne, hspace, hgap, rfl⟩ := h
  obtain ⟨a, w, rfl⟩ := List.exists_cons_of_ne_nil hne
  have ha := hspace a List.mem_cons_self
  have hw : ∀ b ∈ w, isSpace b = true := fun b hb => hspace b (List.mem_cons_of_mem a hb)
  have hname : (ascii "version-modem").head?.map isSpace = some false := by decide
  have hequals : (ascii "=").head?.map isSpace = some false := by decide
  rw [Pattern.matchAt, requirePattern, run_seq, run_literal_append, run_seq, List.cons_append,
    run_plus_cons ha, run_seq, run_star_literal hname,
    dropWhile_append hw (stops_append hname _), run_literal_append, run_seq, run_seq,
    run_star_literal hequals, dropWhile_append hgap (stops_append hequals _), run_literal_append]
  rfl

/-- A match needs a place. -/
theorem place_of_match {l : Mem} {c : Cursor UInt8} (h : requirePattern.matchAt l = some c) :
    ∃ gap rest, Place l gap rest := by
  obtain ⟨u, v, -, hl, hu, -⟩ := run_sound h
  obtain ⟨require, u, rfl, hrequire, space, u', rfl, hspace, name, u, rfl, hname, gap, u', rfl,
    hgap, equals, value, rfl, hequals, -⟩ := hu
  rw [matches_literal.mp hrequire, matches_literal.mp hname, matches_literal.mp hequals] at hl
  obtain ⟨hne, hspace⟩ := matches_plus.mp hspace
  dsimp only at hl
  simp only [List.append_assoc] at hl
  exact ⟨gap, value ++ v, space, hne, hspace, hgap, hl⟩

/-- With something behind the `=` that is not white space, the group takes it to the end of its
line. -/
theorem matchAt_of_cons {l gap rest r : Mem} {a : UInt8} (h : Place l gap rest)
    (hrest : rest.dropWhile isSpace = a :: r) : requirePattern.matchAt l
      = some ⟨r.dropWhile notNewline, some ((a :: r).takeWhile notNewline)⟩ := by
  have ha : isSpace a = false := by
    have hstops := stops_dropWhile (p := isSpace) rest
    rwa [hrest, stops_cons] at hstops
  have hline : notNewline a = true := by
    apply decide_eq_true
    intro h10
    rw [h10] at ha
    cases ha
  rw [List.takeWhile_cons_of_pos hline, run_of_place h, Pattern.matchAt, valuePattern, run_seq]
  refine greedy_of_some ?_
  dsimp only
  rw [hrest, run_group_plus hline]

/-- With nothing but white space there, the group takes some of it, if anything. -/
theorem group_of_blank {l gap rest : Mem} {c : Cursor UInt8} (h : Place l gap rest)
    (hblank : ∀ b ∈ rest, isSpace b = true) (hc : requirePattern.matchAt l = some c) :
    ∃ g, c.group = some g ∧ ∀ b ∈ g, isSpace b = true := by
  rw [run_of_place h, Pattern.matchAt, valuePattern, run_seq] at hc
  obtain ⟨u, v, rfl, -, hv⟩ := greedy_sound hc
  cases v with
  | nil => cases hv
  | cons a v =>
    by_cases ha : notNewline a = true
    · rw [run_group_plus ha] at hv
      obtain rfl := Option.some.inj hv
      refine ⟨_, rfl, fun b hb => hblank b (List.mem_append_right u ?_)⟩
      rcases List.mem_cons.mp hb with rfl | hb
      · exact List.mem_cons_self
      · exact List.mem_cons_of_mem a (List.takeWhile_subset notNewline hb)
    · rw [Pattern.run, plus, run_seq, Pattern.run, single, if_neg ha] at hv
      cases hv

/-! ## What is appended -/

/-- A version that is compared. -/
def Usable (version : Mem) : Prop := version ≠ [] ∧ 42 ∉ version

instance (version : Mem) : Decidable (Usable version) := inferInstanceAs (Decidable (_ ∧ _))

/-- The rest of the line, stripped on both sides. -/
def value (rest : Mem) : Mem := rstrip ((rest.takeWhile notNewline).dropWhile isSpace)

/-- The first line that is not blank, stripped on both sides. -/
def nextText (rest : Mem) : Mem := rstrip ((rest.dropWhile isSpace).takeWhile notNewline)

theorem rstrip_eq_nil {s : Mem} : rstrip s = [] ↔ ∀ b ∈ s, isSpace b = true := by
  rw [rstrip, List.rdropWhile_eq_nil_iff]

theorem nextText_of_blank {rest : Mem} (h : rest.dropWhile isSpace = []) : nextText rest = [] := by
  rw [nextText, h]
  rfl

/-- A value on the line is the first text behind the `=`. -/
theorem nextText_eq_value {rest : Mem} (h : value rest ≠ []) : nextText rest = value rest := by
  have hne : (rest.takeWhile notNewline).dropWhile isSpace ≠ [] := by
    intro hnil
    rw [value, hnil] at h
    exact h rfl
  -- the line is not blank, so the white space in front ends on it
  have hskip : rest.dropWhile isSpace
      = (rest.takeWhile notNewline).dropWhile isSpace ++ rest.dropWhile notNewline := by
    have hsplit := List.takeWhile_append_dropWhile (p := notNewline) (l := rest)
    rw [← hsplit, List.dropWhile_append, if_neg (by simpa using hne), hsplit]
  have hline : ∀ b ∈ (rest.takeWhile notNewline).dropWhile isSpace, notNewline b = true :=
    fun b hb => List.mem_takeWhile_imp ((List.dropWhile_suffix isSpace).subset hb)
  rw [nextText, hskip, takeWhile_append hline (stops_dropWhile rest), value]

/-- The first place of `text`, line ends in front of the `=` allowed. -/
def FirstPlace (text gap rest : Mem) : Prop :=
  ∃ o, o ≤ text.length ∧ Place (text.drop o) gap rest ∧
    ∀ j, j < o → ∀ gap' rest', ¬ Place (text.drop j) gap' rest'

theorem matchAt_before {text : Mem} {o : ℕ}
    (h : ∀ j, j < o → ∀ gap rest, ¬ Place (text.drop j) gap rest) :
    ∀ j, j < o → requirePattern.matchAt (text.drop j) = none := by
  intro j hj
  cases hm : requirePattern.matchAt (text.drop j) with
  | none => rfl
  | some c =>
    obtain ⟨gap, rest, hplace⟩ := place_of_match hm
    exact absurd hplace (h j hj gap rest)

/-- The script with the command for a usable version behind it. -/
def appended (script : List Mem) (version : Mem) : List Mem :=
  if Usable version then script ++ [command version] else script

theorem appended_of_not {version : Mem} (h : ¬ Usable version) (script : List Mem) :
    appended script version = script := if_neg h

theorem appended_nil (script : List Mem) : appended script [] = script :=
  appended_of_not (fun h => h.1 rfl) script

theorem command_inj {u v : Mem} (h : command u = command v) : u = v := by
  rw [command, command, List.append_assoc, List.append_assoc] at h
  exact List.append_cancel_right (List.append_cancel_left h)

/-- Two versions give the same script when they are the same or both not usable. -/
theorem appended_eq_iff {u v : Mem} : (∀ script, appended script u = appended script v) ↔
    (Usable u ∨ Usable v → u = v) := by
  have hne : ∀ w : Mem, [] ≠ [] ++ [command w] := fun w => by simp
  constructor
  · intro h huv
    have hnil := h []
    by_cases hu : Usable u
    · by_cases hv : Usable v
      · rw [appended, appended, if_pos hu, if_pos hv] at hnil
        exact command_inj (List.cons.inj hnil).1
      · rw [appended, appended, if_pos hu, if_neg hv] at hnil
        exact absurd hnil.symm (hne u)
    · have hv := huv.resolve_left hu
      rw [appended, appended, if_neg hu, if_pos hv] at hnil
      exact absurd hnil (hne v)
  · intro h script
    by_cases huv : Usable u ∨ Usable v
    · rw [h huv]
    · rw [not_or] at huv
      rw [appended_of_not huv.1, appended_of_not huv.2]

theorem appended_eq_self_iff {v : Mem} : (∀ script, appended script v = script) ↔ ¬ Usable v := by
  constructor
  · intro h hv
    have hnil := h []
    rw [appended, if_pos hv] at hnil
    cases hnil
  · exact fun hv script => appended_of_not hv script

theorem script_of_group {text g : Mem} {c : Cursor UInt8} (hs : requirePattern.search text = some c)
    (hg : c.group = some g) (script : List Mem) :
    (addModemAssertion ⟨text, script⟩).script = appended script (rstrip g) := by
  rw [addModemAssertion, hs, Option.bind_some, hg, appended]
  by_cases h : Usable (rstrip g)
  · rw [if_pos h]
    dsimp only
    rw [if_pos ⟨fun hlen => h.1 (List.length_eq_zero_iff.mp hlen), h.2⟩]
  · rw [if_neg h]
    dsimp only
    rw [if_neg fun hcond => h ⟨fun hnil => hcond.1 (List.length_eq_zero_iff.mpr hnil), hcond.2⟩]

theorem script_of_unmatched {text : Mem} (hs : requirePattern.search text = none)
    (script : List Mem) : (addModemAssertion ⟨text, script⟩).script = script := by
  rw [addModemAssertion, hs]
  rfl

/-- From the first place on, the command is for the first text behind the `=`. -/
theorem script_of_firstPlace {text gap rest : Mem} (h : FirstPlace text gap rest)
    (script : List Mem) :
    (addModemAssertion ⟨text, script⟩).script = appended script (nextText rest) := by
  obtain ⟨o, ho, hplace, hfirst⟩ := h
  have hbefore := matchAt_before hfirst
  cases hrest : rest.dropWhile isSpace with
  | cons a r =>
    have hsearch := search_eq_some.mpr ⟨o, ho, matchAt_of_cons hplace hrest, hbefore⟩
    rw [script_of_group hsearch rfl, nextText, hrest]
  | nil =>
    have hblank := List.dropWhile_eq_nil_iff.mp hrest
    rw [nextText_of_blank hrest, appended_nil]
    cases hs : requirePattern.search text with
    | none => exact script_of_unmatched hs script
    | some c =>
      -- a match further right would be at the same `=`
      obtain ⟨i, -, hmatch, -⟩ := search_eq_some.mp hs
      obtain ⟨gap', rest', hplace'⟩ := place_of_match hmatch
      have hoi : o ≤ i := by
        by_contra hlt
        exact hfirst i (by omega) gap' rest' hplace'
      have hshift : Place ((text.drop o).drop (i - o)) gap' rest' := by
        rwa [List.drop_drop, show o + (i - o) = i by omega]
      have hrest' : rest' = rest := hplace.rest_eq hblank hshift
      obtain ⟨g, hg, hspaces⟩ := group_of_blank hplace' (hrest' ▸ hblank) hmatch
      rw [script_of_group hs hg, rstrip_eq_nil.mpr hspaces, appended_nil]

/-- Without a place nothing is appended. -/
theorem script_of_noPlace {text : Mem}
    (h : ∀ o, o ≤ text.length → ∀ gap rest, ¬ Place (text.drop o) gap rest) (script : List Mem) :
    (addModemAssertion ⟨text, script⟩).script = script := by
  refine script_of_unmatched (search_eq_none fun i hi => ?_) script
  exact matchAt_before (fun j hj => h j (by omega)) i (Nat.lt_succ_self i)

/-! ## The line of the first place -/

theorem exists_firstPlace {text gap rest : Mem} {o : ℕ} (ho : o ≤ text.length)
    (h : Place (text.drop o) gap rest) : ∃ gap rest, FirstPlace text gap rest := by
  classical
  have hex : ∃ o, o ≤ text.length ∧ ∃ gap rest, Place (text.drop o) gap rest :=
    ⟨o, ho, gap, rest, h⟩
  obtain ⟨hle, gap, rest, hplace⟩ := Nat.find_spec hex
  exact ⟨gap, rest, Nat.find hex, hle, hplace, fun j hj gap' rest' hplace' =>
    Nat.find_min hex hj ⟨by omega, gap', rest', hplace'⟩⟩

theorem FirstPlace.unique {text gap rest gap' rest' : Mem} (h : FirstPlace text gap rest)
    (h' : FirstPlace text gap' rest') : gap = gap' ∧ rest = rest' := by
  obtain ⟨o, -, hplace, hfirst⟩ := h
  obtain ⟨o', -, hplace', hfirst'⟩ := h'
  rcases Nat.lt_trichotomy o o' with hlt | rfl | hlt
  · exact absurd hplace (hfirst' o hlt gap rest)
  · exact hplace.unique hplace'
  · exact absurd hplace' (hfirst o' hlt gap' rest')

/-- The first place of `text` that has its `=` on the line of `version-modem`. -/
def FirstLinePlace (text rest : Mem) : Prop :=
  ∃ o, o ≤ text.length ∧ (∃ gap, Place (text.drop o) gap rest ∧ 10 ∉ gap) ∧
    ∀ j, j < o → ∀ gap' rest', Place (text.drop j) gap' rest' → 10 ∈ gap'

theorem FirstLinePlace.unique {text rest rest' : Mem} (h : FirstLinePlace text rest)
    (h' : FirstLinePlace text rest') : rest = rest' := by
  obtain ⟨o, -, ⟨gap, hplace, hgap⟩, hfirst⟩ := h
  obtain ⟨o', -, ⟨gap', hplace', hgap'⟩, hfirst'⟩ := h'
  rcases Nat.lt_trichotomy o o' with hlt | rfl | hlt
  · exact absurd (hfirst' o hlt gap rest hplace) hgap
  · exact (hplace.unique hplace').2
  · exact absurd (hfirst o' hlt gap' rest' hplace') hgap'

theorem FirstPlace.onLine {text gap rest : Mem} (h : FirstPlace text gap rest) (hgap : 10 ∉ gap) :
    FirstLinePlace text rest := by
  obtain ⟨o, ho, hplace, hfirst⟩ := h
  exact ⟨o, ho, ⟨gap, hplace, hgap⟩, fun j hj gap' rest' hplace' =>
    absurd hplace' (hfirst j hj gap' rest')⟩

/-- The command is for the rest of the line of the first place on a single line, if that is
usable, and nothing else is appended. -/
def FromItsLine (hook : Info → Info) (text : Mem) : Prop :=
  ∀ script : List Mem,
    (∀ rest, FirstLinePlace text rest → value rest ≠ [] → 42 ∉ value rest →
      (hook ⟨text, script⟩).script = script ++ [command (value rest)]) ∧
    (∀ rest, FirstLinePlace text rest → value rest = [] ∨ 42 ∈ value rest →
      (hook ⟨text, script⟩).script = script) ∧
    ((∀ rest, ¬ FirstLinePlace text rest) → (hook ⟨text, script⟩).script = script)

theorem fromItsLine_of_linePlace {hook : Info → Info} {text rest : Mem}
    (h : FirstLinePlace text rest) : FromItsLine hook text ↔
      ∀ script, (hook ⟨text, script⟩).script = appended script (value rest) := by
  constructor
  · intro hline script
    obtain ⟨husable, hother, -⟩ := hline script
    by_cases hu : Usable (value rest)
    · rw [husable rest h hu.1 hu.2, appended, if_pos hu]
    · rw [appended_of_not hu]
      refine hother rest h ?_
      rwa [Usable, not_and_or, not_not, not_not] at hu
  · intro hscript script
    refine ⟨fun rest' h' hne hstar => ?_, fun rest' h' hor => ?_,
      fun hnone => absurd h (hnone rest)⟩
    · rw [hscript, h.unique h', appended, if_pos ⟨hne, hstar⟩]
    · rw [hscript, h.unique h', appended_of_not]
      rwa [Usable, not_and_or, not_not, not_not]

theorem fromItsLine_of_none {hook : Info → Info} {text : Mem}
    (h : ∀ rest, ¬ FirstLinePlace text rest) : FromItsLine hook text ↔
      ∀ script, (hook ⟨text, script⟩).script = script := by
  constructor
  · exact fun hline script => (hline script).2.2 h
  · exact fun hscript script => ⟨fun rest h' => absurd h' (h rest),
      fun rest h' => absurd h' (h rest), fun _ => hscript script⟩

/-- What the text has to be: the first place has its `=` on its line and either a value there, or
no usable text on the first line behind it that is not blank; or it has not, and that text and
the value of the first place on a single line are the same or both not usable. -/
def StaysOnLine (text : Mem) : Prop :=
  ∀ gap rest, FirstPlace text gap rest →
    (10 ∉ gap → value rest ≠ [] ∨ ¬ Usable (nextText rest)) ∧
    (10 ∈ gap →
      (∀ rest', FirstLinePlace text rest' → Usable (nextText rest) ∨ Usable (value rest') →
        nextText rest = value rest') ∧
      ((∀ rest', ¬ FirstLinePlace text rest') → ¬ Usable (nextText rest)))

/-- The condition speaks of one place only. -/
theorem FirstPlace.staysOnLine_iff {text gap rest : Mem} (h : FirstPlace text gap rest) :
    StaysOnLine text ↔
      (10 ∉ gap → value rest ≠ [] ∨ ¬ Usable (nextText rest)) ∧
      (10 ∈ gap →
        (∀ rest', FirstLinePlace text rest' → Usable (nextText rest) ∨ Usable (value rest') →
          nextText rest = value rest') ∧
        ((∀ rest', ¬ FirstLinePlace text rest') → ¬ Usable (nextText rest))) := by
  constructor
  · exact fun hstays => hstays gap rest h
  · intro hcond gap' rest' h'
    obtain ⟨rfl, rfl⟩ := h.unique h'
    exact hcond

/-- The first text behind the `=` gives the same as the value of the line exactly if there is a
value, or nothing usable. -/
theorem nextText_iff_value {rest : Mem} :
    (Usable (nextText rest) ∨ Usable (value rest) → nextText rest = value rest) ↔
      value rest ≠ [] ∨ ¬ Usable (nextText rest) := by
  constructor
  · intro h
    by_cases hnext : Usable (nextText rest)
    · exact Or.inl fun hnil => hnext.1 (by rw [h (Or.inl hnext), hnil])
    · exact Or.inr hnext
  · intro h husable
    have hvalue : value rest ≠ [] := by
      rcases husable with hnext | hvalue
      · exact h.resolve_right (not_not.mpr hnext)
      · exact hvalue.1
    exact nextText_eq_value hvalue

theorem fromItsLine_iff (text : Mem) :
    FromItsLine addModemAssertion text ↔ StaysOnLine text := by
  by_cases hplace : ∃ o, o ≤ text.length ∧ ∃ gap rest, Place (text.drop o) gap rest
  · obtain ⟨o, ho, _, _, hplace⟩ := hplace
    obtain ⟨gap, rest, hfirst⟩ := exists_firstPlace ho hplace
    have hscript := script_of_firstPlace hfirst
    rw [hfirst.staysOnLine_iff]
    by_cases hgap : 10 ∈ gap
    · -- the search takes a place that is not written on a single line
      simp only [hgap, not_true, false_implies, true_implies, true_and]
      by_cases hline : ∃ rest', FirstLinePlace text rest'
      · obtain ⟨rest', hline⟩ := hline
        simp only [fromItsLine_of_linePlace hline, hscript, appended_eq_iff]
        constructor
        · intro h
          refine ⟨fun rest₁ hline₁ => ?_, fun hnone => absurd hline (hnone rest')⟩
          rw [hline₁.unique hline]
          exact h
        · exact fun h => h.1 rest' hline
      · have hnone : ∀ rest', ¬ FirstLinePlace text rest' := fun rest' h => hline ⟨rest', h⟩
        simp only [fromItsLine_of_none hnone, hscript, appended_eq_self_iff]
        exact ⟨fun h => ⟨fun rest' h' => absurd h' (hnone rest'), fun _ => h⟩,
          fun h => h.2 hnone⟩
    · -- the place is the one the line is taken from
      simp only [hgap, not_false_iff, true_implies, false_implies, and_true]
      simp only [fromItsLine_of_linePlace (hfirst.onLine hgap), hscript, appended_eq_iff]
      exact nextText_iff_value
  · have hno : ∀ o, o ≤ text.length → ∀ gap rest, ¬ Place (text.drop o) gap rest :=
      fun o ho gap rest h => hplace ⟨o, ho, gap, rest, h⟩
    refine iff_of_true ((fromItsLine_of_none ?_).mpr (script_of_noPlace hno)) ?_
    · intro rest h
      obtain ⟨o, ho, ⟨gap, hplace', -⟩, -⟩ := h
      exact hno o ho gap rest hplace'
    · intro gap rest h
      obtain ⟨o, ho, hplace', -⟩ := h
      exact absurd hplace' (hno o ho gap rest)

/-- In each of the hooks the text appended comes from the line of the first place on a single
line, exactly for the texts that stay on it. -/
theorem addModemAssertion_iff (text : Mem) :
    (∀ hook ∈ [addModemAssertion, fullOTAAssertions, incrementalOTAAssertions],
      FromItsLine hook text) ↔ StaysOnLine text := by
  rw [← fromItsLine_iff]
  constructor
  · exact fun h => h addModemAssertion List.mem_cons_self
  · intro h hook hhook
    simp only [List.mem_cons, List.not_mem_nil, or_false] at hhook
    rcases hhook with rfl | rfl | rfl
    · exact h
    · exact h
    · exact h

/-- An empty value takes the next line for the version. -/
def emptyValue : Mem := ascii "require version-modem=\nrequire version-baseband=1\n"

theorem addModemAssertion_next_line :
    (addModemAssertion ⟨emptyValue, []⟩).script = [command (ascii "require version-baseband=1")] ∧
      ¬ FromItsLine addModemAssertion emptyValue := by
  have hscript : (addModemAssertion ⟨emptyValue, []⟩).script
      = [command (ascii "require version-baseband=1")] := by decide +kernel
  have hline : FirstLinePlace emptyValue (ascii "\nrequire version-baseband=1\n") :=
    ⟨0, by decide, ⟨[], ⟨[32], by decide, List.forall_mem_singleton.mpr (by decide),
      List.forall_mem_nil _, by decide⟩, by decide⟩, fun j hj => by omega⟩
  refine ⟨hscript, fun h => ?_⟩
  have hnil := (h []).2.1 _ hline (Or.inl (by decide))
  rw [hscript] at hnil
  cases hnil

end MeizuSm8150.Ota
