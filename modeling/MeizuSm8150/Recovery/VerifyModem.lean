import MeizuSm8150.Lib.CTime
import MeizuSm8150.Recovery.ModemVersion

/-!
# The verdict on a modem version

`VerifyModemFn` reads the version of the modem that is on the device, parses it and each
argument as a time and answers whether one of the arguments is the same instant. What `strptime`
returns is not looked at, so a string it rejects still has an instant, that of the fields stored
before the failure: `verifyModemFn_iff` says for which kinds of input that makes no difference, and
`verifyModemFn_timestamps` that it makes none on well-formed timestamps.
-/

namespace MeizuSm8150.Recovery

open CMachine CString CDecimal CTime Matching

/-! ## The function -/

inductive ErrorCause where
  | kVendorFailure
  | kArgsParsingFailure
deriving Repr, DecidableEq

/-- What an edify function returns. -/
inductive Value where
  | stringValue (s : Mem)
  | errorAbort (cause : ErrorCause) (message : String)
deriving Repr, DecidableEq

def timeFormat : Mem := ascii "%Y-%m-%d %H:%M:%S"

/-- The loop over the arguments: `mktime` writes the normalised fields of `tm1` back, and the
next pass goes on from those. -/
def anyMatches : Tm → List Mem → Bool
  | _, [] => false
  | tm1, modemVersion :: args =>
    let tm2 := (strptime (cstr modemVersion) timeFormat Tm.zero).2
    let made1 := mktime tm1
    let made2 := mktime tm2
    if made1.1 = made2.1 then true else anyMatches made1.2 args

/-- `currentModemVersion` is the buffer on the stack as the function finds it, `readArgs` what
`ReadArgs` yields. -/
def verifyModemFn (fuel : ℕ) (locals : Locals modemVerStrLen) (sys : Sys)
    (currentModemVersion : Mem) (name : String) (readArgs : Option (List Mem)) : Run Value := do
  let out ← getModemVersion fuel locals sys currentModemVersion modemVerBufLen
  if out.ret ≠ 0 then
    return .errorAbort .kVendorFailure
      (name ++ "() failed to read current MODEM build time-stamp: " ++ toString out.ret)
  else
    match readArgs with
    | none => return .errorAbort .kArgsParsingFailure (name ++ "() error parsing arguments")
    | some args =>
      let tm1 := (strptime (cstr out.verStr) timeFormat Tm.zero).2
      return .stringValue (ascii (if anyMatches tm1 args then "1" else "0"))

/-! ## Instants -/

/-- `strptime` returns non-NULL. -/
def Accepted (s : Mem) : Prop := (strptime s timeFormat Tm.zero).1.isSome = true

instance (s : Mem) : Decidable (Accepted s) := by unfold Accepted; infer_instance

theorem timeFormat_directives : directives timeFormat =
    [.number .year, .literal 45, .number .mon, .literal 45, .number .mday, .space,
      .number .hour, .literal 58, .number .min, .literal 58, .number .sec] := by decide

/-- The time `mktime` makes of the fields `strptime` stored. -/
def instant (s : Mem) : ℤ := (mktime (strptime s timeFormat Tm.zero).2).1

/-- However often `tm1` was normalised, the loop looks for the instant it started with. -/
theorem anyMatches_iff (tm1 : Tm) (args : List Mem) :
    anyMatches tm1 args = true ↔ ∃ a ∈ args, instant (cstr a) = (mktime tm1).1 := by
  induction args generalizing tm1 with
  | nil => simp [anyMatches]
  | cons a args ih =>
    rw [anyMatches, ← instant]
    by_cases h : (mktime tm1).1 = instant (cstr a)
    · rw [if_pos h]
      exact iff_of_true rfl ⟨a, List.mem_cons_self, h.symm⟩
    · rw [if_neg h, ih, mktime_mktime, List.exists_mem_cons_iff, or_iff_right (Ne.symm h)]

/-- `get_modem_version` succeeds and leaves the string `cur` in the buffer. -/
def LeavesVersion (fuel : ℕ) (locals : Locals modemVerStrLen) (sys : Sys) (buf cur : Mem) :
    Prop :=
  0 ∉ cur ∧ ∃ rest calls,
    getModemVersion fuel locals sys buf modemVerBufLen = .ok ⟨0, cur ++ 0 :: rest, calls⟩

/-- With a NUL behind the first marker, the string in between is what is left. -/
theorem leavesVersion_versionAt {image : Mem} {fuel : ℕ} {locals : Locals modemVerStrLen}
    {sys : Sys} {buf : Mem} {o : ℕ} (hsys : ReadsImage sys image)
    (hmax : image.length + 13 ≤ intMax) (hfuel : image.length + 14 ≤ fuel)
    (hbuf : buf.length = modemVerBufLen) (h : naiveSearch image modemVerStr = some o)
    (hnul : 0 ∈ image.drop (o + 14)) : LeavesVersion fuel locals sys buf (versionAt image o) := by
  have hfirst := (naiveSearch_eq_some (by decide)).mp h
  refine ⟨fun h0 => zero_not_mem_cstr _ (List.mem_of_mem_take h0), _, _,
    getModemVersion_found hsys hmax hfuel (by decide) (by omega) hfirst hnul⟩

section Verdict
variable {fuel : ℕ} {locals : Locals modemVerStrLen} {sys : Sys} {buf cur : Mem} (name : String)

/-- With the version read, the verdict is what the loop finds. -/
theorem verifyModemFn_eq (hcur : LeavesVersion fuel locals sys buf cur) (args : List Mem) :
    verifyModemFn fuel locals sys buf name (some args) = .ok (.stringValue (ascii
      (if anyMatches (strptime cur timeFormat Tm.zero).2 args then "1" else "0"))) := by
  rcases hcur with ⟨hnul, rest, calls, hread⟩
  rw [verifyModemFn, hread, ok_bind, if_neg (by simp)]
  dsimp only
  rw [cstr_append_nul hnul]
  rfl

theorem ascii_one_ne_zero : ascii "1" ≠ ascii "0" := by decide

/-- The verdict is `"1"` when some argument has the instant of the current version. -/
theorem verifyModemFn_one_iff (hcur : LeavesVersion fuel locals sys buf cur) (args : List Mem) :
    verifyModemFn fuel locals sys buf name (some args) = .ok (.stringValue (ascii "1")) ↔
      ∃ a ∈ args, instant (cstr a) = instant cur := by
  have hfound := anyMatches_iff (strptime cur timeFormat Tm.zero).2 args
  rw [verifyModemFn_eq name hcur, instant, ← hfound]
  by_cases h : anyMatches (strptime cur timeFormat Tm.zero).2 args = true
  · rw [if_pos h]
    exact iff_of_true rfl h
  · rw [if_neg h]
    refine iff_of_false (fun heq => ?_) h
    injection heq with heq
    injection heq with heq
    exact ascii_one_ne_zero heq.symm

/-- The verdict is `"0"` in every other case. -/
theorem verifyModemFn_zero (hcur : LeavesVersion fuel locals sys buf cur) {args : List Mem}
    (h : verifyModemFn fuel locals sys buf name (some args) ≠ .ok (.stringValue (ascii "1"))) :
    verifyModemFn fuel locals sys buf name (some args) = .ok (.stringValue (ascii "0")) := by
  rw [verifyModemFn_eq name hcur] at h ⊢
  split at h
  · exact absurd rfl h
  · rw [if_neg ‹_›]

end Verdict

/-- The bytes `v` behind the marker, and a terminator. -/
def imageOf (v : Mem) : Mem := modemVerStr ++ (v ++ [0])

/-- A short string behind the marker is what is left. -/
theorem leavesVersion_imageOf {v : Mem} (hnul : 0 ∉ v) (hlen : v.length ≤ 19) :
    LeavesVersion 50 default (Sys.ofImage (imageOf v)) (List.replicate 20 1) v := by
  have himage : (imageOf v).length = 14 + (v.length + 1) := by
    simp [imageOf, modemVerStr_length, modemVerStrLen]
  have hdrop : (imageOf v).drop (0 + 14) = v ++ [0] := List.drop_left' modemVerStr_length
  have hfirst : FirstAt modemVerStr (imageOf v) 0 := by
    refine ⟨fun j hj => ?_, fun q hq => absurd hq (Nat.not_lt_zero q)⟩
    rw [imageOf, Nat.zero_add, List.getElem?_append_left hj]
  have hversion : versionAt (imageOf v) 0 = v := by
    rw [versionAt, hdrop]
    exact (congrArg (List.take 19) (cstr_append_nul hnul [])).trans (List.take_of_length_le hlen)
  have hleft : LeavesVersion 50 default (Sys.ofImage (imageOf v)) (List.replicate 20 1)
      (versionAt (imageOf v) 0) :=
    leavesVersion_versionAt (readsImage_ofImage (by omega)) (by simp only [intMax]; omega)
      (by omega) (by decide) ((naiveSearch_eq_some (by decide)).mpr hfirst)
      (by rw [hdrop]; simp)
  rwa [hversion] at hleft

/-! ## When the verdict is right -/

/-- The fields `strptime` stores, also in front of a failure. -/
def fields (s : Mem) : Tm := (strptime s timeFormat Tm.zero).2

theorem instant_eq (s : Mem) : instant s = (fields s).seconds := rfl

/-- The seconds are converted last, so a string that is rejected has none. -/
theorem sec_of_not_accepted {s : Mem} (h : ¬ Accepted s) : (fields s).sec = 0 := by
  have hsplit : directives timeFormat = [.number .year, .literal 45, .number .mon, .literal 45,
      .number .mday, .space, .number .hour, .literal 58, .number .min, .literal 58]
      ++ [.number .sec] := timeFormat_directives
  have hnone : (strptime s timeFormat Tm.zero).1 = none := by
    simpa only [Accepted, Bool.not_eq_true, Option.isSome_eq_false_iff, Option.isNone_iff_eq_none]
      using h
  rw [strptime, hsplit] at hnone
  rw [fields, strptime, hsplit, scan_sec_of_none (by decide) hnone]
  rfl

/-- The verdict is `"1"` where the version and some argument are accepted and denote the same
time, and `"0"` in every other case. -/
def VerdictRight (cur : Mem) (args : List Mem) : Prop :=
  ∀ (fuel : ℕ) (locals : Locals modemVerStrLen) (sys : Sys) (buf : Mem) (name : String),
    LeavesVersion fuel locals sys buf cur →
    (verifyModemFn fuel locals sys buf name (some args) = .ok (.stringValue (ascii "1")) ↔
      Accepted cur ∧ ∃ a ∈ args, Accepted (cstr a) ∧ instant (cstr a) = instant cur) ∧
    (¬ (Accepted cur ∧ ∃ a ∈ args, Accepted (cstr a) ∧ instant (cstr a) = instant cur) →
      verifyModemFn fuel locals sys buf name (some args) = .ok (.stringValue (ascii "0")))

theorem verdictRight_of {cur : Mem} {args : List Mem}
    (h : ∀ a ∈ args, instant (cstr a) = instant cur →
      Accepted cur ∧ ∃ b ∈ args, Accepted (cstr b) ∧ instant (cstr b) = instant cur) :
    VerdictRight cur args := by
  intro fuel locals sys buf name hcur
  have hone := verifyModemFn_one_iff name hcur args
  have hiff : verifyModemFn fuel locals sys buf name (some args) = .ok (.stringValue (ascii "1")) ↔
      Accepted cur ∧ ∃ a ∈ args, Accepted (cstr a) ∧ instant (cstr a) = instant cur := by
    rw [hone]
    constructor
    · intro hfound
      obtain ⟨a, ha, heq⟩ := hfound
      exact h a ha heq
    · intro hfound
      obtain ⟨-, a, ha, -, heq⟩ := hfound
      exact ⟨a, ha, heq⟩
  exact ⟨hiff, fun hnot => verifyModemFn_zero name hcur fun hrun => hnot (hiff.mp hrun)⟩

/-- Some argument is accepted with the fields of an accepted version. -/
def Repeated (cur : Mem) (args : List Mem) : Prop :=
  Accepted cur ∧ ∃ a ∈ args, Accepted (cstr a) ∧ fields (cstr a) = fields cur

/-- The arguments are accepted as far as the loop gets, that is up to the first with the instant of
the version. -/
def AcceptedUpTo (cur : Mem) : List Mem → Prop
  | [] => True
  | a :: args => Accepted (cstr a) ∧ (instant (cstr a) = instant cur ∨ AcceptedUpTo cur args)

theorem AcceptedUpTo.of_forall (cur : Mem) {args : List Mem}
    (h : ∀ a ∈ args, Accepted (cstr a)) : AcceptedUpTo cur args := by
  induction args with
  | nil => trivial
  | cons a args ih =>
    rw [List.forall_mem_cons] at h
    exact ⟨h.1, Or.inr (ih h.2)⟩

/-- The loop gets to the end, or stops at an argument that is accepted. -/
theorem AcceptedUpTo.all_or_found {cur : Mem} {args : List Mem} (h : AcceptedUpTo cur args) :
    (∀ a ∈ args, Accepted (cstr a)) ∨
      ∃ a ∈ args, Accepted (cstr a) ∧ instant (cstr a) = instant cur := by
  induction args with
  | nil => exact Or.inl fun a ha => absurd ha List.not_mem_nil
  | cons a args ih =>
    obtain ⟨hacc, heq | hrest⟩ := h
    · exact Or.inr ⟨a, List.mem_cons_self, hacc, heq⟩
    · rcases ih hrest with hall | ⟨b, hb, hfound⟩
      · exact Or.inl (List.forall_mem_cons.mpr ⟨hacc, hall⟩)
      · exact Or.inr ⟨b, List.mem_cons_of_mem a hb, hfound⟩

/-- No call of `strptime` fails. -/
def NoneRejected (cur : Mem) (args : List Mem) : Prop := Accepted cur ∧ AcceptedUpTo cur args

/-- No result of `strptime` that is not looked at can make a difference: there is no argument, the
version has seconds, it is repeated, or no call fails. -/
def Reliable (cur : Mem) (args : List Mem) : Prop :=
  args = [] ∨ (fields cur).sec % 60 ≠ 0 ∨ Repeated cur args ∨ NoneRejected cur args

theorem Reliable.verdictRight {cur : Mem} {args : List Mem} (h : Reliable cur args) :
    VerdictRight cur args := by
  apply verdictRight_of
  intro a ha heq
  rcases h with rfl | hsec | ⟨hcur, b, hb, hacc, hfields⟩ | ⟨hcur, hread⟩
  · cases ha
  · -- a rejected string is a whole minute
    have hcur : Accepted cur := by
      by_contra hnot
      exact hsec (by rw [sec_of_not_accepted hnot]; rfl)
    have hacc : Accepted (cstr a) := by
      by_contra hnot
      rw [instant_eq, instant_eq] at heq
      have hminute := congrArg (· % 60) heq
      simp only [Tm.seconds_mod, sec_of_not_accepted hnot] at hminute
      exact hsec hminute.symm
    exact ⟨hcur, a, ha, hacc, heq⟩
  · exact ⟨hcur, b, hb, hacc, by rw [instant_eq, instant_eq, hfields]⟩
  · rcases hread.all_or_found with hall | hfound
    · exact ⟨hcur, a, ha, hall a ha, heq⟩
    · exact ⟨hcur, hfound⟩

/-- Two inputs that `strptime` accepts alike: the versions both or neither, with seconds both or
neither, repeated both or neither, without a failing call both or neither, and the arguments one
by one. -/
structure SameKind (cur : Mem) (args : List Mem) (cur' : Mem) (args' : List Mem) : Prop where
  accepted : Accepted cur' ↔ Accepted cur
  seconds : (fields cur').sec % 60 = 0 ↔ (fields cur).sec % 60 = 0
  repeated : Repeated cur' args' ↔ Repeated cur args
  noneRejected : NoneRejected cur' args' ↔ NoneRejected cur args
  args : (args'.map fun a => decide (Accepted (cstr a)))
    = args.map fun a => decide (Accepted (cstr a))

theorem SameKind.refl (cur : Mem) (args : List Mem) : SameKind cur args cur args :=
  ⟨Iff.rfl, Iff.rfl, Iff.rfl, Iff.rfl, rfl⟩

theorem SameKind.reliable {cur cur' : Mem} {args args' : List Mem}
    (h : SameKind cur args cur' args') (hrel : Reliable cur args) : Reliable cur' args' := by
  rcases hrel with rfl | hsec | hrep | hnone
  · exact Or.inl (List.map_eq_nil_iff.mp h.args)
  · exact Or.inr (Or.inl (fun h0 => hsec (h.seconds.mp h0)))
  · exact Or.inr (Or.inr (Or.inl (h.repeated.mpr hrep)))
  · exact Or.inr (Or.inr (Or.inr (h.noneRejected.mpr hnone)))

/-- Stand-ins for some arguments, `good` for those that are accepted and `bad` for the others. -/
def standIns (good bad : Mem) (args : List Mem) : List Mem :=
  args.map fun a => if Accepted (cstr a) then good else bad

theorem standIns_accepted {good bad : Mem} (hgood : Accepted (cstr good))
    (hbad : ¬ Accepted (cstr bad)) (args : List Mem) :
    ((standIns good bad args).map fun a => decide (Accepted (cstr a)))
      = args.map fun a => decide (Accepted (cstr a)) := by
  rw [standIns, List.map_map]
  apply List.map_congr_left
  intro a _
  by_cases ha : Accepted (cstr a)
  · simp [ha, hgood]
  · simp [ha, hbad]

theorem mem_standIns {good bad b : Mem} {args : List Mem} (h : b ∈ standIns good bad args) :
    (b = good ∧ ∃ a ∈ args, Accepted (cstr a)) ∨ (b = bad ∧ ∃ a ∈ args, ¬ Accepted (cstr a)) := by
  obtain ⟨a, ha, rfl⟩ := List.mem_map.mp h
  by_cases hacc : Accepted (cstr a)
  · exact Or.inl ⟨if_pos hacc, a, ha, hacc⟩
  · exact Or.inr ⟨if_neg hacc, a, ha, hacc⟩

theorem good_mem_standIns (good bad : Mem) {a : Mem} {args : List Mem} (ha : a ∈ args)
    (hacc : Accepted (cstr a)) : good ∈ standIns good bad args :=
  List.mem_map.mpr ⟨a, ha, if_pos hacc⟩

theorem bad_mem_standIns (good bad : Mem) {a : Mem} {args : List Mem} (ha : a ∈ args)
    (hacc : ¬ Accepted (cstr a)) : bad ∈ standIns good bad args :=
  List.mem_map.mpr ⟨a, ha, if_neg hacc⟩

/-- An argument that denotes the same time as the version, and no right to. -/
theorem not_verdictRight {cur a : Mem} {args : List Mem} (hnul : 0 ∉ cur) (hlen : cur.length ≤ 19)
    (ha : a ∈ args) (heq : instant (cstr a) = instant cur)
    (hno : ¬ (Accepted cur ∧ ∃ a ∈ args, Accepted (cstr a) ∧ instant (cstr a) = instant cur)) :
    ¬ VerdictRight cur args := by
  intro hright
  have hleft := leavesVersion_imageOf hnul hlen
  have hone := (verifyModemFn_one_iff "verify_modem" hleft args).mpr ⟨a, ha, heq⟩
  exact hno ((hright _ _ _ _ "verify_modem" hleft).1.mp hone)

/-- With an accepted version: a rejected argument may be the version without its seconds, while the
accepted ones are another day. -/
theorem exists_wrong_of_accepted {cur : Mem} {args : List Mem} (hcur : Accepted cur)
    (hsec : (fields cur).sec % 60 = 0) (hrep : ¬ Repeated cur args)
    (hrejected : ¬ NoneRejected cur args) :
    ∃ cur' args', SameKind cur args cur' args' ∧ ¬ VerdictRight cur' args' := by
  obtain ⟨a, ha, hacc⟩ : ∃ a ∈ args, ¬ Accepted (cstr a) := by
    by_contra hall
    exact hrejected ⟨hcur, AcceptedUpTo.of_forall cur fun a ha =>
      not_not.mp fun hacc => hall ⟨a, ha, hacc⟩⟩
  have hbad := bad_mem_standIns (ascii "2019-12-02 10:00:00") (ascii "2019-12-01 10:00") ha hacc
  have hno : ¬ ∃ b ∈ standIns (ascii "2019-12-02 10:00:00") (ascii "2019-12-01 10:00") args,
      Accepted (cstr b) ∧ instant (cstr b) = instant (ascii "2019-12-01 10:00:00") := by
    intro hfound
    obtain ⟨b, hb, hacc', heq⟩ := hfound
    rcases mem_standIns hb with ⟨rfl, -⟩ | ⟨rfl, -⟩
    · exact absurd heq (by decide +kernel)
    · exact absurd hacc' (by decide)
  have hkind : SameKind cur args (ascii "2019-12-01 10:00:00")
      (standIns (ascii "2019-12-02 10:00:00") (ascii "2019-12-01 10:00") args) := by
    refine ⟨iff_of_true (by decide) hcur, iff_of_true (by decide) hsec,
      iff_of_false (fun hrep' => ?_) hrep, iff_of_false (fun hnone => ?_) hrejected,
      standIns_accepted (by decide) (by decide) args⟩
    · obtain ⟨-, b, hb, hacc', hfields⟩ := hrep'
      exact hno ⟨b, hb, hacc', by rw [instant_eq, instant_eq, hfields]⟩
    · rcases hnone.2.all_or_found with hall | hfound
      · exact absurd (hall _ hbad) (by decide)
      · exact hno hfound
  exact ⟨_, _, hkind, not_verdictRight (by decide) (by decide) hbad (by decide +kernel)
    fun hright => hno hright.2⟩

/-- With a rejected version: every argument may denote the time the zeroed fields do. -/
theorem exists_wrong_of_not_accepted {cur : Mem} {args : List Mem} (hcur : ¬ Accepted cur)
    (hnil : args ≠ []) :
    ∃ cur' args', SameKind cur args cur' args' ∧ ¬ VerdictRight cur' args' := by
  obtain ⟨a, args, rfl⟩ := List.exists_cons_of_ne_nil hnil
  have hx : ¬ Accepted (ascii "x") := by decide
  have hsec : (fields cur).sec % 60 = 0 := by rw [sec_of_not_accepted hcur]; rfl
  obtain ⟨b, hb, heq⟩ : ∃ b ∈ standIns (ascii "1899-12-31 00:00:00") (ascii "x") (a :: args),
      instant (cstr b) = instant (ascii "x") := by
    by_cases hacc : Accepted (cstr a)
    · exact ⟨_, good_mem_standIns _ _ List.mem_cons_self hacc, by decide +kernel⟩
    · exact ⟨_, bad_mem_standIns _ _ List.mem_cons_self hacc, by decide⟩
  have hkind : SameKind cur (a :: args) (ascii "x")
      (standIns (ascii "1899-12-31 00:00:00") (ascii "x") (a :: args)) :=
    ⟨iff_of_false hx hcur, iff_of_true (by decide) hsec,
      iff_of_false (fun hrep => hx hrep.1) fun hrep => hcur hrep.1,
      iff_of_false (fun hnone => hx hnone.1) fun hnone => hcur hnone.1,
      standIns_accepted (by decide) (by decide) _⟩
  exact ⟨_, _, hkind, not_verdictRight (by decide) (by decide) hb heq fun hright => hx hright.1⟩

/-- The verdict is right on all inputs of a kind exactly when the kind is reliable; any other
has an input on which it is wrong. -/
theorem verifyModemFn_iff (cur : Mem) (args : List Mem) :
    (∀ cur' args', SameKind cur args cur' args' → VerdictRight cur' args') ↔
      Reliable cur args := by
  constructor
  · intro h
    by_contra hnot
    simp only [Reliable, not_or, not_not] at hnot
    obtain ⟨hnil, hsec, hrep, hrejected⟩ := hnot
    by_cases hcur : Accepted cur
    · obtain ⟨cur', args', hkind, hwrong⟩ := exists_wrong_of_accepted hcur hsec hrep hrejected
      exact hwrong (h cur' args' hkind)
    · obtain ⟨cur', args', hkind, hwrong⟩ := exists_wrong_of_not_accepted hcur hnil
      exact hwrong (h cur' args' hkind)
  · exact fun h cur' args' hkind => (hkind.reliable h).verdictRight

/-- The version without its seconds, which is rejected, beside the version itself. -/
theorem verifyModemFn_iff_repeated :
    verifyModemFn 50 default (Sys.ofImage (imageOf (ascii "2019-12-01 10:00:00")))
        (List.replicate 20 1) "verify_modem"
        (some [ascii "2019-12-01 10:00", ascii "2019-12-01 10:00:00"])
        = .ok (.stringValue (ascii "1")) ↔
      Accepted (ascii "2019-12-01 10:00:00") ∧
        ∃ a ∈ [ascii "2019-12-01 10:00", ascii "2019-12-01 10:00:00"],
          Accepted (cstr a) ∧ instant (cstr a) = instant (ascii "2019-12-01 10:00:00") := by
  have hrep : Repeated (ascii "2019-12-01 10:00:00")
      [ascii "2019-12-01 10:00", ascii "2019-12-01 10:00:00"] :=
    ⟨by decide, _, List.mem_cons_of_mem _ List.mem_cons_self, by decide, by decide⟩
  exact ((verifyModemFn_iff (ascii "2019-12-01 10:00:00")
    [ascii "2019-12-01 10:00", ascii "2019-12-01 10:00:00"]).mpr (Or.inr (Or.inr (Or.inl hrep)))
    _ _ (SameKind.refl _ _) _ _ _ _ "verify_modem"
    (leavesVersion_imageOf (by decide) (by decide))).1

/-- Two strings that are no times at all: the zeroed fields of both are the same instant. -/
theorem verifyModemFn_unparsable :
    LeavesVersion 50 default (Sys.ofImage (imageOf (ascii "x"))) (List.replicate 20 1) (ascii "x") ∧
      verifyModemFn 50 default (Sys.ofImage (imageOf (ascii "x"))) (List.replicate 20 1)
        "verify_modem" (some [ascii "y"]) = .ok (.stringValue (ascii "1")) ∧
      ¬ Accepted (ascii "x") ∧ ¬ Accepted (ascii "y") := by
  exact ⟨leavesVersion_imageOf (by decide) (by decide), by decide +kernel, by decide, by decide⟩

/-! ## Timestamps -/

/-- A second of the calendar, with a year of four digits. -/
@[ext]
structure Timestamp where
  year : ℕ
  mon : ℕ
  mday : ℕ
  hour : ℕ
  min : ℕ
  sec : ℕ
  year_le : year ≤ 9999
  date : CivilDate.Valid year mon mday
  hour_le : hour ≤ 23
  min_le : min ≤ 59
  sec_le : sec ≤ 59

/-- `YYYY-MM-DD HH:MM:SS`. -/
def Timestamp.render (t : Timestamp) : Mem :=
  decimal 4 t.year ++ ascii "-" ++ decimal 2 t.mon ++ ascii "-" ++ decimal 2 t.mday ++ ascii " "
    ++ decimal 2 t.hour ++ ascii ":" ++ decimal 2 t.min ++ ascii ":" ++ decimal 2 t.sec

/-- The text is a timestamp. -/
def IsTimestamp (s : Mem) : Prop := ∃ t : Timestamp, t.render = s

def Timestamp.tm (t : Timestamp) : Tm := ⟨t.sec, t.min, t.hour, t.mday, t.mon - 1, t.year - 1900⟩

theorem Timestamp.length_render (t : Timestamp) : t.render.length = 19 := by
  simp [Timestamp.render, ascii]

/-- Each conversion reads the field printed for it, and nothing behind the last is looked at. -/
theorem Timestamp.strptime_append (t : Timestamp) (rest : Mem) :
    strptime (t.render ++ rest) timeFormat Tm.zero = (some rest, t.tm) := by
  rcases t.date with ⟨hm1, hm2, hd1, hd2⟩
  have hmonth := CivilDate.daysInMonth_le t.year t.mon
  have hshape : t.render ++ rest = decimal 4 t.year ++ 45 :: (decimal 2 t.mon
      ++ 45 :: (decimal 2 t.mday ++ 32 :: (decimal 2 t.hour
      ++ 58 :: (decimal 2 t.min ++ 58 :: (decimal 2 t.sec ++ rest))))) := by
    simp [Timestamp.render, ascii]
  have hmon : 1 ≤ t.mon := by omega
  have hmon' : t.mon ≤ 12 := by omega
  have hmday : 1 ≤ t.mday := by omega
  have hmday' : t.mday ≤ 31 := by omega
  have hsec : t.sec ≤ 60 := Nat.le_succ_of_le t.sec_le
  rw [strptime, timeFormat_directives, hshape,
    scan_decimal (Nat.zero_le _) t.year_le (by decide) (by decide), scan_literal,
    scan_decimal hmon hmon' (by decide) (by decide), scan_literal,
    scan_decimal hmday hmday' (by decide) (by decide), scan_space_decimal,
    scan_decimal (Nat.zero_le _) t.hour_le (by decide) (by decide), scan_literal,
    scan_decimal (Nat.zero_le _) t.min_le (by decide) (by decide), scan_literal,
    scan_decimal (Nat.zero_le _) hsec (by decide) (by decide)]
  rfl

theorem Timestamp.strptime_render (t : Timestamp) :
    strptime t.render timeFormat Tm.zero = (some [], t.tm) := by
  have h := t.strptime_append []
  rwa [List.append_nil] at h

theorem Timestamp.zero_not_mem_render (t : Timestamp) : 0 ∉ t.render := by
  simp [Timestamp.render, ascii, zero_not_mem_decimal]

theorem Timestamp.instant_render (t : Timestamp) : instant t.render = t.tm.seconds := by
  rw [instant, t.strptime_render]
  rfl

/-- No two timestamps are the same second. -/
theorem Timestamp.seconds_inj {t t' : Timestamp} (h : t.tm.seconds = t'.tm.seconds) : t = t' := by
  have hsplit : ∀ t : Timestamp, t.tm.seconds = CivilDate.daysFromCivil t.year t.mon t.mday * 86400
      + t.hour * 3600 + t.min * 60 + t.sec := by
    intro t
    have hm1 := t.date.month_pos
    have hm2 := t.date.month_le
    simp only [Timestamp.tm, Tm.seconds]
    rw [show (t.year : ℤ) - 1900 + 1900 + (t.mon - 1) / 12 = t.year by omega,
      show ((t.mon : ℤ) - 1) % 12 + 1 = t.mon by omega]
  rw [hsplit, hsplit] at h
  -- hours, minutes and seconds are the digits of the second in its day
  have hhour := t.hour_le
  have hmin := t.min_le
  have hsec := t.sec_le
  have hhour' := t'.hour_le
  have hmin' := t'.min_le
  have hsec' := t'.sec_le
  have hdays : CivilDate.daysFromCivil t.year t.mon t.mday
      = CivilDate.daysFromCivil t'.year t'.mon t'.mday := by omega
  rcases CivilDate.daysFromCivil_inj t.date t'.date hdays with ⟨hy, hm, hd⟩
  ext <;> omega

/-- Two timestamps with the same instant are the same text. -/
theorem IsTimestamp.eq_of_instant {s s' : Mem} (hs : IsTimestamp s) (hs' : IsTimestamp s')
    (h : instant (cstr s) = instant s') : s = s' := by
  rcases hs with ⟨t, rfl⟩
  rcases hs' with ⟨t', rfl⟩
  -- the instants are the seconds of the two, which determine them
  rw [cstr_of_not_mem t.zero_not_mem_render, t.instant_render, t'.instant_render] at h
  rw [Timestamp.seconds_inj h]

/-- On timestamps the verdict is whether the current version is textually an argument, so that
neither order nor repetition matters and the verdict on a concatenation is a disjunction. -/
theorem verifyModemFn_timestamps {fuel : ℕ} {locals : Locals modemVerStrLen} {sys : Sys}
    {buf cur : Mem} (name : String) (hread : LeavesVersion fuel locals sys buf cur)
    (hcur : IsTimestamp cur) (args args' : List Mem) (hargs : ∀ a ∈ args, IsTimestamp a)
    (hargs' : ∀ a ∈ args', IsTimestamp a) :
    (cur ∈ args → verifyModemFn fuel locals sys buf name (some args)
      = .ok (.stringValue (ascii "1"))) ∧
    (cur ∉ args → verifyModemFn fuel locals sys buf name (some args)
      = .ok (.stringValue (ascii "0"))) ∧
    ((∀ a, a ∈ args ↔ a ∈ args') → verifyModemFn fuel locals sys buf name (some args)
      = verifyModemFn fuel locals sys buf name (some args')) ∧
    (verifyModemFn fuel locals sys buf name (some (args ++ args'))
        = .ok (.stringValue (ascii "1")) ↔
      verifyModemFn fuel locals sys buf name (some args) = .ok (.stringValue (ascii "1")) ∨
        verifyModemFn fuel locals sys buf name (some args') = .ok (.stringValue (ascii "1"))) := by
  have hone : ∀ args : List Mem, (∀ a ∈ args, IsTimestamp a) →
      (verifyModemFn fuel locals sys buf name (some args) = .ok (.stringValue (ascii "1")) ↔
        cur ∈ args) := by
    intro args hargs
    rw [verifyModemFn_one_iff name hread]
    constructor
    · intro hfound
      rcases hfound with ⟨a, ha, heq⟩
      rwa [← (hargs a ha).eq_of_instant hcur heq]
    · intro hmem
      exact ⟨cur, hmem, by rw [cstr_of_not_mem hread.1]⟩
  refine ⟨(hone args hargs).mpr, fun hnot => ?_, fun hsame => ?_, ?_⟩
  · exact verifyModemFn_zero name hread fun h => hnot ((hone args hargs).mp h)
  · by_cases hmem : cur ∈ args
    · rw [(hone args hargs).mpr hmem, (hone args' hargs').mpr ((hsame cur).mp hmem)]
    · have hmem' : cur ∉ args' := fun h => hmem ((hsame cur).mpr h)
      rw [verifyModemFn_zero name hread fun h => hmem ((hone args hargs).mp h),
        verifyModemFn_zero name hread fun h => hmem' ((hone args' hargs').mp h)]
  · have happend : ∀ a ∈ args ++ args', IsTimestamp a := fun a ha =>
      (List.mem_append.mp ha).elim (hargs a) (hargs' a)
    rw [hone _ happend, hone _ hargs, hone _ hargs', List.mem_append]

/-- A version among two arguments. -/
theorem verifyModemFn_timestamps_mem :
    verifyModemFn 50 default (Sys.ofImage (imageOf (ascii "2020-02-29 23:59:59")))
      (List.replicate 20 1) "verify_modem"
      (some [ascii "2019-12-01 10:00:00", ascii "2020-02-29 23:59:59"])
      = .ok (.stringValue (ascii "1")) := by
  have hleap : IsTimestamp (ascii "2020-02-29 23:59:59") :=
    ⟨⟨2020, 2, 29, 23, 59, 59, by decide, ⟨by decide, by decide, by decide, by decide⟩, by decide,
      by decide, by decide⟩, by decide⟩
  have hother : IsTimestamp (ascii "2019-12-01 10:00:00") :=
    ⟨⟨2019, 12, 1, 10, 0, 0, by decide, ⟨by decide, by decide, by decide, by decide⟩, by decide,
      by decide, by decide⟩, by decide⟩
  exact (verifyModemFn_timestamps "verify_modem" (leavesVersion_imageOf (by decide) (by decide))
    hleap [ascii "2019-12-01 10:00:00", ascii "2020-02-29 23:59:59"] [] (by
      intro a ha
      rcases List.mem_pair.mp ha with rfl | rfl
      · exact hother
      · exact hleap) (by simp)).1 (by decide)

end MeizuSm8150.Recovery
