import MeizuSm8150.Ota.ReleasetoolsTheorems
import MeizuSm8150.Recovery.VerdictTheorems

/-!
# From the release tools to the device

What the release tools write, the updater on the device runs: the command in the script is a call
of the function the recovery library registers. The interpreter of the script is a parameter, with
what it does on such a command. An update that requires a version then goes on exactly on the
devices that have it.
-/

namespace MeizuSm8150.Ota

open CMachine CString CDecimal Regex Matching Recovery

/-! ## The function on the device -/

/-- The functions of edify by name, applied to the values of their arguments. -/
abbrev Functions : Type := String → Option (List Mem → Run Value)

/-- `Register_librecovery_updater_meizu_sm8150`, with the system and the stack the function will
find. -/
def registerLibrecoveryUpdater (fuel : ℕ) (locals : Locals modemVerStrLen) (sys : Sys) (buf : Mem)
    (functions : Functions) : Functions := fun name =>
  if name = "meizu_sm8150.verify_modem" then
    some fun args => verifyModemFn fuel locals sys buf name (some args)
  else functions name

/-- A text that stands for itself between quotes. -/
def Plain (s : Mem) : Prop := ∀ b ∈ s, b ≠ 0 ∧ b ≠ 10 ∧ b ≠ 34 ∧ b ≠ 92

/-- The interpreter of the script, by whether it goes on after a command. -/
structure Edify where
  passes : Functions → Mem → Prop
  /-- An `assert` goes on when its function returns what it is compared with. -/
  passes_verify : ∀ functions f version, functions "meizu_sm8150.verify_modem" = some f →
    Plain version → (passes functions (command version) ↔
      f [version] = .ok (.stringValue (ascii "1")))

/-! ## The text of a timestamp -/

theorem mem_render {t : Timestamp} {b : UInt8} (h : b ∈ t.render) :
    isDigit b = true ∨ b = 45 ∨ b = 32 ∨ b = 58 := by
  simp only [Timestamp.render, List.mem_append, show ascii "-" = [45] by decide,
    show ascii " " = [32] by decide, show ascii ":" = [58] by decide, List.mem_singleton] at h
  rcases h with ((((((((((h | h) | h) | h) | h) | h) | h) | h) | h) | h) | h)
  · exact Or.inl (isDigit_of_mem_decimal h)
  · exact Or.inr (Or.inl h)
  · exact Or.inl (isDigit_of_mem_decimal h)
  · exact Or.inr (Or.inl h)
  · exact Or.inl (isDigit_of_mem_decimal h)
  · exact Or.inr (Or.inr (Or.inl h))
  · exact Or.inl (isDigit_of_mem_decimal h)
  · exact Or.inr (Or.inr (Or.inr h))
  · exact Or.inl (isDigit_of_mem_decimal h)
  · exact Or.inr (Or.inr (Or.inr h))
  · exact Or.inl (isDigit_of_mem_decimal h)

/-- A timestamp stands for itself between quotes, and has no wildcard. -/
theorem plain_render (t : Timestamp) : ∀ b ∈ t.render, b ≠ 0 ∧ b ≠ 10 ∧ b ≠ 34 ∧ b ≠ 92 ∧ b ≠ 42 := by
  intro b hb
  rcases mem_render hb with hdigit | rfl | rfl | rfl
  · refine ⟨?_, ?_, ?_, ?_, ?_⟩
    all_goals
      intro hb
      rw [hb] at hdigit
      cases hdigit
  · decide
  · decide
  · decide

/-! ## The update -/

/-- Where the text requires the version `required`, the hooks append one command, and the updater
goes on after it exactly on the devices whose modem was built at that time. What is behind the two
timestamps makes no difference. -/
theorem update_checks_modem (edify : Edify) {hook : Info → Info}
    (hhook : hook ∈ [fullOTAAssertions, incrementalOTAAssertions]) {text gap rest junk : Mem}
    {required current : Timestamp} (hplace : FirstPlace text gap rest)
    (hversion : nextText rest = required.render ++ junk) (hplain : Plain junk) (hstar : 42 ∉ junk)
    {image tail : Mem} {o fuel : ℕ} {sys : Sys} (hsys : ReadsImage sys image)
    (hmax : image.length + 13 ≤ intMax) (hfuel : image.length + 14 ≤ fuel)
    (hfirst : FirstAt modemVerStr image o)
    (himage : image.drop (o + 14) = current.render ++ tail) (hnul : 0 ∈ tail)
    (locals : Locals modemVerStrLen) {buf : Mem} (hbuf : buf.length = modemVerBufLen)
    (functions : Functions) (script : List Mem) :
    ∃ cmd, (hook ⟨text, script⟩).script = script ++ [cmd] ∧
      (edify.passes (registerLibrecoveryUpdater fuel locals sys buf functions) cmd ↔
        current = required) := by
  have hrun : (hook ⟨text, script⟩).script = (addModemAssertion ⟨text, script⟩).script := by
    rcases List.mem_pair.mp hhook with rfl | rfl
    · rfl
    · rfl
  -- an empty version or a wildcard would not be checked
  have husable : Usable (required.render ++ junk) := by
    refine ⟨fun hnil => ?_, fun hmem => ?_⟩
    · have hlen := congrArg List.length hnil
      rw [List.length_append, required.length_render] at hlen
      simp at hlen
    · rcases List.mem_append.mp hmem with hmem | hmem
      · exact (plain_render required 42 hmem).2.2.2.2 rfl
      · exact hstar hmem
  have hliteral : Plain (required.render ++ junk) := by
    intro b hb
    rcases List.mem_append.mp hb with hb | hb
    · rcases plain_render required b hb with ⟨h0, h10, h34, h92, -⟩
      exact ⟨h0, h10, h34, h92⟩
    · exact hplain b hb
  refine ⟨command (required.render ++ junk), ?_, ?_⟩
  · rw [hrun, script_of_firstPlace hplace, hversion, appended, if_pos husable]
  · have hleft := leavesVersion_timestamp hsys hmax hfuel hfirst himage hnul locals hbuf
    have hverify := hleft.one_iff "meizu_sm8150.verify_modem" [(required, junk)]
    rw [List.map_singleton] at hverify
    -- the command calls the registered function with the text between its quotes
    rw [edify.passes_verify _ _ _ (if_pos rfl) hliteral]
    constructor
    · intro hpass
      obtain ⟨a, ha, heq⟩ := hverify.mp hpass
      rw [List.mem_singleton.mp ha] at heq
      exact heq.symm
    · exact fun heq => hverify.mpr ⟨(required, junk), List.mem_cons_self, heq.symm⟩

/-- An interpreter that knows no other command. -/
def onlyVerify : Edify where
  passes functions cmd := ∃ f version, functions "meizu_sm8150.verify_modem" = some f ∧
    cmd = command version ∧ f [version] = .ok (.stringValue (ascii "1"))
  passes_verify functions f version hf _ := by
    constructor
    · intro h
      obtain ⟨f', version', hf', hcmd, hrun⟩ := h
      rw [hf] at hf'
      rwa [Option.some.inj hf', command_inj hcmd]
    · exact fun hrun => ⟨f, version, hf, rfl, hrun⟩

/-- A requirement with more behind the timestamp, and a modem that has it. -/
theorem update_checks_modem_december :
    ∃ cmd, (fullOTAAssertions
        ⟨ascii "require version-modem= 2019-12-01 10:00:00 (release)\n", []⟩).script = [cmd] ∧
      onlyVerify.passes (registerLibrecoveryUpdater 60 default
        (Sys.ofImage (ascii "Time_Stamp\": \"2019-12-01 10:00:00\"" ++ [0]))
        (List.replicate 20 1) (fun _ => none)) cmd := by
  have hplace : FirstPlace (ascii "require version-modem= 2019-12-01 10:00:00 (release)\n") []
      (ascii " 2019-12-01 10:00:00 (release)\n") :=
    ⟨0, by decide, ⟨[32], by decide, List.forall_mem_singleton.mpr (by decide),
      List.forall_mem_nil _, by decide⟩, fun j hj => absurd hj (Nat.not_lt_zero j)⟩
  have hversion : nextText (ascii " 2019-12-01 10:00:00 (release)\n")
      = december.render ++ ascii " (release)" := by decide
  have hplain : Plain (ascii " (release)") := by
    have hall : (ascii " (release)").all fun b => b ≠ 0 ∧ b ≠ 10 ∧ b ≠ 34 ∧ b ≠ 92 := by decide
    exact fun b hb => of_decide_eq_true (List.all_eq_true.mp hall b hb)
  have hfirst : FirstAt modemVerStr (ascii "Time_Stamp\": \"2019-12-01 10:00:00\"" ++ [0]) 0 := by
    rw [← naiveSearch_eq_some (by decide)]
    decide
  have htail : (ascii "Time_Stamp\": \"2019-12-01 10:00:00\"" ++ [0]).drop (0 + 14)
      = december.render ++ [34, 0] := by decide
  have hzero : (0 : UInt8) ∈ [34, 0] := by decide
  have hhook : fullOTAAssertions ∈ [fullOTAAssertions, incrementalOTAAssertions] :=
    List.mem_cons_self
  have hfuel : (ascii "Time_Stamp\": \"2019-12-01 10:00:00\"" ++ [0]).length + 14 ≤ 60 := by decide
  have hbuf : (List.replicate 20 1 : Mem).length = modemVerBufLen := by decide
  obtain ⟨cmd, hscript, hpasses⟩ := update_checks_modem onlyVerify hhook hplace hversion hplain
    (by decide) (readsImage_ofImage (by decide)) (by decide) hfuel hfirst htail hzero default hbuf
    (fun _ => none) []
  exact ⟨cmd, hscript, hpasses.mpr rfl⟩

end MeizuSm8150.Ota
