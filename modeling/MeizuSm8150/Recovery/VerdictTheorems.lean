import MeizuSm8150.Recovery.VerifyModem

/-!
# The verdict as a function of the partition

On a partition whose marker is followed by a timestamp, and for arguments that start with
timestamps, the verdict is whether the timestamps agree, whatever is behind them
(`verifyModemFn_image`).
-/

namespace MeizuSm8150.Recovery

open CMachine CString CDecimal CTime Matching

/-! ## Timestamps with something behind them -/

theorem Timestamp.cstr_append (t : Timestamp) (rest : Mem) :
    cstr (t.render ++ rest) = t.render ++ cstr rest := by
  have hpos : ∀ b ∈ t.render, decide (b ≠ 0) = true := by
    intro b hb
    simpa using fun h0 : b = 0 => t.zero_not_mem_render (h0 ▸ hb)
  rw [cstr, cstr, List.takeWhile_append_of_pos hpos]

theorem Timestamp.instant_append (t : Timestamp) (rest : Mem) :
    instant (cstr (t.render ++ rest)) = t.tm.seconds := by
  rw [t.cstr_append, instant, t.strptime_append]
  rfl

/-- The buffer has room for the timestamp and no more. -/
theorem versionAt_timestamp {image tail : Mem} {o : ℕ} {t : Timestamp}
    (himage : image.drop (o + 14) = t.render ++ tail) : versionAt image o = t.render := by
  have hcut : versionAt image o = (cstr (t.render ++ tail)).take 19 := by
    rw [versionAt, himage]
    rfl
  rw [hcut, t.cstr_append, ← t.length_render, List.take_left]

theorem leavesVersion_timestamp {image tail : Mem} {o fuel : ℕ} {sys : Sys} {t : Timestamp}
    (hsys : ReadsImage sys image) (hmax : image.length + 13 ≤ intMax)
    (hfuel : image.length + 14 ≤ fuel) (hfirst : FirstAt modemVerStr image o)
    (himage : image.drop (o + 14) = t.render ++ tail) (hnul : 0 ∈ tail)
    (locals : Locals modemVerStrLen) {buf : Mem} (hbuf : buf.length = modemVerBufLen) :
    LeavesVersion fuel locals sys buf t.render := by
  have hdrop : 0 ∈ image.drop (o + 14) := by
    rw [himage]
    exact List.mem_append_right _ hnul
  exact versionAt_timestamp himage ▸ leavesVersion_versionAt hsys hmax hfuel hbuf
    ((naiveSearch_eq_some (by decide)).mpr hfirst) hdrop

/-- The verdict compares timestamps, whatever follows those of the arguments. -/
theorem LeavesVersion.one_iff {fuel : ℕ} {locals : Locals modemVerStrLen} {sys : Sys} {buf : Mem}
    {t : Timestamp} (h : LeavesVersion fuel locals sys buf t.render) (name : String)
    (args : List (Timestamp × Mem)) :
    verifyModemFn fuel locals sys buf name (some (args.map fun a => a.1.render ++ a.2))
      = .ok (.stringValue (ascii "1")) ↔ ∃ a ∈ args, a.1 = t := by
  rw [verifyModemFn_one_iff name h]
  simp only [List.mem_map, exists_exists_and_eq_and]
  constructor
  · intro hinstant
    obtain ⟨a, ha, heq⟩ := hinstant
    rw [a.1.instant_append, t.instant_render] at heq
    exact ⟨a, ha, Timestamp.seconds_inj heq⟩
  · intro hmem
    obtain ⟨a, ha, rfl⟩ := hmem
    exact ⟨a, ha, by rw [a.1.instant_append, a.1.instant_render]⟩

/-- The verdict compares timestamps: what follows them on the partition or in an argument makes
no difference, and neither does the stack. -/
theorem verifyModemFn_image {image tail : Mem} {o fuel : ℕ} {sys : Sys} {t : Timestamp}
    (hsys : ReadsImage sys image) (hmax : image.length + 13 ≤ intMax)
    (hfuel : image.length + 14 ≤ fuel) (hfirst : FirstAt modemVerStr image o)
    (himage : image.drop (o + 14) = t.render ++ tail) (hnul : 0 ∈ tail)
    (locals : Locals modemVerStrLen) {buf : Mem} (hbuf : buf.length = modemVerBufLen)
    (name : String) (args : List (Timestamp × Mem)) :
    ((∃ a ∈ args, a.1 = t) →
      verifyModemFn fuel locals sys buf name (some (args.map fun a => a.1.render ++ a.2))
        = .ok (.stringValue (ascii "1"))) ∧
    ((∀ a ∈ args, a.1 ≠ t) →
      verifyModemFn fuel locals sys buf name (some (args.map fun a => a.1.render ++ a.2))
        = .ok (.stringValue (ascii "0"))) := by
  have hleft := leavesVersion_timestamp hsys hmax hfuel hfirst himage hnul locals hbuf
  have hone := hleft.one_iff name args
  refine ⟨hone.mpr, fun hnot => verifyModemFn_zero name hleft fun h => ?_⟩
  obtain ⟨a, ha, heq⟩ := hone.mp h
  exact hnot a ha heq

def december : Timestamp :=
  ⟨2019, 12, 1, 10, 0, 0, by decide, ⟨by decide, by decide, by decide, by decide⟩, by decide,
    by decide, by decide⟩

/-- A quote behind the timestamp on the partition, and a blank behind the argument. -/
theorem verifyModemFn_image_quoted :
    verifyModemFn 60 default (Sys.ofImage (ascii "xTime_Stamp\": \"2019-12-01 10:00:00\"" ++ [0]))
      (List.replicate 20 1) "verify_modem" (some [december.render ++ ascii " "])
      = .ok (.stringValue (ascii "1")) := by
  have hfirst : FirstAt modemVerStr (ascii "xTime_Stamp\": \"2019-12-01 10:00:00\"" ++ [0]) 1 := by
    rw [← naiveSearch_eq_some (by decide)]
    decide
  have htail : (ascii "xTime_Stamp\": \"2019-12-01 10:00:00\"" ++ [0]).drop (1 + 14)
      = december.render ++ [34, 0] := by decide
  have hzero : (0 : UInt8) ∈ [34, 0] := by decide
  exact (verifyModemFn_image (readsImage_ofImage (by decide)) (by decide) (by decide) hfirst htail
    hzero default (by decide) "verify_modem" [(december, ascii " ")]).1
    ⟨_, List.mem_cons_self, rfl⟩

end MeizuSm8150.Recovery
