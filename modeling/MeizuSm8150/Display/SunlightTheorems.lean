import MeizuSm8150.Display.SunlightEnhancement

/-!
# Reading the attribute

`isEnabled` returns only for contents `std::stoi` accepts: every other content of the attribute
makes it throw, and with nobody to catch that the service ends.
-/

namespace MeizuSm8150.Display

open CMachine CDecimal Sysfs

/-- The attribute as text, read and trimmed. -/
theorem isEnabled_eq {files : Files} {content : Mem} (h : files fileHbm = some content) :
    isEnabled files = match leadingInt (trim content) with
      | some v => if FitsInt v then .ok (decide (v > 0)) else .error .outOfRange
      | none => .error .invalidArgument := by
  rw [isEnabled, h]
  simp only [stoi]
  cases leadingInt (trim content) with
  | none => rfl
  | some v => by_cases hfits : FitsInt v <;> simp [hfits]

/-- The call returns, with whether the number is positive, exactly when the trimmed content
starts with a decimal number that fits in an `int`. -/
theorem isEnabled_iff (files : Files) (content : Mem) (h : files fileHbm = some content) :
    (∃ enabled, isEnabled files = .ok enabled ∧
      (enabled = true ↔ ∃ v, StartsWithInt (trim content) v ∧ 0 < v ∧ FitsInt v)) ↔
      ∃ v, StartsWithInt (trim content) v ∧ FitsInt v := by
  simp only [← leadingInt_eq_some (stops_trim content)]
  rw [isEnabled_eq h]
  cases hlead : leadingInt (trim content) with
  | none => simp
  | some v =>
    by_cases hfits : FitsInt v
    · simp [hfits]
    · simp [hfits]

/-- What `setEnabled` writes, with a newline behind it. -/
theorem isEnabled_iff_newline :
    ∃ enabled, isEnabled (Files.write (fun _ => none) fileHbm (ascii "1\n")) = .ok enabled :=
  have hstart : ∃ v, StartsWithInt (trim (ascii "1\n")) v ∧ FitsInt v :=
    ⟨1, (leadingInt_eq_some (stops_trim _)).mp (by decide), by decide⟩
  have hreturns := (isEnabled_iff _ (ascii "1\n") (Files.write_same _ _ _)).mpr hstart
  hreturns.imp fun _ h => h.1

/-- An empty attribute, a word and a number above the range of `int` each end the service. -/
theorem isEnabled_throws :
    isEnabled (Files.write (fun _ => none) fileHbm []) = .error .invalidArgument ∧
      isEnabled (Files.write (fun _ => none) fileHbm (ascii "on")) = .error .invalidArgument ∧
      isEnabled (Files.write (fun _ => none) fileHbm (ascii "2147483648"))
        = .error .outOfRange := by
  decide +kernel

end MeizuSm8150.Display
