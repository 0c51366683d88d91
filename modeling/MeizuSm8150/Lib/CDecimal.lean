import MeizuSm8150.Lib.CMachine
import MeizuSm8150.Lib.Spans
import Mathlib.Algebra.Order.Group.Nat

/-!
# Decimal numbers in text

Character classes of the C locale, decimal numbers printed with a fixed number of digits, and
the signed integer at the front of a text as `strtol`, `std::stoi` and `std::istream` read it.
-/

namespace CDecimal

open CMachine Spans

/-! ## Characters -/

def isSpace (b : UInt8) : Bool := b = 32 ∨ 9 ≤ b ∧ b ≤ 13

def isDigit (b : UInt8) : Bool := 48 ≤ b ∧ b ≤ 57

def digitVal (b : UInt8) : ℕ := b.toNat - 48

/-- The ASCII digit of a number below `10`. -/
def digitByte (k : ℕ) : UInt8 := (48 + k).toUInt8

/-- The last `w` decimal digits of `v`, leading zeros included. -/
def decimal : ℕ → ℕ → Mem
  | 0, _ => []
  | w + 1, v => digitByte (v / 10 ^ w % 10) :: decimal w v

theorem digitByte_spec {k : ℕ} (h : k < 10) :
    isDigit (digitByte k) = true ∧ digitVal (digitByte k) = k := by
  have hall : ∀ k, k < 10 → isDigit (digitByte k) = true ∧ digitVal (digitByte k) = k := by decide
  exact hall k h

@[simp] theorem length_decimal (w v : ℕ) : (decimal w v).length = w := by
  induction w with
  | zero => rfl
  | succ w ih => rw [decimal, List.length_cons, ih]

theorem zero_not_mem_decimal (w v : ℕ) : 0 ∉ decimal w v := by
  have hall : ∀ k, k < 10 → 0 ≠ digitByte k := by decide
  induction w with
  | zero => exact List.not_mem_nil
  | succ w ih => exact List.not_mem_cons_of_ne_of_not_mem (hall _ (Nat.mod_lt _ (by decide))) ih

theorem isDigit_of_mem_decimal {w v : ℕ} {b : UInt8} (h : b ∈ decimal w v) :
    isDigit b = true := by
  induction w with
  | zero => exact absurd h List.not_mem_nil
  | succ w ih =>
    rcases List.mem_cons.mp h with rfl | h
    · exact (digitByte_spec (Nat.mod_lt _ (by decide))).1
    · exact ih h

/-! ## Signed integers -/

/-- The number digits stand for, most significant first. -/
def digitsVal (ds : Mem) : ℕ := ds.foldl (fun v b => v * 10 + digitVal b) 0

/-- The sign in front of a number, and what follows it. -/
def takeSign : Mem → Bool × Mem
  | 45 :: s => (true, s)
  | 43 :: s => (false, s)
  | s => (false, s)

/-- White space, an optional sign and at least one digit; whatever follows the digits is left. -/
def leadingInt (s : Mem) : Option ℤ :=
  let (negative, s) := takeSign (s.dropWhile isSpace)
  let ds := s.takeWhile isDigit
  if ds = [] then none
  else some (if negative then -(digitsVal ds : ℤ) else digitsVal ds)

/-- `s` starts with `v` in decimal: an optional sign, and digits up to something that is none. -/
def StartsWithInt (s : Mem) (v : ℤ) : Prop :=
  ∃ sign ds rest : Mem, s = sign ++ (ds ++ rest) ∧ ds ≠ [] ∧ (∀ b ∈ ds, isDigit b = true) ∧
    Stops isDigit rest ∧ ((sign = [] ∨ sign = ascii "+") ∧ v = digitsVal ds ∨
      sign = ascii "-" ∧ v = -(digitsVal ds : ℤ))

theorem leadingInt_of_stops {s : Mem} (h : Stops isSpace s) : leadingInt s
    = if (takeSign s).2.takeWhile isDigit = [] then none
      else some (if (takeSign s).1 then -(digitsVal ((takeSign s).2.takeWhile isDigit) : ℤ)
        else digitsVal ((takeSign s).2.takeWhile isDigit)) := by
  rw [leadingInt, dropWhile_of_stops h]

/-- A digit is no sign. -/
theorem takeSign_of_isDigit {b : UInt8} (h : isDigit b = true) (s : Mem) :
    takeSign (b :: s) = (false, b :: s) := by
  unfold takeSign
  split
  · simp_all [isDigit]
  · simp_all [isDigit]
  · rfl

/-- The sign that was taken. -/
theorem takeSign_eq (s : Mem) : ∃ sign, s = sign ++ (takeSign s).2 ∧
    ((sign = [] ∨ sign = ascii "+") ∧ (takeSign s).1 = false ∨
      sign = ascii "-" ∧ (takeSign s).1 = true) := by
  unfold takeSign
  split
  · exact ⟨ascii "-", rfl, Or.inr ⟨rfl, rfl⟩⟩
  · exact ⟨ascii "+", rfl, Or.inl ⟨Or.inr rfl, rfl⟩⟩
  · exact ⟨[], rfl, Or.inl ⟨Or.inl rfl, rfl⟩⟩

theorem leadingInt_eq_some {s : Mem} (h : Stops isSpace s) {v : ℤ} :
    leadingInt s = some v ↔ StartsWithInt s v := by
  rw [leadingInt_of_stops h]
  constructor
  · intro hv
    obtain ⟨sign, hs, hsign⟩ := takeSign_eq s
    by_cases hds : (takeSign s).2.takeWhile isDigit = []
    · rw [if_pos hds] at hv
      cases hv
    · rw [if_neg hds] at hv
      refine ⟨sign, _, (takeSign s).2.dropWhile isDigit, ?_, hds,
        fun b hb => List.mem_takeWhile_imp hb, stops_dropWhile _, ?_⟩
      · rwa [List.takeWhile_append_dropWhile]
      · rcases hsign with ⟨hpos, hneg⟩ | ⟨hminus, hneg⟩
        · simp only [hneg] at hv
          exact Or.inl ⟨hpos, (Option.some.inj hv).symm⟩
        · simp only [hneg] at hv
          exact Or.inr ⟨hminus, (Option.some.inj hv).symm⟩
  · intro hstart
    obtain ⟨sign, ds, rest, rfl, hne, hds, hrest, hv⟩ := hstart
    have htake : (ds ++ rest).takeWhile isDigit = ds := takeWhile_append hds hrest
    rcases hv with ⟨rfl | rfl, rfl⟩ | ⟨rfl, rfl⟩
    · obtain ⟨b, ds, rfl⟩ := List.exists_cons_of_ne_nil hne
      have hsign : takeSign ([] ++ (b :: ds ++ rest)) = (false, b :: ds ++ rest) :=
        takeSign_of_isDigit (hds b List.mem_cons_self) _
      rw [hsign, htake, if_neg hne]
      rfl
    · have hsign : takeSign (ascii "+" ++ (ds ++ rest)) = (false, ds ++ rest) := rfl
      rw [hsign, htake, if_neg hne]
      rfl
    · have hsign : takeSign (ascii "-" ++ (ds ++ rest)) = (true, ds ++ rest) := rfl
      rw [hsign, htake, if_neg hne]
      rfl

/-- The value fits in an `int`. -/
def FitsInt (v : ℤ) : Prop := -2147483648 ≤ v ∧ v ≤ intMax

instance (v : ℤ) : Decidable (FitsInt v) := by unfold FitsInt; infer_instance

/-- `stream >> v` for an `int`: `none` is a stream that failed. -/
def readInt (s : Mem) : Option ℤ :=
  match leadingInt s with
  | some v => if FitsInt v then some v else none
  | none => none

/-! ## Printed integers -/

theorem ascii_append (s t : String) : ascii (s ++ t) = ascii s ++ ascii t := by
  rw [ascii, String.toList_append, List.map_append]
  rfl

theorem digitsVal_concat (ds : Mem) (b : UInt8) :
    digitsVal (ds ++ [b]) = digitsVal ds * 10 + digitVal b := by
  rw [digitsVal, List.foldl_append]
  rfl

/-- A number below `10` is printed as its digit. -/
theorem digitChar_toUInt8 {k : ℕ} (h : k < 10) : k.digitChar.toNat.toUInt8 = digitByte k := by
  rw [Nat.toNat_digitChar_of_lt_ten h, digitByte]

/-- What is printed for a number are digits, at least one, that stand for it. -/
theorem digits_repr (n : ℕ) : ascii n.repr ≠ [] ∧ (∀ b ∈ ascii n.repr, isDigit b = true) ∧
    digitsVal (ascii n.repr) = n := by
  induction n using Nat.strongRecOn with
  | ind n ih =>
    by_cases hlt : n < 10
    · have hone : ascii n.repr = [digitByte n] := by
        rw [ascii, Nat.toList_repr, Nat.toDigits_of_lt_base hlt, List.map_singleton,
          digitChar_toUInt8 hlt]
      rcases digitByte_spec hlt with ⟨hdigit, hval⟩
      rw [hone]
      exact ⟨List.cons_ne_nil _ _, List.forall_mem_singleton.mpr hdigit, by simp [digitsVal, hval]⟩
    · -- the last digit behind those of the quotient
      have hsplit : ascii n.repr = ascii (n / 10).repr ++ [digitByte (n % 10)] := by
        rw [ascii, Nat.toList_repr, Nat.toDigits_of_base_le (by decide) (Nat.le_of_not_lt hlt),
          List.map_append, List.map_singleton, digitChar_toUInt8 (Nat.mod_lt n (by decide)), ascii,
          Nat.toList_repr]
      rcases ih (n / 10) (by omega) with ⟨-, hdigits, hval⟩
      rcases digitByte_spec (Nat.mod_lt n (by decide : 10 > 0)) with ⟨hdigit, hlast⟩
      rw [hsplit, digitsVal_concat, hval, hlast]
      refine ⟨by simp, fun b hb => ?_, Nat.div_add_mod' n 10⟩
      rcases List.mem_append.mp hb with hb | hb
      · exact hdigits b hb
      · rwa [List.mem_singleton.mp hb]

/-- A printed integer is read back, up to whatever no digit follows it. -/
theorem leadingInt_toString (v : ℤ) {rest : Mem} (h : Stops isDigit rest) :
    leadingInt (ascii (toString v) ++ rest) = some v := by
  rw [Int.toString_eq_repr, Int.repr_eq_if]
  by_cases hv : 0 ≤ v
  · rw [if_pos hv]
    rcases digits_repr v.toNat with ⟨hne, hdigits, hval⟩
    have hstops : Stops isSpace (ascii v.toNat.repr ++ rest) := by
      obtain ⟨b, ds, hds⟩ := List.exists_cons_of_ne_nil hne
      have hb := hdigits b (by rw [hds]; exact List.mem_cons_self)
      rw [hds, List.cons_append, stops_cons]
      simp only [isDigit, decide_eq_true_eq, UInt8.le_iff_toNat_le] at hb
      simp only [isSpace, decide_eq_false_iff_not, ← UInt8.toNat_inj, UInt8.le_iff_toNat_le]
      simp only [UInt8.reduceToNat] at *
      omega
    rw [leadingInt_eq_some hstops]
    exact ⟨[], _, rest, rfl, hne, hdigits, h, Or.inl ⟨Or.inl rfl, by rw [hval]; omega⟩⟩
  · rw [if_neg hv]
    rcases digits_repr (-v).toNat with ⟨hne, hdigits, hval⟩
    have hstops : Stops isSpace (ascii ("-" ++ (-v).toNat.repr) ++ rest) := by
      rw [ascii_append, List.append_assoc]
      exact stops_append (by decide) _
    rw [leadingInt_eq_some hstops, ascii_append, List.append_assoc]
    exact ⟨ascii "-", _, rest, rfl, hne, hdigits, h, Or.inr ⟨rfl, by rw [hval]; omega⟩⟩

/-- What is printed for an `int` is read back from a stream. -/
theorem readInt_toString {v : ℤ} (h : FitsInt v) {rest : Mem} (hrest : Stops isDigit rest) :
    readInt (ascii (toString v) ++ rest) = some v := by
  rw [readInt, leadingInt_toString v hrest]
  exact if_pos h

/-- The exceptions of `std::stoi`. -/
inductive StoiError where
  | invalidArgument
  | outOfRange
deriving Repr, DecidableEq

/-- `std::stoi`. -/
def stoi (s : Mem) : Except StoiError ℤ :=
  match leadingInt s with
  | some v => if FitsInt v then .ok v else .error .outOfRange
  | none => .error .invalidArgument

end CDecimal
