import MeizuSm8150.Lib.CDecimal
import MeizuSm8150.Lib.CivilDate

/-!
# `strptime` and `mktime`

`struct tm` with the fields of a date and a time of day, `strptime` for the conversions that
fill them, and `mktime` in UTC. `strptime` stores each field as it parses it, so the fields in
front of a failure stay stored; `mktime` accepts fields out of range and writes them back
normalised. A string is the bytes in front of its terminator.
-/

namespace CTime

open CMachine CDecimal

/-! ## Broken-down time -/

/-- `struct tm`, without the day of the week and of the year, which `mktime` only writes, and
the daylight saving flag, which is `0` in UTC. -/
structure Tm where
  sec : ℤ
  min : ℤ
  hour : ℤ
  mday : ℤ
  /-- Months since January. -/
  mon : ℤ
  /-- Years since 1900. -/
  year : ℤ
deriving Repr, DecidableEq

/-- `memset(&tm, 0, sizeof(tm))`. -/
def Tm.zero : Tm := ⟨0, 0, 0, 0, 0, 0⟩

/-- Seconds from the epoch. Months past December go to the year, and the other fields, being
linear, may have any value. -/
def Tm.seconds (tm : Tm) : ℤ :=
  CivilDate.daysFromCivil (tm.year + 1900 + tm.mon / 12) (tm.mon % 12 + 1) tm.mday * 86400
    + tm.hour * 3600 + tm.min * 60 + tm.sec

/-- The normalised fields of a second. -/
def Tm.ofSeconds (t : ℤ) : Tm :=
  let date := CivilDate.civilFromDays (t / 86400)
  { sec := t % 60, min := t / 60 % 60, hour := t / 3600 % 24, mday := date.2.2,
    mon := date.2.1 - 1, year := date.1 - 1900 }

/-- The time, and the fields written back. -/
def mktime (tm : Tm) : ℤ × Tm := (tm.seconds, Tm.ofSeconds tm.seconds)

/-- Normalised fields denote the second they came from. -/
theorem Tm.seconds_ofSeconds (t : ℤ) : (Tm.ofSeconds t).seconds = t := by
  rcases CivilDate.civilFromDays_spec (t / 86400) with ⟨y, m, d, hdate, hm1, hm2, hdays⟩
  unfold Tm.seconds Tm.ofSeconds
  rw [hdate]
  dsimp only
  rw [show y - 1900 + 1900 + (m - 1) / 12 = y by omega,
    show (m - 1) % 12 + 1 = m by omega, hdays]
  omega

/-- Everything but the seconds is whole minutes. -/
theorem Tm.seconds_mod (tm : Tm) : tm.seconds % 60 = tm.sec % 60 := by
  unfold Tm.seconds
  omega

/-- Writing back does not move the time. -/
theorem mktime_mktime (tm : Tm) : (mktime (mktime tm).2).1 = (mktime tm).1 :=
  Tm.seconds_ofSeconds tm.seconds

/-! ## Numbers -/

/-- The digits after the first. One more is taken while `result` with a digit behind it can
still be within `ulim`, and there are no more of them than `ulim` has. -/
def convDigits (ulim : ℕ) : ℕ → ℕ → Mem → ℕ × Mem
  | result, _, [] => (result, [])
  | result, rulim, b :: bp =>
    if result * 10 ≤ ulim ∧ rulim ≠ 0 ∧ isDigit b then
      convDigits ulim (result * 10 + digitVal b) (rulim / 10) bp
    else (result, b :: bp)

/-- An unsigned decimal number from `llim` to `ulim`, and what follows it. -/
def convNum (llim ulim : ℕ) : Mem → Option (ℕ × Mem)
  | [] => none
  | b :: bp =>
    if isDigit b then
      let num := convDigits ulim (digitVal b) (ulim / 10) bp
      if num.1 < llim ∨ ulim < num.1 then none else some num
    else none

/-- With `w` digits of `v` to go, all of them are taken, and nothing behind them. -/
theorem convDigits_decimal {ulim v : ℕ} (hv : v ≤ ulim) (rest : Mem) (w : ℕ) :
    ∀ rulim, rulim < 10 ^ w → (∀ u, w = u + 1 → 10 ^ u ≤ rulim) →
      convDigits ulim (v / 10 ^ w) rulim (decimal w v ++ rest) = (v, rest) := by
  induction w with
  | zero =>
    intro rulim hlt _
    -- no digit is left to take, whatever follows
    obtain rfl : rulim = 0 := by simpa using hlt
    rw [pow_zero, Nat.div_one, decimal, List.nil_append]
    cases rest with
    | nil => rfl
    | cons b rest => rw [convDigits, if_neg (by simp)]
  | succ w ih =>
    intro rulim hlt hge
    rcases digitByte_spec (Nat.mod_lt (v / 10 ^ w) (show 0 < 10 by decide)) with ⟨hdigit, hval⟩
    have hdiv : v / 10 ^ (w + 1) = v / 10 ^ w / 10 := by
      rw [pow_succ, Nat.div_div_eq_div_mul]
    have hle : v / 10 ^ w ≤ v := Nat.div_le_self v _
    have hpos : 0 < 10 ^ w := by positivity
    have hrulim := hge w rfl
    rw [decimal, List.cons_append, convDigits, if_pos ⟨by omega, by omega, hdigit⟩, hval, hdiv,
      show v / 10 ^ w / 10 * 10 + v / 10 ^ w % 10 = v / 10 ^ w by omega]
    apply ih
    · rw [pow_succ] at hlt
      omega
    · intro u hu
      subst hu
      rw [pow_succ] at hrulim
      omega

/-- A number printed with as many digits as the upper limit has is read back. -/
theorem convNum_decimal {llim ulim v w : ℕ} (hl : llim ≤ v) (hu : v ≤ ulim)
    (hw : 10 ^ w ≤ ulim) (hw' : ulim < 10 ^ (w + 1)) (rest : Mem) :
    convNum llim ulim (decimal (w + 1) v ++ rest) = some (v, rest) := by
  have hlt : v / 10 ^ w < 10 := by
    rw [Nat.div_lt_iff_lt_mul (by positivity), Nat.mul_comm, ← pow_succ]
    omega
  rcases digitByte_spec hlt with ⟨hdigit, hval⟩
  have hrun : convDigits ulim (v / 10 ^ w) (ulim / 10) (decimal w v ++ rest) = (v, rest) := by
    apply convDigits_decimal hu
    · rw [pow_succ] at hw'
      omega
    · intro u hu
      subst hu
      rw [pow_succ] at hw
      omega
  rw [decimal, List.cons_append, convNum, Nat.mod_eq_of_lt hlt, if_pos hdigit, hval, hrun]
  dsimp only
  rw [if_neg (by omega)]

/-! ## `strptime` -/

/-- The fields a conversion can fill. -/
inductive Field where
  | year
  | mon
  | mday
  | hour
  | min
  | sec
deriving Repr, DecidableEq

/-- The range of the number a conversion reads. -/
def Field.limits : Field → ℕ × ℕ
  | .year => (0, 9999)
  | .mon => (1, 12)
  | .mday => (1, 31)
  | .hour => (0, 23)
  | .min => (0, 59)
  | .sec => (0, 60)

/-- Store the number read by a conversion. -/
def Field.store : Field → ℕ → Tm → Tm
  | .year, v, tm => { tm with year := v - 1900 }
  | .mon, v, tm => { tm with mon := v - 1 }
  | .mday, v, tm => { tm with mday := v }
  | .hour, v, tm => { tm with hour := v }
  | .min, v, tm => { tm with min := v }
  | .sec, v, tm => { tm with sec := v }

/-- What a format asks for, in order. -/
inductive Directive where
  /-- Any amount of white space. -/
  | space
  /-- This byte. -/
  | literal (b : UInt8)
  | number (f : Field)
  /-- A conversion that fills no field of a date or a time of day. -/
  | unsupported
deriving Repr, DecidableEq

/-- The conversion a letter behind `%` stands for. -/
def conversion (c : UInt8) : Directive :=
  if c = 37 then .literal 37
  else if c = 89 then .number .year
  else if c = 109 then .number .mon
  else if c = 100 then .number .mday
  else if c = 72 then .number .hour
  else if c = 77 then .number .min
  else if c = 83 then .number .sec
  else .unsupported

def directives : Mem → List Directive
  | [] => []
  | [c] => [if c = 37 then .unsupported else if isSpace c then .space else .literal c]
  | c :: d :: fmt =>
    if c = 37 then conversion d :: directives fmt
    else (if isSpace c then .space else .literal c) :: directives (d :: fmt)

/-- Match a string against directives: what is left of it, or `none` where a directive fails,
and the fields stored until then. -/
def scan : List Directive → Mem → Tm → Option Mem × Tm
  | [], bp, tm => (some bp, tm)
  | .space :: ds, bp, tm => scan ds (bp.dropWhile isSpace) tm
  | .literal c :: ds, bp, tm =>
    match bp with
    | b :: bp => if b = c then scan ds bp tm else (none, tm)
    | [] => (none, tm)
  | .number f :: ds, bp, tm =>
    match convNum f.limits.1 f.limits.2 bp with
    | some (v, bp) => scan ds bp (f.store v tm)
    | none => (none, tm)
  | .unsupported :: _, _, tm => (none, tm)

def strptime (buf fmt : Mem) (tm : Tm) : Option Mem × Tm := scan (directives fmt) buf tm

theorem scan_literal {ds : List Directive} {bp : Mem} {tm : Tm} (b : UInt8) :
    scan (.literal b :: ds) (b :: bp) tm = scan ds bp tm := by
  simp [scan]

/-- A conversion reads back a number printed with as many digits as its range allows. -/
theorem scan_decimal {f : Field} {ds : List Directive} {tm : Tm} {v w : ℕ}
    (hl : f.limits.1 ≤ v) (hu : v ≤ f.limits.2) (hw : 10 ^ w ≤ f.limits.2)
    (hw' : f.limits.2 < 10 ^ (w + 1)) (rest : Mem) :
    scan (.number f :: ds) (decimal (w + 1) v ++ rest) tm = scan ds rest (f.store v tm) := by
  rw [scan, convNum_decimal hl hu hw hw']

/-- White space in front of a number is taken, and none of the number. -/
theorem scan_space_decimal {ds : List Directive} {tm : Tm} (w v : ℕ) (rest : Mem) :
    scan (.space :: ds) (32 :: (decimal (w + 1) v ++ rest)) tm
      = scan ds (decimal (w + 1) v ++ rest) tm := by
  have hall : ∀ k, k < 10 → isSpace (digitByte k) = false := by decide
  have hdigit := hall (v / 10 ^ w % 10) (Nat.mod_lt _ (by decide))
  rw [scan, List.dropWhile_cons_of_pos (by decide), decimal, List.cons_append,
    List.dropWhile_cons_of_neg (by simp [hdigit])]

/-- What is converted last is stored only if nothing fails. -/
theorem scan_sec_of_none {ds : List Directive} (hsec : .number .sec ∉ ds) {bp : Mem} {tm : Tm}
    (h : (scan (ds ++ [.number .sec]) bp tm).1 = none) :
    (scan (ds ++ [.number .sec]) bp tm).2.sec = tm.sec := by
  induction ds generalizing bp tm with
  | nil =>
    rw [List.nil_append, scan] at h ⊢
    cases hnum : convNum Field.sec.limits.1 Field.sec.limits.2 bp with
    | none => rfl
    | some num =>
      rw [hnum] at h
      cases h
  | cons d ds ih =>
    rw [List.mem_cons, not_or] at hsec
    rw [List.cons_append] at h ⊢
    cases d with
    | space => exact ih hsec.2 h
    | literal c =>
      cases bp with
      | nil => rfl
      | cons b bp =>
        rw [scan] at h ⊢
        by_cases hb : b = c
        · rw [if_pos hb] at h ⊢
          exact ih hsec.2 h
        · rw [if_neg hb]
    | number f =>
      have hf : f ≠ .sec := fun heq => hsec.1 (by rw [heq])
      rw [scan] at h ⊢
      cases hnum : convNum f.limits.1 f.limits.2 bp with
      | none => rfl
      | some num =>
        rw [hnum] at h
        dsimp only at h ⊢
        rw [ih hsec.2 h]
        cases f with
        | sec => exact absurd rfl hf
        | _ => rfl
    | unsupported => rfl

end CTime
