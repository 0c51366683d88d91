import MeizuSm8150.Lib.CString

/-!
# The Boyer-Moore search of the recovery updater

`recovery/recovery_updater.cpp`, statement by statement. A pointer argument is the object it
points to together with the length the caller passes for it, every access is checked against
the object, and integer results are reduced to the width of the variable they are stored in.

`str` and `pat` are `char` buffers; only equality of characters and the cast to `uint8_t`
are used of them, so bytes stand for either signedness of `char`.
-/

namespace MeizuSm8150.Recovery

open CMachine CString

def alphabetLen : ℕ := 256

/-! ## `max_suffix_len` -/

/-- Both characters are compared before `i` is checked against `p`. -/
def maxSuffixLenStep (str : Mem) (strLen p : ℕ) (i : ℕ) : Run (Step ℕ ℕ) := do
  let a ← str.read (p - i)
  let b ← str.read (strLen - 1 - i)
  if a = b ∧ i < p then return .next (i + 1) else return .done i

/-- Longest suffix length of suffix ending at `str[p]`. -/
def maxSuffixLen (str : Mem) (strLen p : ℕ) : Run ℤ := do
  let i ← iterate (maxSuffixLenStep str strLen p) (p + 1) 0
  return toInt i

/-! ## `bm_make_delta1` -/

/-- The counter is a `uint32_t`, the bound a `size_t`. -/
def bmMakeDelta1Step (pat : Mem) (patLen : ℕ) :
    ℕ × Table alphabetLen → Run (Step (ℕ × Table alphabetLen) (Table alphabetLen))
  | (i, delta1) =>
    if i < toSize (patLen - 1) then do
      let idx ← pat.read i
      let delta1 ← delta1.store idx.toNat (toInt (toSize (patLen - 1 - i)))
      return .next (toU32 (i + 1), delta1)
    else return .done delta1

/-- Distance between the last character of `pat` and the rightmost occurrence of each
character in `pat`. -/
def bmMakeDelta1 (fuel : ℕ) (delta1 : Table alphabetLen) (pat : Mem) (patLen : ℕ) :
    Run (Table alphabetLen) := do
  let delta1 ← forUp (fun i delta1 => delta1.store i (toInt patLen)) alphabetLen delta1
  iterate (bmMakeDelta1Step pat patLen) fuel (0, delta1)

/-! ## `bm_make_delta2` -/

/-- First loop: the state is `last_prefix` with the table. -/
def bmMakeDelta2Prefix {n : ℕ} (pat : Mem) (patLen : ℕ) (p : ℕ) :
    ℕ × Table n → Run (ℕ × Table n)
  | (lastPrefix, delta2) => do
    let cmp ← strncmp pat p pat 0 (patLen - p)
    let lastPrefix := if cmp = 0 then toU32 (p + 1) else lastPrefix
    let delta2 ← delta2.store p (toInt (toSize (lastPrefix + (patLen - 1 - p))))
    return (lastPrefix, delta2)

/-- Second loop. -/
def bmMakeDelta2Suffix {n : ℕ} (pat : Mem) (patLen : ℕ) (p : ℕ) (delta2 : Table n) :
    Run (Table n) := do
  let sufLen ← maxSuffixLen pat patLen p
  let a ← pat.read (p - sufLen)
  let b ← pat.read (patLen - 1 - sufLen)
  if a ≠ b then
    delta2.store (patLen - 1 - sufLen) (toInt (toSize (patLen - 1 - p + sufLen)))
  else return delta2

/-- Next possible full match from a mismatch at `pat[p]`. -/
def bmMakeDelta2 {n : ℕ} (delta2 : Table n) (pat : Mem) (patLen : ℕ) : Run (Table n) := do
  let p := toInt (toSize (patLen - 1))
  let lastPrefix := toU32 (toSize (patLen - 1))
  let (_, delta2) ← forDown (bmMakeDelta2Prefix pat patLen) (p + 1).toNat (lastPrefix, delta2)
  forUp (bmMakeDelta2Suffix pat patLen) (toInt (toInt patLen - 1)).toNat delta2

/-! ## `bm_search` -/

/-- The arrays on the stack of `bm_search`, with whatever they hold on entry. -/
structure Locals (patLen : ℕ) where
  delta1 : Table alphabetLen
  delta2 : Table patLen

instance (patLen : ℕ) : Inhabited (Locals patLen) :=
  ⟨Vector.replicate _ 0, Vector.replicate _ 0⟩

/-- Inner loop: compare backwards from the end of the alignment. -/
def bmMatchStep (str pat : Mem) : ℤ × ℤ → Run (Step (ℤ × ℤ) (ℤ × ℤ))
  | (i, j) =>
    if 0 ≤ j then do
      let a ← str.read i
      let b ← pat.read j
      if a = b then return .next (toInt (i - 1), toInt (j - 1)) else return .done (i, j)
    else return .done (i, j)

/-- The inner loop from the end of the alignment whose last text position is `i`. -/
def bmMatch (str pat : Mem) (patLen : ℕ) (i : ℤ) : Run (ℤ × ℤ) :=
  iterate (bmMatchStep str pat) (patLen + 1) (i, toInt (toSize (patLen - 1)))

/-- The value assigned to `i` after a mismatch at `str[i]` and `pat[j]`, before it is stored
in an `int`. -/
def bmSkip {n : ℕ} (delta1 : Table alphabetLen) (delta2 : Table n) (str : Mem) (i j : ℤ) :
    Run ℤ := do
  let c ← str.read i
  let d1 ← delta1.load c.toNat
  let d2 ← delta2.load j
  return i + max d1 d2

/-- Outer loop: an offset into `str`, or no match. -/
def bmSearchStep {n : ℕ} (delta1 : Table alphabetLen) (delta2 : Table n) (str : Mem)
    (strLen : ℕ) (pat : Mem) (patLen : ℕ) (i : ℤ) : Run (Step ℤ (Option ℤ)) :=
  if i < toInt strLen then do
    let (i, j) ← bmMatch str pat patLen i
    if j < 0 then return .done (some (i + 1))
    let i ← bmSkip delta1 delta2 str i j
    return .next (toInt i)
  else return .done none

def bmSearch (fuel : ℕ) {patLen : ℕ} (locals : Locals patLen) (str : Mem) (strLen : ℕ)
    (pat : Mem) : Run (Option ℤ) := do
  let delta1 ← bmMakeDelta1 fuel locals.delta1 pat patLen
  let delta2 ← bmMakeDelta2 locals.delta2 pat patLen
  if patLen = 0 then return some 0
  iterate (bmSearchStep delta1 delta2 str strLen pat patLen) fuel (toInt (toSize (patLen - 1)))

end MeizuSm8150.Recovery
