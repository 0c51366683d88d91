import MeizuSm8150.Lib.CMachine
import Mathlib.Data.List.TakeWhile

/-!
# NUL-terminated strings

The string functions of the C library on checked memory, each reading exactly the bytes its
documentation says: `strncmp` stops at the first difference or NUL, `strlen` and a `%s`
conversion read up to and including the terminator, however little of the string is kept.
-/

namespace CString

open CMachine

/-! ## `strncmp` -/

/-- Compare the bytes number `t`. -/
def strncmpStep (a : Mem) (p : ℕ) (b : Mem) (q n : ℕ) (t : ℕ) : Run (Step ℕ ℤ) :=
  if t < n then do
    let x ← a.read (p + t)
    let y ← b.read (q + t)
    if x ≠ y then return .done (x.toNat - y.toNat)
    else if x = 0 then return .done 0
    else return .next (t + 1)
  else return .done 0

/-- `strncmp(a + p, b + q, n)`. -/
def strncmp (a : Mem) (p : ℕ) (b : Mem) (q n : ℕ) : Run ℤ :=
  iterate (strncmpStep a p b q n) (n + 1) 0

/-- The `n` bytes from `a + p` and from `b + q` agree as far as `strncmp` looks, which is to
their first NUL. -/
def EqUpTo (a : Mem) (p : ℕ) (b : Mem) (q n : ℕ) : Prop :=
  ∀ t, t < n → (∀ s, s < t → a[p + s]? ≠ some 0) → a[p + t]? = b[q + t]?

/-- `strncmp` stays inside its two objects and returns `0` exactly on agreement. -/
theorem strncmp_spec {a : Mem} {p : ℕ} {b : Mem} {q n : ℕ} (ha : p + n ≤ a.length)
    (hb : q + n ≤ b.length) : ∃ r, strncmp a p b q n = .ok r ∧ (r = 0 ↔ EqUpTo a p b q n) := by
  refine iterate_total
    (fun t => t ≤ n ∧ ∀ s, s < t → a[p + s]? = b[q + s]? ∧ a[p + s]? ≠ some 0)
    (fun t => n - t) _ ?_ (n + 1) 0 ⟨by omega, fun s hs => by omega⟩ (by omega)
  intro t hI
  rcases hI with ⟨htn, hpre⟩
  by_cases ht : t < n
  · have hx := Mem.read_lt (m := a) (show p + t < a.length by omega) (i := (p : ℤ) + t) (by simp)
    have hy := Mem.read_lt (m := b) (show q + t < b.length by omega) (i := (q : ℤ) + t) (by simp)
    have hax := List.getElem?_eq_getElem (show p + t < a.length by omega)
    have hby := List.getElem?_eq_getElem (show q + t < b.length by omega)
    have hrun : strncmpStep a p b q n t = (if a[p + t] ≠ b[q + t] then
        pure (.done ((a[p + t].toNat : ℤ) - b[q + t].toNat))
        else if a[p + t] = 0 then pure (.done 0) else pure (.next (t + 1))) := by
      rw [strncmpStep, if_pos ht, hx, hy]
      rfl
    rw [hrun]
    by_cases hne : a[p + t] = b[q + t]
    · rw [if_neg (not_not.mpr hne)]
      by_cases h0 : a[p + t] = 0
      · -- both strings end here
        rw [if_pos h0]
        refine Or.inr ⟨0, rfl, iff_of_true rfl fun t' ht' hnul => ?_⟩
        rcases Nat.lt_trichotomy t' t with hlt | rfl | hgt
        · exact (hpre t' hlt).1
        · rw [hax, hby, hne]
        · exact absurd (by rw [hax, h0]) (hnul t hgt)
      · rw [if_neg h0]
        refine Or.inl ⟨t + 1, rfl, ⟨by omega, fun s hs => ?_⟩, by omega⟩
        rcases Nat.lt_succ_iff_lt_or_eq.mp hs with hlt | rfl
        · exact hpre s hlt
        · exact ⟨by rw [hax, hby, hne], by rw [hax]; exact fun h => h0 (Option.some.inj h)⟩
    · rw [if_pos hne]
      refine Or.inr ⟨_, rfl, iff_of_false ?_ fun heq => hne ?_⟩
      · intro hsub
        exact hne (UInt8.toNat_inj.mp (by omega))
      · have hget := heq t ht fun s hs => (hpre s hs).2
        rw [hax, hby] at hget
        exact Option.some.inj hget
  · refine Or.inr ⟨0, by rw [strncmpStep, if_neg ht]; rfl, iff_of_true rfl fun s hs _ => ?_⟩
    exact (hpre s (by omega)).1

/-! ## Strings that end at a NUL -/

/-- The string that starts at the front of `m`, without its terminator. -/
def cstr (m : Mem) : Mem := m.takeWhile (· ≠ 0)

/-- Look at the byte number `k` of the string at `m + off`. -/
def strlenStep (m : Mem) (off : ℕ) (k : ℕ) : Run (Step ℕ ℕ) := do
  let b ← m.read (off + k)
  if b = 0 then return .done k else return .next (k + 1)

/-- `strlen(m + off)`, which reads the terminator too. -/
def strlen (m : Mem) (off : ℕ) : Run ℕ := iterate (strlenStep m off) (m.length + 1) 0

/-- `snprintf(dst, size, "%s", m + off)`: the buffer after the call. -/
def snprintfS (dst : Mem) (size : ℕ) (m : Mem) (off : ℕ) : Run Mem := do
  let n ← strlen m off
  if size = 0 then return dst
  let k := min n (size - 1)
  if k < dst.length then return (m.drop off).take k ++ 0 :: dst.drop (k + 1)
  else .error (.outOfBounds k dst.length)

theorem zero_not_mem_cstr (m : Mem) : 0 ∉ cstr m := by
  intro h
  simpa using List.mem_takeWhile_imp h

/-- A NUL-free string in front of a terminator is what is read back. -/
theorem cstr_append_nul {s : Mem} (h : 0 ∉ s) (rest : Mem) : cstr (s ++ 0 :: rest) = s := by
  have hpos : ∀ b ∈ s, decide (b ≠ 0) = true := by
    intro b hb
    simpa using fun h0 : b = 0 => h (h0 ▸ hb)
  rw [cstr, List.takeWhile_append_of_pos hpos]
  simp

theorem cstr_of_not_mem {s : Mem} (h : 0 ∉ s) : cstr s = s := by
  rw [cstr, List.takeWhile_eq_self_iff]
  intro b hb
  simpa using fun h0 : b = 0 => h (h0 ▸ hb)

/-- The bytes in front of the first NUL, and the NUL. -/
theorem exists_first_nul {m : Mem} (h : 0 ∈ m) :
    m[(cstr m).length]? = some 0 ∧ ∀ t, t < (cstr m).length → m[t]? ≠ some 0 := by
  induction m with
  | nil => cases h
  | cons b m ih =>
    by_cases hb : b = 0
    · subst hb
      simp [cstr]
    · have hcons : cstr (b :: m) = b :: cstr m := by simp [cstr, hb]
      rcases ih (by simpa [Ne.symm hb] using h) with ⟨hnul, hpre⟩
      rw [hcons]
      refine ⟨by simpa using hnul, fun t ht => ?_⟩
      cases t with
      | zero => simpa using hb
      | succ t => simpa using hpre t (by simpa using ht)

/-- The bytes from `off` on, by their index in the object. -/
theorem mem_drop_iff {m : Mem} {off : ℕ} {b : UInt8} :
    b ∈ m.drop off ↔ ∃ k, off ≤ k ∧ m[k]? = some b := by
  simp only [List.mem_iff_getElem?, List.getElem?_drop]
  constructor
  · intro h
    rcases h with ⟨i, hi⟩
    exact ⟨off + i, by omega, hi⟩
  · intro h
    rcases h with ⟨k, hk, hget⟩
    exact ⟨k - off, by rwa [show off + (k - off) = k by omega]⟩

theorem strlenStep_lt {m : Mem} {off k : ℕ} (h : off + k < m.length) :
    strlenStep m off k = .ok (if m[off + k] = 0 then .done k else .next (k + 1)) := by
  rw [strlenStep, Mem.read_lt h (by simp), ok_bind]
  split <;> rfl

/-- With a NUL ahead, `strlen` returns the length of the string. -/
theorem strlen_of_mem {m : Mem} {off : ℕ} (h : 0 ∈ m.drop off) :
    strlen m off = .ok (cstr (m.drop off)).length := by
  rcases exists_first_nul h with ⟨hnul, hpre⟩
  simp only [List.getElem?_drop] at hnul hpre
  have hlen := (List.getElem?_eq_some_iff.mp hnul).1
  have hstep : ∀ k, k ≤ (cstr (m.drop off)).length →
      (∃ k', strlenStep m off k = .ok (.next k') ∧ k' ≤ (cstr (m.drop off)).length ∧
        (cstr (m.drop off)).length - k' < (cstr (m.drop off)).length - k) ∨
      ∃ r, strlenStep m off k = .ok (.done r) ∧ r = (cstr (m.drop off)).length := by
    intro k hk
    have hget := List.getElem?_eq_getElem (show off + k < m.length by omega)
    rw [strlenStep_lt (by omega)]
    rcases Nat.lt_or_eq_of_le hk with hlt | heq
    · have hne : m[off + k] ≠ 0 := fun h0 => hpre k hlt (by rw [hget, h0])
      exact Or.inl ⟨k + 1, by rw [if_neg hne], by omega, by omega⟩
    · -- the terminator
      subst heq
      have h0 : m[off + (cstr (m.drop off)).length] = 0 := by
        rw [hget] at hnul
        exact Option.some.inj hnul
      exact Or.inr ⟨_, by rw [if_pos h0], rfl⟩
  rcases iterate_total _ _ _ hstep (m.length + 1) 0 (by omega) (by omega) with ⟨r, hr, rfl⟩
  exact hr

/-- Without a NUL ahead, `strlen` reads past the end of its object. -/
theorem strlen_of_not_mem {m : Mem} {off : ℕ} (hoff : off ≤ m.length)
    (h : 0 ∉ m.drop off) : strlen m off = .error (.outOfBounds m.length m.length) := by
  refine iterate_ends (fun k => off + k ≤ m.length) (fun k => m.length - k)
    (fun x => x = .error (.outOfBounds m.length m.length)) (fun k hk => ?_)
    (m.length + 1) 0 (by omega) (by omega)
  rcases Nat.lt_or_eq_of_le hk with hlt | heq
  · have hne : m[off + k] ≠ 0 := by
      intro h0
      apply h
      rw [← h0]
      exact mem_drop_iff.mpr ⟨off + k, by omega, List.getElem?_eq_getElem hlt⟩
    exact Or.inl ⟨k + 1, by rw [strlenStep_lt hlt, if_neg hne], by omega, by omega⟩
  · -- every byte was looked at, and the next index is the length
    refine Or.inr (Or.inr ⟨_, ?_, rfl⟩)
    rw [strlenStep, Mem.read_ge (by omega), error_bind, show (off : ℤ) + k = m.length by omega]

/-- With a NUL ahead and room in the buffer, a `%s` conversion keeps as much of the string
as fits in front of a terminator. -/
theorem snprintfS_of_mem {dst : Mem} {size : ℕ} {m : Mem} {off : ℕ} (hsize : 1 ≤ size)
    (hdst : size ≤ dst.length) (h : 0 ∈ m.drop off) :
    snprintfS dst size m off = .ok ((cstr (m.drop off)).take (size - 1) ++
      0 :: dst.drop (((cstr (m.drop off)).take (size - 1)).length + 1)) := by
  have hk : min (cstr (m.drop off)).length (size - 1) < dst.length := by omega
  have htake : (m.drop off).take (min (cstr (m.drop off)).length (size - 1))
      = (cstr (m.drop off)).take (size - 1) := by
    have hpre : cstr (m.drop off) = (m.drop off).take (cstr (m.drop off)).length :=
      List.prefix_iff_eq_take.mp (List.takeWhile_prefix _)
    rw [Nat.min_comm, ← List.take_take, ← hpre]
  rw [snprintfS, strlen_of_mem h, ok_bind, if_neg (by omega)]
  dsimp only
  rw [if_pos hk, htake, List.length_take, Nat.min_comm]
  rfl

/-- Without a NUL ahead, a `%s` conversion reads past the end of its argument. -/
theorem snprintfS_of_not_mem {dst : Mem} {size : ℕ} {m : Mem} {off : ℕ}
    (hoff : off ≤ m.length) (h : 0 ∉ m.drop off) :
    snprintfS dst size m off = .error (.outOfBounds m.length m.length) := by
  rw [snprintfS, strlen_of_not_mem hoff h, error_bind]

end CString
