import MeizuSm8150.Recovery.BoyerMooreSkips

/-!
# Reading the modem version

`get_modem_version` maps the modem partition, searches it for the marker and copies the string
behind it. The system calls are a parameter (`Sys`): what each returns, and `errno` after it.

The marker has no border, so its skips are harmless on every image and the search is the naive
scan. The string behind the marker is read by its terminator, not by the length of the mapping:
`getModemVersion_in_bounds_iff` says when that stays inside.
-/

namespace MeizuSm8150.Recovery

open CMachine CString Matching

def modemVerStr : Mem := ascii "Time_Stamp\": \""

def modemVerStrLen : ℕ := 14

def modemVerBufLen : ℕ := 20

def enoent : ℤ := 2

theorem neg_enoent_ne_zero : -enoent ≠ 0 := by decide

/-! ## The function -/

/-- The system as `get_modem_version` sees it. -/
structure Sys where
  /-- What `open` returns. -/
  fd : ℤ
  /-- What `lseek64` to the end returns, an `off64_t`. -/
  size : ℤ
  /-- What `mmap` of a length returns; `none` is `MAP_FAILED`. -/
  map : ℕ → Option Mem
  openErrno : ℤ
  lseekErrno : ℤ
  mmapErrno : ℤ

/-- The calls that acquire or release something, and the search. -/
inductive Call where
  | openModem
  | mmap (length : ℕ)
  | bmSearch (strLen : ℕ)
  | munmap (length : ℕ)
  | close
deriving Repr, DecidableEq

structure Outcome where
  ret : ℤ
  verStr : Mem
  calls : List Call
deriving Repr, DecidableEq

def getModemVersion (fuel : ℕ) (locals : Locals modemVerStrLen) (sys : Sys) (verStr : Mem)
    (len : ℕ) : Run Outcome :=
  if sys.fd < 0 then return ⟨sys.openErrno, verStr, [.openModem]⟩
  else
    let modemSize := toInt sys.size
    if modemSize = -1 then return ⟨sys.lseekErrno, verStr, [.openModem, .close]⟩
    else
      let length := toSize modemSize
      match sys.map length with
      | none => return ⟨sys.mmapErrno, verStr, [.openModem, .mmap length, .close]⟩
      | some modemData => do
        let offset ← bmSearch fuel locals modemData length modemVerStr
        let calls := [.openModem, .mmap length, .bmSearch length, .munmap length, .close]
        match offset with
        | some offset => do
          let verStr ← snprintfS verStr len modemData (offset + modemVerStrLen).toNat
          return ⟨0, verStr, calls⟩
        | none => return ⟨-enoent, verStr, calls⟩

/-- All calls succeed and the partition holds `image`. -/
structure ReadsImage (sys : Sys) (image : Mem) : Prop where
  opened : 0 ≤ sys.fd
  size : sys.size = image.length
  mapped : sys.map image.length = some image

/-- A partition that holds `image`: `mmap` refuses length `0` and maps a prefix otherwise. -/
def Sys.ofImage (image : Mem) : Sys where
  fd := 3
  size := image.length
  map := fun length => if length = 0 then none else some (image.take length)
  openErrno := 0
  lseekErrno := 0
  mmapErrno := 22

theorem readsImage_ofImage {image : Mem} (h : 1 ≤ image.length) :
    ReadsImage (Sys.ofImage image) image := by
  refine ⟨by simp [Sys.ofImage], rfl, ?_⟩
  simp only [Sys.ofImage]
  rw [if_neg (by omega), List.take_length]

/-! ## The search for the marker -/

theorem modemVerStr_length : modemVerStr.length = modemVerStrLen := by decide

theorem zero_not_mem_modemVerStr : (0 : UInt8) ∉ modemVerStr := by decide

/-- The `T` at the front is the only one in the marker, so no suffix of it is a prefix. -/
theorem modemVerStr_unbordered :
    ∀ p, 0 < p → p < modemVerStr.length → ¬ BorderAt modemVerStr p := by
  have hall : ∀ p, p < modemVerStrLen → 0 < p → ¬ BorderAt modemVerStr p := by decide
  intro p hp hpn
  exact hall p (by rwa [modemVerStr_length] at hpn) hp

theorem bmSearch_modemVerStr {image : Mem} {fuel : ℕ} (locals : Locals modemVerStrLen)
    (hmax : image.length + 13 ≤ intMax) (hfuel : image.length + 14 ≤ fuel) :
    bmSearch fuel locals image image.length modemVerStr
      = .ok ((naiveSearch image modemVerStr).map (Nat.cast : ℕ → ℤ)) := by
  have hlen : modemVerStr.length = 14 := modemVerStr_length
  exact @bmSearch_eq_naiveSearch image modemVerStr fuel locals (by omega)
    zero_not_mem_modemVerStr
    (Or.inr fun p h1 h2 hb => absurd hb (modemVerStr_unbordered p h1 h2)) (by omega) (by omega)

/-- With the image mapped, the result is decided by the naive scan for the marker. -/
theorem getModemVersion_eq {image : Mem} {fuel : ℕ} {locals : Locals modemVerStrLen} {sys : Sys}
    {verStr : Mem} {len : ℕ} (hsys : ReadsImage sys image)
    (hmax : image.length + 13 ≤ intMax) (hfuel : image.length + 14 ≤ fuel) :
    getModemVersion fuel locals sys verStr len =
      match naiveSearch image modemVerStr with
      | some o => do
        let verStr ← snprintfS verStr len image (o + 14)
        return ⟨0, verStr, [.openModem, .mmap image.length, .bmSearch image.length,
          .munmap image.length, .close]⟩
      | none => .ok ⟨-enoent, verStr, [.openModem, .mmap image.length, .bmSearch image.length,
          .munmap image.length, .close]⟩ := by
  have hsize : toInt sys.size = image.length := by
    rw [hsys.size, toInt_of_range (by omega) (by omega)]
  have hlength : toSize (image.length : ℤ) = image.length :=
    toSize_of_lt (by simp only [intMax] at hmax; omega)
  have hfd := hsys.opened
  rw [getModemVersion, if_neg (by omega)]
  dsimp only
  rw [hsize, if_neg (by omega), hlength, hsys.mapped]
  dsimp only
  rw [bmSearch_modemVerStr locals hmax hfuel, ok_bind]
  cases naiveSearch image modemVerStr with
  | none => rfl
  | some o => rfl

/-- Without the marker the buffer stays as it was. -/
theorem getModemVersion_absent {image : Mem} {fuel : ℕ} {locals : Locals modemVerStrLen}
    {sys : Sys} {verStr : Mem} {len : ℕ} (hsys : ReadsImage sys image)
    (hmax : image.length + 13 ≤ intMax) (hfuel : image.length + 14 ≤ fuel)
    (h : ∀ o, ¬ OccursAt modemVerStr image o) :
    getModemVersion fuel locals sys verStr len
      = .ok ⟨-enoent, verStr, [.openModem, .mmap image.length, .bmSearch image.length,
          .munmap image.length, .close]⟩ := by
  rw [getModemVersion_eq hsys hmax hfuel, (naiveSearch_eq_none (by decide)).mpr h]

/-- With the marker, and a NUL behind its first occurrence, the string in between is copied. -/
theorem getModemVersion_found {image : Mem} {fuel : ℕ} {locals : Locals modemVerStrLen}
    {sys : Sys} {verStr : Mem} {len o : ℕ} (hsys : ReadsImage sys image)
    (hmax : image.length + 13 ≤ intMax) (hfuel : image.length + 14 ≤ fuel) (hlen : 1 ≤ len)
    (hbuf : len ≤ verStr.length) (h : FirstAt modemVerStr image o)
    (hnul : 0 ∈ image.drop (o + 14)) :
    getModemVersion fuel locals sys verStr len
      = .ok ⟨0, (cstr (image.drop (o + 14))).take (len - 1) ++
            0 :: verStr.drop (((cstr (image.drop (o + 14))).take (len - 1)).length + 1),
          [.openModem, .mmap image.length, .bmSearch image.length, .munmap image.length,
            .close]⟩ := by
  rw [getModemVersion_eq hsys hmax hfuel, (naiveSearch_eq_some (by decide)).mpr h]
  dsimp only
  rw [snprintfS_of_mem hlen hbuf hnul]
  rfl

/-- With the marker and no NUL behind it, the copy reads the byte after the image. -/
theorem getModemVersion_unterminated {image : Mem} {fuel : ℕ} {locals : Locals modemVerStrLen}
    {sys : Sys} {verStr : Mem} {len o : ℕ} (hsys : ReadsImage sys image)
    (hmax : image.length + 13 ≤ intMax) (hfuel : image.length + 14 ≤ fuel)
    (h : FirstAt modemVerStr image o) (hnul : 0 ∉ image.drop (o + 14)) :
    getModemVersion fuel locals sys verStr len
      = .error (.outOfBounds image.length image.length) := by
  have hfit : o + 14 ≤ image.length := h.1.le_length (by decide)
  rw [getModemVersion_eq hsys hmax hfuel, (naiveSearch_eq_some (by decide)).mpr h]
  dsimp only
  rw [snprintfS_of_not_mem hfit hnul, error_bind]

/-! ## What the caller gets -/

/-- The bytes behind the marker at `o` up to a NUL, cut to fit the buffer. -/
def versionAt (image : Mem) (o : ℕ) : Mem := ((image.drop (o + 14)).takeWhile (· ≠ 0)).take 19

/-- `get_modem_version` into a buffer of `MODEM_VER_BUF_LEN` bytes succeeds exactly when the
marker occurs, with the string behind its first occurrence, and otherwise leaves the buffer
alone. -/
theorem getModemVersion_spec (image : Mem) (fuel : ℕ) (locals : Locals modemVerStrLen)
    (sys : Sys) (verStr : Mem) (hmax : image.length + 13 ≤ intMax)
    (hsys : ReadsImage sys image) (hbuf : verStr.length = modemVerBufLen)
    (hfuel : image.length + 14 ≤ fuel)
    (hnul : ∀ o, FirstAt modemVerStr image o → ∃ k, o + 14 ≤ k ∧ image[k]? = some 0) :
    ∃ out, getModemVersion fuel locals sys verStr modemVerBufLen = .ok out ∧
      (out.ret = 0 ↔ ∃ o, OccursAt modemVerStr image o) ∧
      (∀ o, FirstAt modemVerStr image o → out.verStr
        = versionAt image o ++ 0 :: verStr.drop ((versionAt image o).length + 1)) ∧
      ((∀ o, ¬ OccursAt modemVerStr image o) →
        out.ret = -enoent ∧ out.ret ≠ 0 ∧ out.verStr = verStr) := by
  by_cases hocc : ∃ o, OccursAt modemVerStr image o
  · rcases hocc with ⟨o', hocc'⟩
    rcases exists_firstAt hocc' with ⟨o, -, hfirst⟩
    have hmem : 0 ∈ image.drop (o + 14) := mem_drop_iff.mpr (hnul o hfirst)
    refine ⟨_, getModemVersion_found hsys hmax hfuel (by decide) (by omega) hfirst hmem,
      iff_of_true rfl ⟨o, hfirst.1⟩, fun q hq => ?_, fun hnone => absurd hfirst.1 (hnone o)⟩
    rw [hq.unique hfirst]
    rfl
  · have hnone : ∀ o, ¬ OccursAt modemVerStr image o := fun o ho => hocc ⟨o, ho⟩
    refine ⟨_, getModemVersion_absent hsys hmax hfuel hnone, iff_of_false neg_enoent_ne_zero hocc,
      fun o ho => absurd ho.1 (hnone o), fun _ => ⟨rfl, neg_enoent_ne_zero, rfl⟩⟩

/-- The version behind a marker at `2`. -/
theorem getModemVersion_spec_at_two : ∃ out,
    getModemVersion 40 default (Sys.ofImage (ascii "xxTime_Stamp\": \"2019" ++ [0]))
      (List.replicate 20 1) modemVerBufLen = .ok out ∧
    (out.ret = 0 ↔ ∃ o, OccursAt modemVerStr (ascii "xxTime_Stamp\": \"2019" ++ [0]) o) := by
  have hfirst : naiveSearch (ascii "xxTime_Stamp\": \"2019" ++ [0]) modemVerStr = some 2 := by
    decide
  obtain ⟨out, hrun, hret, -, -⟩ := getModemVersion_spec
    (ascii "xxTime_Stamp\": \"2019" ++ [0]) 40 default _ (List.replicate 20 1) (by decide)
    (readsImage_ofImage (by decide)) (by decide) (by decide) (fun o ho => by
      rw [← naiveSearch_eq_some (by decide), hfirst] at ho
      cases ho
      exact ⟨20, by decide, by decide⟩)
  exact ⟨out, hrun, hret⟩

/-- Every read of the mapping is inside it exactly when the marker does not occur or a NUL
follows its first occurrence. -/
theorem getModemVersion_in_bounds_iff (image : Mem) (fuel : ℕ) (locals : Locals modemVerStrLen)
    (sys : Sys) (verStr : Mem) (hmax : image.length + 13 ≤ intMax)
    (hsys : ReadsImage sys image) (hbuf : verStr.length = modemVerBufLen)
    (hfuel : image.length + 14 ≤ fuel) :
    (∀ index length, getModemVersion fuel locals sys verStr modemVerBufLen
        ≠ .error (.outOfBounds index length)) ↔
      (∀ o, ¬ OccursAt modemVerStr image o) ∨
        ∃ o k, FirstAt modemVerStr image o ∧ o + 14 ≤ k ∧ image[k]? = some 0 := by
  by_cases hocc : ∃ o, OccursAt modemVerStr image o
  · rcases hocc with ⟨o', hocc'⟩
    rcases exists_firstAt hocc' with ⟨o, -, hfirst⟩
    by_cases hmem : 0 ∈ image.drop (o + 14)
    · refine iff_of_true (fun index length h => ?_) (Or.inr ?_)
      · rw [getModemVersion_found hsys hmax hfuel (by decide) (by omega) hfirst hmem] at h
        cases h
      · rcases mem_drop_iff.mp hmem with ⟨k, hk, hget⟩
        exact ⟨o, k, hfirst, hk, hget⟩
    · -- the copy runs to the end of the image and one byte further
      refine iff_of_false (fun h => ?_) ?_
      · exact h _ _ (getModemVersion_unterminated hsys hmax hfuel hfirst hmem)
      · intro hcond
        rcases hcond with hnone | ⟨q, k, hq, hk, hget⟩
        · exact hnone o hfirst.1
        · obtain rfl : q = o := hq.unique hfirst
          exact hmem (mem_drop_iff.mpr ⟨k, hk, hget⟩)
  · have hnone : ∀ o, ¬ OccursAt modemVerStr image o := fun o ho => hocc ⟨o, ho⟩
    refine iff_of_true (fun index length h => ?_) (Or.inl hnone)
    rw [getModemVersion_absent hsys hmax hfuel hnone] at h
    cases h

/-- With a NUL behind the marker, no read of the mapping is out of range. -/
theorem getModemVersion_in_bounds_at_zero : ¬ ∃ index length,
    getModemVersion 40 default (Sys.ofImage (ascii "Time_Stamp\": \"2" ++ [0]))
      (List.replicate 20 1) modemVerBufLen = .error (.outOfBounds index length) := by
  have hfirst : FirstAt modemVerStr (ascii "Time_Stamp\": \"2" ++ [0]) 0 := by
    rw [← naiveSearch_eq_some (by decide)]
    decide
  intro hfault
  rcases hfault with ⟨index, length, h⟩
  exact (getModemVersion_in_bounds_iff (ascii "Time_Stamp\": \"2" ++ [0]) 40 default _
    (List.replicate 20 1) (by decide) (readsImage_ofImage (by decide)) (by decide)
    (by decide)).mpr (Or.inr ⟨0, 15, hfirst, by decide, by decide⟩) index length h

/-- An image that ends in the version is read past its end. -/
theorem getModemVersion_reads_past_end :
    ReadsImage (Sys.ofImage (ascii "Time_Stamp\": \"2")) (ascii "Time_Stamp\": \"2") ∧
      getModemVersion 40 default (Sys.ofImage (ascii "Time_Stamp\": \"2")) (List.replicate 20 1)
        modemVerBufLen = .error (.outOfBounds 15 15) :=
  ⟨readsImage_ofImage (by decide), by decide +kernel⟩

end MeizuSm8150.Recovery
