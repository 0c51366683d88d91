import MeizuSm8150.Recovery.ModemVersion
import MeizuSm8150.Lib.CDecimal

/-!
# The length of the modem device

`lseek64` reports the length as an `off64_t`; `get_modem_version` keeps it in an `int`. A device
of at least `2 ^ 31` bytes is mapped and searched by what is left of its length, which is caught
only if `mmap` refuses it or the marker is not found. Shortly below `2 ^ 31` the length is kept,
but the last skip of the search can leave the `int` range.
-/

namespace MeizuSm8150.Recovery

open CMachine CString Matching CDecimal

/-! ## Arithmetic of the search -/

/-- Nothing is lost to the width of an `int`: neither in the cast of the length, nor when the
inner loop steps back, nor when the outer loop skips. -/
structure NoOverflow {n : ℕ} (delta1 : Table alphabetLen) (delta2 : Table n) (str : Mem)
    (strLen : ℕ) (pat : Mem) (patLen : ℕ) : Prop where
  length : toInt strLen = strLen
  back : ∀ i s s', Reaches (bmSearchStep delta1 delta2 str strLen pat patLen)
      (toInt (toSize (patLen - 1))) i → i < toInt strLen →
    Reaches (bmMatchStep str pat) (i, toInt (toSize (patLen - 1))) s →
    Passes (bmMatchStep str pat) s s' → FitsInt (s.1 - 1) ∧ FitsInt (s.2 - 1)
  skip : ∀ i i' j v, Reaches (bmSearchStep delta1 delta2 str strLen pat patLen)
      (toInt (toSize (patLen - 1))) i → i < toInt strLen →
    bmMatch str pat patLen i = .ok (i', j) → 0 ≤ j →
    bmSkip delta1 delta2 str i' j = .ok v → FitsInt v

/-- A skip of at most the pattern stays in range when text and pattern together do. -/
theorem noOverflow {str pat : Mem} {delta1 : Table alphabetLen} {delta2 : Table pat.length}
    (hpos : 1 ≤ pat.length) (ht : TablesFor pat delta1 delta2)
    (hmax : str.length + pat.length ≤ intMax + 1) :
    NoOverflow delta1 delta2 str str.length pat pat.length := by
  have hlast : toInt (toSize ((pat.length : ℤ) - 1)) = (pat.length : ℤ) - 1 := by
    rw [toInt_toSize, toInt_of_range (by omega) (by omega)]
  have hstr : toInt str.length = str.length := toInt_of_range (by omega) (by omega)
  -- a pass that is entered has its alignment inside the text
  have hfit : ∀ i, Reaches (bmSearchStep delta1 delta2 str str.length pat pat.length)
      ((pat.length : ℤ) - 1) i → i < str.length →
      ∃ a : ℕ, i = (a : ℤ) + pat.length - 1 ∧ a + pat.length ≤ str.length := by
    intro i hi hlt
    obtain ⟨a, hia, -⟩ := Aligned.of_reaches hpos ht hmax hi (Aligned.first str pat)
    exact ⟨a, hia, by omega⟩
  apply NoOverflow.mk hstr
  · intro i s s' hi hlt hs hpass
    rw [hlast] at hi hs
    obtain ⟨a, hia, ha⟩ := hfit i hi (by omega)
    obtain ⟨m, hm⟩ := Compared.of_reaches ha (by omega) hia hs
    have h1 := hm.fst
    have h2 := hm.snd
    have h3 := hm.le
    rcases bmMatchStep_spec ha (by omega) hm with ⟨-, m', -, -, hdec⟩ | ⟨hdone, -⟩
    · unfold FitsInt
      omega
    · rw [Passes, hdone] at hpass
      cases hpass
  · intro i i' j v hi hlt hmatch hj hskip
    rw [hlast] at hi
    obtain ⟨a, hia, ha⟩ := hfit i hi (by omega)
    obtain ⟨s, hrun, hs⟩ := bmMatch_spec hpos ha (by omega) hia
    rw [hmatch] at hrun
    obtain rfl := Except.ok.inj hrun
    rcases hs with ⟨-, hs⟩ | ⟨j', hm, hs⟩
    · have hj' := congrArg Prod.snd hs
      dsimp only at hj'
      omega
    · obtain ⟨rfl, rfl⟩ := Prod.mk.inj hs
      obtain ⟨d, hd, hskip'⟩ := bmSkip_spec ht ha hmax hm
      rw [hskip] at hskip'
      obtain rfl := Except.ok.inj hskip'
      have := hd.le
      unfold FitsInt
      omega

/-! ## The device -/

/-- The device holds `image` and `lseek64` succeeds. A call that fails sets `errno`; `mmap`
refuses the length `0` and half the address space, and otherwise maps the front of the device
or fails. -/
structure ReportsImage (sys : Sys) (image : Mem) : Prop where
  size : sys.size = image.length
  openErrno : sys.fd < 0 → sys.openErrno ≠ 0
  lseekErrno : sys.lseekErrno = 0
  mmapErrno : ∀ n, sys.map n = none → sys.mmapErrno ≠ 0
  zero : sys.map 0 = none
  huge : ∀ n, 9223372036854775808 ≤ n → sys.map n = none
  mapped : ∀ n data, n ≤ image.length → sys.map n = some data → data = image.take n

/-- A device that holds `image` and is mapped wherever it can be. -/
def Sys.ofDevice (image : Mem) : Sys where
  fd := 3
  size := image.length
  map := fun n => if 1 ≤ n ∧ n ≤ image.length then some (image.take n) else none
  openErrno := 2
  lseekErrno := 0
  mmapErrno := 22

theorem reportsImage_ofDevice {image : Mem} (h : image.length < 9223372036854775808) :
    ReportsImage (Sys.ofDevice image) image := by
  apply ReportsImage.mk rfl
  · intro hfd
    simp [Sys.ofDevice] at hfd
  · rfl
  · intro n _
    simp [Sys.ofDevice]
  · rfl
  · intro n hn
    simp only [Sys.ofDevice]
    rw [if_neg (by omega)]
  · intro n data hn hmap
    simp only [Sys.ofDevice] at hmap
    by_cases hpos : 1 ≤ n ∧ n ≤ image.length
    · rw [if_pos hpos] at hmap
      exact (Option.some.inj hmap).symm
    · rw [if_neg hpos] at hmap
      cases hmap

/-! ## How far the function gets -/

/-- The function gets to its search: `mmap` was asked for `n` bytes and gave `data`. -/
structure Searches (sys : Sys) (n : ℕ) (data : Mem) : Prop where
  opened : ¬ sys.fd < 0
  sized : toInt sys.size ≠ -1
  length : toSize (toInt sys.size) = n
  mapped : sys.map n = some data

def searchCalls (n : ℕ) : List Call :=
  [.openModem, .mmap n, .bmSearch n, .munmap n, .close]

section Version
variable {fuel : ℕ} {locals : Locals modemVerStrLen} {sys : Sys} {verStr : Mem} {len : ℕ}

theorem getModemVersion_of_searches {n : ℕ} {data : Mem} (h : Searches sys n data) :
    getModemVersion fuel locals sys verStr len = (do
      let offset ← bmSearch fuel locals data n modemVerStr
      match offset with
      | some offset => do
        let verStr ← snprintfS verStr len data (offset + modemVerStrLen).toNat
        return ⟨0, verStr, searchCalls n⟩
      | none => return ⟨-enoent, verStr, searchCalls n⟩) := by
  rw [getModemVersion, if_neg h.opened]
  dsimp only
  rw [if_neg h.sized, h.length, h.mapped]
  rfl

theorem getModemVersion_unopened (h : sys.fd < 0) :
    getModemVersion fuel locals sys verStr len = .ok ⟨sys.openErrno, verStr, [.openModem]⟩ := by
  rw [getModemVersion, if_pos h]
  rfl

theorem getModemVersion_unsized (hfd : ¬ sys.fd < 0) (h : toInt sys.size = -1) :
    getModemVersion fuel locals sys verStr len
      = .ok ⟨sys.lseekErrno, verStr, [.openModem, .close]⟩ := by
  rw [getModemVersion, if_neg hfd]
  dsimp only
  rw [if_pos h]
  rfl

theorem getModemVersion_unmapped (hfd : ¬ sys.fd < 0) (hsize : toInt sys.size ≠ -1)
    (h : sys.map (toSize (toInt sys.size)) = none) :
    getModemVersion fuel locals sys verStr len
      = .ok ⟨sys.mmapErrno, verStr, [.openModem, .mmap (toSize (toInt sys.size)), .close]⟩ := by
  rw [getModemVersion, if_neg hfd]
  dsimp only
  rw [if_neg hsize, h]
  rfl

/-! ## Searching the whole device -/

/-- The tables of the marker, and the search as its outer loop. -/
theorem exists_modemTables (locals : Locals modemVerStrLen) (hfuel : 14 ≤ fuel) :
    ∃ (delta1 : Table alphabetLen) (delta2 : Table modemVerStr.length),
      bmMakeDelta1 fuel locals.delta1 modemVerStr modemVerStrLen = .ok delta1 ∧
      bmMakeDelta2 locals.delta2 modemVerStr modemVerStrLen = .ok delta2 ∧
      TablesFor modemVerStr delta1 delta2 ∧
      ∀ data : Mem, bmSearch fuel locals data data.length modemVerStr
        = iterate (bmSearchStep delta1 delta2 data data.length modemVerStr 14) fuel 13 := by
  have hpat : modemVerStr.length = 14 := modemVerStr_length
  have hpos : 1 ≤ modemVerStr.length := by omega
  have hlen : modemVerStr.length ≤ intMax + 1 := by
    rw [hpat]
    decide
  obtain ⟨delta1, delta2, h1, h2, ht⟩ := @exists_tables modemVerStr fuel locals hpos hlen
    (by omega)
  exact ⟨delta1, delta2, h1, h2, ht, fun data =>
    @bmSearch_eq data modemVerStr fuel locals delta1 delta2 hpos hlen h1 h2⟩

/-- An error is reported, or all of `image` is mapped and searched without an overflow. -/
def ErrorOrWhole (fuel : ℕ) (locals : Locals modemVerStrLen) (sys : Sys) (verStr : Mem)
    (len : ℕ) (image : Mem) : Prop :=
  (∃ out, getModemVersion fuel locals sys verStr len = .ok out ∧ out.ret ≠ 0) ∨
  ∃ data delta1 delta2, Searches sys image.length data ∧
    bmMakeDelta1 fuel locals.delta1 modemVerStr modemVerStrLen = .ok delta1 ∧
    bmMakeDelta2 locals.delta2 modemVerStr modemVerStrLen = .ok delta2 ∧
    NoOverflow delta1 delta2 data image.length modemVerStr modemVerStrLen

/-- A search that finds something has to be over the whole device. -/
theorem ErrorOrWhole.length_eq {image data : Mem} {n : ℕ} {o : ℤ} (hs : Searches sys n data)
    (hfound : bmSearch fuel locals data n modemVerStr = .ok (some o))
    (h : ErrorOrWhole fuel locals sys verStr len image) : image.length = n := by
  rcases h with ⟨out, hrun, hret⟩ | ⟨_, _, _, hs', -⟩
  · rw [getModemVersion_of_searches hs, hfound, ok_bind] at hrun
    obtain ⟨ver, -, hrun⟩ := bind_eq_ok hrun
    obtain rfl := Except.ok.inj hrun
    exact absurd rfl hret
  · rw [← hs'.length, hs.length]

/-- Where `mmap` gives as many bytes as it is asked for and the search cannot overflow, they
have to be the whole device unless the marker is not among them. -/
theorem errorOrWhole_of_searches {image data : Mem} (hs : Searches sys data.length data)
    (hmax : data.length + 13 ≤ intMax) (hfuel : data.length + 14 ≤ fuel) :
    ErrorOrWhole fuel locals sys verStr len image ↔
      image.length = data.length ∨ ∀ o, ¬ OccursAt modemVerStr data o := by
  have hsearch := bmSearch_modemVerStr locals hmax hfuel
  by_cases hocc : ∀ o, ¬ OccursAt modemVerStr data o
  · refine iff_of_true (Or.inl ⟨⟨-enoent, verStr, searchCalls data.length⟩, ?_,
      neg_enoent_ne_zero⟩) (Or.inr hocc)
    rw [getModemVersion_of_searches hs, hsearch, (naiveSearch_eq_none (by decide)).mpr hocc]
    rfl
  · constructor
    · intro h
      push Not at hocc
      obtain ⟨o', hocc'⟩ := hocc
      obtain ⟨o, -, hfirst⟩ := exists_firstAt hocc'
      rw [(naiveSearch_eq_some (by decide)).mpr hfirst] at hsearch
      exact Or.inl (h.length_eq hs hsearch)
    · intro h
      rcases h with hlen | hnone
      · have hpat : modemVerStr.length = 14 := modemVerStr_length
        obtain ⟨delta1, delta2, h1, h2, ht, -⟩ := exists_modemTables locals
          (show 14 ≤ fuel by omega)
        have hno := noOverflow (by omega) ht (show data.length + modemVerStr.length ≤ intMax + 1
          by omega)
        refine Or.inr ⟨data, delta1, delta2, hlen ▸ hs, h1, h2, ?_⟩
        rw [hlen]
        exact hno
      · exact absurd hnone hocc

/-- A length that looks like the failure of `lseek64` ends in success without a search. -/
theorem not_errorOrWhole_of_unsized {image : Mem} (hfd : ¬ sys.fd < 0)
    (hsize : toInt sys.size = -1) (herrno : sys.lseekErrno = 0) :
    ¬ ErrorOrWhole fuel locals sys verStr len image := by
  intro h
  rcases h with ⟨out, hrun, hret⟩ | ⟨_, _, _, hs, -⟩
  · rw [getModemVersion_unsized hfd hsize] at hrun
    obtain rfl := Except.ok.inj hrun
    exact hret herrno
  · exact hs.sized hsize

/-- What the length, the device and its content have to be for `ErrorOrWhole`, where the kept
length leaves room for a skip. -/
def ContentFits (sys : Sys) (image : Mem) : Prop :=
  sys.fd < 0 ∨
  (toInt image.length ≠ -1 ∧
    (toInt image.length < 0 ∨ sys.map (toInt image.length).toNat = none ∨
      toInt image.length = image.length ∨
      ∀ o, ¬ OccursAt modemVerStr (image.take (toInt image.length).toNat) o))

theorem errorOrWhole_iff_contentFits {image : Mem} (hsys : ReportsImage sys image)
    (hmax : toInt image.length + 13 ≤ intMax) (hfuel : image.length + 14 ≤ fuel) :
    ErrorOrWhole fuel locals sys verStr len image ↔ ContentFits sys image := by
  have hsize : toInt sys.size = toInt image.length := by rw [hsys.size]
  by_cases hfd : sys.fd < 0
  · exact iff_of_true (Or.inl ⟨_, getModemVersion_unopened hfd, hsys.openErrno hfd⟩) (Or.inl hfd)
  · rw [ContentFits, or_iff_right hfd]
    by_cases hneg : toInt image.length = -1
    · -- the length looks like a failed `lseek64`, which has set no `errno`
      exact iff_of_false (not_errorOrWhole_of_unsized hfd (by rw [hsize, hneg]) hsys.lseekErrno)
        (fun h => h.1 hneg)
    · rw [and_iff_right hneg]
      have hlow : -2147483648 ≤ toInt image.length := by
        unfold toInt
        omega
      have hnone : sys.map (toSize (toInt sys.size)) = none →
          ErrorOrWhole fuel locals sys verStr len image := fun hmap =>
        Or.inl ⟨_, getModemVersion_unmapped hfd (by rw [hsize]; exact hneg) hmap,
          hsys.mmapErrno _ hmap⟩
      by_cases hlt : toInt image.length < 0
      · refine iff_of_true (hnone (hsys.huge _ ?_)) (Or.inl hlt)
        rw [hsize]
        unfold toSize
        omega
      · rw [or_iff_right hlt]
        obtain ⟨n, hn⟩ : ∃ n : ℕ, toInt image.length = n :=
          ⟨_, (Int.toNat_of_nonneg (by omega)).symm⟩
        have hle : n ≤ image.length := by
          unfold toInt at hn
          omega
        have hlength : toSize (toInt sys.size) = n := by
          rw [hsize, hn]
          exact toSize_of_lt (by simp only [intMax] at hmax; omega)
        rw [hn, Int.toNat_natCast]
        rw [hn] at hmax
        cases hmap : sys.map n with
        | none => exact iff_of_true (hnone (by rw [hlength, hmap])) (Or.inl rfl)
        | some data =>
          have hdata := hsys.mapped n data hle hmap
          have hdlen : data.length = n := by
            rw [hdata, List.length_take]
            omega
          have hs : Searches sys data.length data :=
            ⟨hfd, by rw [hsize]; exact hneg, by rw [hlength, hdlen], by rw [hdlen, hmap]⟩
          rw [errorOrWhole_of_searches hs (by omega) (by omega), hdlen, hdata,
            or_iff_right (Option.some_ne_none _)]
          exact or_congr_left (by omega)

end Version

/-! ## The last skip -/

section LastByte
variable {delta1 : Table alphabetLen} {delta2 : Table modemVerStr.length}

/-- The space in front of the last character of the marker. -/
theorem TablesFor.delta1_space (ht : TablesFor modemVerStr delta1 delta2) :
    delta1.load 32 = .ok 1 := by
  have hspace : modemVerStr[12]? = some 32 := by decide
  have hlen := modemVerStr_length
  simp only [modemVerStrLen] at hlen
  obtain ⟨v, hload, hentry⟩ := ht.char 32
  rcases hentry with ⟨q, hq, -, hlast, hv⟩ | ⟨hnone, -⟩
  · have hq12 : ¬ q < 12 := fun hlt => hlast 12 hlt (by omega) hspace
    rw [show v = 1 by omega] at hload
    exact hload
  · exact absurd hspace (hnone 12 (by omega))

theorem TablesFor.delta1_nul (ht : TablesFor modemVerStr delta1 delta2) :
    delta1.load 0 = .ok 14 := by
  obtain ⟨v, hload, hentry⟩ := ht.char 0
  rcases hentry with ⟨q, -, hq, -, -⟩ | ⟨-, hv⟩
  · exact absurd (List.mem_of_getElem? hq) zero_not_mem_modemVerStr
  · rwa [hv, modemVerStr_length, show toInt (modemVerStrLen : ℤ) = 14 by decide] at hload

theorem TablesFor.delta2_last (ht : TablesFor modemVerStr delta1 delta2) :
    delta2.load 13 = .ok 1 := by
  have hlen := modemVerStr_length
  simp only [modemVerStrLen] at hlen
  have hgood : GoodShift modemVerStr 13 1 :=
    ⟨by decide, by decide, fun x h1 h2 => by omega, by decide⟩
  obtain ⟨v, hload, hentry⟩ := ht.suffix 13 (by omega)
  rcases hentry with ⟨s, hs, hleast, hv⟩ | ⟨hnone, -⟩
  · have hpos := hs.pos
    have hs1 : ¬ 1 < s := fun hlt => hleast 1 hlt hgood
    rw [show v = 1 by omega] at hload
    exact hload
  · exact absurd hgood (hnone 1)

/-- A mismatch at the last character ends the inner loop at once. -/
theorem bmMatch_last {str : Mem} {i : ℤ} {x : UInt8} (hx : str.read i = .ok x) (hne : x ≠ 34) :
    bmMatch str modemVerStr 14 i = .ok (i, 13) := by
  have hy : modemVerStr.read 13 = .ok 34 := by decide
  have hj : toInt (toSize (((14 : ℕ) : ℤ) - 1)) = 13 := by decide
  rw [bmMatch, hj]
  apply iterate_done
  rw [bmMatchStep, if_pos (by decide), hx, ok_bind, hy, ok_bind, if_neg hne]
  rfl

theorem bmSkip_last (ht : TablesFor modemVerStr delta1 delta2) {str : Mem} {i v : ℤ} {x : UInt8}
    (hx : str.read i = .ok x) (hv : delta1.load x.toNat = .ok v) (hpos : 1 ≤ v) :
    bmSkip delta1 delta2 str i 13 = .ok (i + v) := by
  rw [bmSkip, hx, ok_bind, hv, ok_bind, ht.delta2_last, ok_bind, max_eq_left hpos]
  rfl

theorem bmSearchStep_last (ht : TablesFor modemVerStr delta1 delta2) {str : Mem} {strLen : ℕ}
    {i v : ℤ} {x : UInt8} (hlt : i < toInt strLen) (hx : str.read i = .ok x) (hne : x ≠ 34)
    (hv : delta1.load x.toNat = .ok v) (hpos : 1 ≤ v) :
    bmSearchStep delta1 delta2 str strLen modemVerStr 14 i = .ok (.next (toInt (i + v))) := by
  rw [bmSearchStep, if_pos hlt, bmMatch_last hx hne, ok_bind]
  dsimp only
  rw [if_neg (by decide), bmSkip_last ht hx hv hpos, ok_bind]
  rfl

/-- `m` spaces and a NUL. -/
def spaces (m : ℕ) : Mem := List.replicate m 32 ++ [0]

theorem length_spaces (m : ℕ) : (spaces m).length = m + 1 := by simp [spaces]

theorem spaces_read_lt {m k : ℕ} {i : ℤ} (hk : k < m) (hi : i = k) :
    (spaces m).read i = .ok 32 := by
  refine Mem.read_some ?_ hi
  rw [spaces, List.getElem?_append_left (by simpa using hk), List.getElem?_replicate, if_pos hk]

theorem spaces_read_last (m : ℕ) : (spaces m).read m = .ok 0 := by
  refine Mem.read_some ?_ rfl
  rw [spaces, List.getElem?_append_right (by simp)]
  simp

/-- On spaces the search moves on by one up to the NUL. -/
theorem reaches_spaces (ht : TablesFor modemVerStr delta1 delta2) {m : ℕ} (hm : m + 1 ≤ intMax)
    {a : ℕ} (ha : a + 13 ≤ m) :
    Reaches (bmSearchStep delta1 delta2 (spaces m) (m + 1) modemVerStr 14) 13
      ((a + 13 : ℕ) : ℤ) := by
  induction a with
  | zero => exact .refl
  | succ a ih =>
    refine .tail (ih (by omega)) ?_
    have hstr : toInt ((m + 1 : ℕ) : ℤ) = ((m + 1 : ℕ) : ℤ) := toInt_of_range (by omega) (by omega)
    rw [Passes, bmSearchStep_last ht (by omega) (spaces_read_lt (show a + 13 < m by omega) rfl)
      (by decide) ht.delta1_space (by decide), toInt_of_range (by omega) (by omega)]
    congr 2

/-- The skip from the NUL leaves the `int` range when it does not fit above the length. -/
theorem not_noOverflow_spaces (ht : TablesFor modemVerStr delta1 delta2) {m : ℕ} (h13 : 13 ≤ m)
    (hm : m + 1 ≤ intMax) (hlong : intMax < m + 14) :
    ¬ NoOverflow delta1 delta2 (spaces m) (m + 1) modemVerStr 14 := by
  intro h
  have hstr : toInt ((m + 1 : ℕ) : ℤ) = ((m + 1 : ℕ) : ℤ) := toInt_of_range (by omega) (by omega)
  have hreach := reaches_spaces ht hm (show m - 13 + 13 ≤ m by omega)
  rw [show m - 13 + 13 = m by omega] at hreach
  have hread := spaces_read_last m
  have hfits := (h.skip m m 13 _ hreach (by omega) (bmMatch_last hread (by decide)) (by decide)
    (bmSkip_last ht hread ht.delta1_nul (by decide))).2
  omega

/-- The counter is negative after that skip, and the search reads in front of the text. -/
theorem bmSearch_spaces_faults {fuel m : ℕ} {r : Option ℤ}
    (ht : TablesFor modemVerStr delta1 delta2) (h13 : 13 ≤ m) (hm : m + 1 ≤ intMax)
    (hlong : intMax < m + 14) :
    iterate (bmSearchStep delta1 delta2 (spaces m) (m + 1) modemVerStr 14) fuel 13 ≠ .ok r := by
  have hstr : toInt ((m + 1 : ℕ) : ℤ) = ((m + 1 : ℕ) : ℤ) := toInt_of_range (by omega) (by omega)
  have hwrap : toInt ((m : ℤ) + 14) = m + 14 - 4294967296 := by
    simp only [intMax] at hm hlong
    unfold toInt
    omega
  have hpass : ∀ i : ℤ, (∃ k : ℕ, i = k ∧ k < m) →
      bmSearchStep delta1 delta2 (spaces m) (m + 1) modemVerStr 14 i = .ok (.next (i + 1)) := by
    intro i hi
    obtain ⟨k, rfl, hk⟩ := hi
    rw [bmSearchStep_last ht (by omega) (spaces_read_lt hk rfl) (by decide) ht.delta1_space
      (by decide), toInt_of_range (by omega) (by omega)]
  have hlast : bmSearchStep delta1 delta2 (spaces m) (m + 1) modemVerStr 14 m
      = .ok (.next (m + 14 - 4294967296)) := by
    rw [bmSearchStep_last ht (by omega) (spaces_read_last m) (by decide) ht.delta1_nul
      (by decide), hwrap]
  have hfault : ∀ o, bmSearchStep delta1 delta2 (spaces m) (m + 1) modemVerStr 14
      (m + 14 - 4294967296) ≠ .ok o := by
    intro o hrun
    have hneg : (m : ℤ) + 14 - 4294967296 < 0 := by
      simp only [intMax] at hm
      omega
    rw [bmSearchStep, if_pos (by omega)] at hrun
    obtain ⟨s, hmatch, -⟩ := bind_eq_ok hrun
    rw [bmMatch, iterate] at hmatch
    obtain ⟨s', hstep, -⟩ := bind_eq_ok hmatch
    rw [bmMatchStep, if_pos (by decide)] at hstep
    obtain ⟨x, hread, -⟩ := bind_eq_ok hstep
    rw [Mem.read, if_neg (by omega)] at hread
    cases hread
  have hstep : ∀ (i : ℤ) o, ((∃ k : ℕ, i = k ∧ k ≤ m) ∨ i = m + 14 - 4294967296) →
      bmSearchStep delta1 delta2 (spaces m) (m + 1) modemVerStr 14 i = .ok o →
      ∃ i', o = .next i' ∧ ((∃ k : ℕ, i' = k ∧ k ≤ m) ∨ i' = m + 14 - 4294967296) := by
    intro i o hi hrun
    rcases hi with ⟨k, rfl, hk⟩ | rfl
    · by_cases hkm : k < m
      · rw [hpass k ⟨k, rfl, hkm⟩] at hrun
        exact ⟨_, (Except.ok.inj hrun).symm, Or.inl ⟨k + 1, by omega, by omega⟩⟩
      · obtain rfl : k = m := by omega
        rw [hlast] at hrun
        exact ⟨_, (Except.ok.inj hrun).symm, Or.inr rfl⟩
    · exact absurd hrun (hfault o)
  exact iterate_endless _ hstep (Or.inl ⟨13, rfl, h13⟩)

end LastByte

/-! ## Which lengths are searched whole -/

section Lengths
variable {fuel : ℕ} {locals : Locals modemVerStrLen} {verStr : Mem} {len : ℕ}

theorem Searches.ofDevice {image : Mem} {n : ℕ} (hn : toInt image.length = n) (h1 : 1 ≤ n)
    (h2 : n ≤ image.length) (hsize : n < 18446744073709551616) :
    Searches (Sys.ofDevice image) n (image.take n) := by
  have hlength : toInt (Sys.ofDevice image).size = n := hn
  apply Searches.mk
  · simp [Sys.ofDevice]
  · omega
  · rw [hlength, toSize_of_lt hsize]
  · simp only [Sys.ofDevice]
    rw [if_pos ⟨h1, h2⟩]

/-- A marker at the front is found at the first alignment. -/
theorem bmSearch_at_front (locals : Locals modemVerStrLen) {data : Mem}
    (hlen : data.length ≤ intMax) (hocc : OccursAt modemVerStr data 0) (hfuel : 14 ≤ fuel) :
    bmSearch fuel locals data data.length modemVerStr = .ok (some 0) := by
  have hpat : modemVerStr.length = 14 := modemVerStr_length
  obtain ⟨delta1, delta2, -, -, -, hrun⟩ := exists_modemTables locals hfuel
  obtain ⟨k, rfl⟩ : ∃ k, fuel = k + 1 := ⟨fuel - 1, by omega⟩
  rw [hrun]
  have hfirst : (13 : ℤ) = ((0 : ℕ) : ℤ) + modemVerStr.length - 1 := by omega
  exact iterate_done (bmSearchStep_occurs (by omega) hlen hfirst hocc) k

/-- A device that starts with the marker is not searched whole unless its length is kept. -/
theorem not_errorOrWhole_of_marker {rest : Mem} {n : ℕ} (hfuel : 14 ≤ fuel)
    (hn : toInt (modemVerStr ++ rest).length = n) (h14 : 14 ≤ n)
    (hlt : n < (modemVerStr ++ rest).length) :
    ¬ ErrorOrWhole fuel locals (Sys.ofDevice (modemVerStr ++ rest)) verStr len
      (modemVerStr ++ rest) := by
  have hmax : n ≤ intMax := by
    have := toInt_le (modemVerStr ++ rest).length
    omega
  have hs := Searches.ofDevice hn (by omega) (by omega) (by simp only [intMax] at hmax; omega)
  have hpat : modemVerStr.length = 14 := modemVerStr_length
  have hdlen : ((modemVerStr ++ rest).take n).length = n := by
    rw [List.length_take]
    omega
  have hocc : OccursAt modemVerStr ((modemVerStr ++ rest).take n) 0 := by
    intro k hk
    rw [Nat.zero_add, List.getElem?_take, if_pos (by omega), List.getElem?_append_left hk]
  have hfound := bmSearch_at_front locals (by omega) hocc hfuel
  rw [hdlen] at hfound
  intro h
  have hlen := h.length_eq hs hfound
  omega

/-- Shortly below `2 ^ 31` a device of spaces is searched up to an overflow. -/
theorem not_errorOrWhole_spaces {m : ℕ} (hm : m + 1 ≤ intMax) (hlong : intMax < m + 14)
    (hfuel : 14 ≤ fuel) :
    ¬ ErrorOrWhole fuel locals (Sys.ofDevice (spaces m)) verStr len (spaces m) := by
  have h13 : 13 ≤ m := by
    simp only [intMax] at hlong
    omega
  have hlen := length_spaces m
  have hn : toInt (spaces m).length = (m + 1 : ℕ) := by
    rw [hlen, toInt_of_range (by omega) (by omega)]
  have hs := Searches.ofDevice hn (by omega) (by omega) (by simp only [intMax] at hm; omega)
  rw [← hlen, List.take_length] at hs
  obtain ⟨delta1, delta2, h1, h2, ht, hbm⟩ := exists_modemTables locals hfuel
  intro h
  rcases h with ⟨out, hrun, -⟩ | ⟨data, d1, d2, hs', h1', h2', hno⟩
  · rw [getModemVersion_of_searches hs, hbm] at hrun
    obtain ⟨r, hsearch, -⟩ := bind_eq_ok hrun
    rw [hlen] at hsearch
    exact bmSearch_spaces_faults ht h13 hm hlong hsearch
  · have hdata := hs'.mapped
    rw [hs.mapped] at hdata
    obtain rfl := Option.some.inj hdata
    obtain rfl := Except.ok.inj (h1.symm.trans h1')
    obtain rfl := Except.ok.inj (h2.symm.trans h2')
    rw [hlen] at hno
    exact not_noOverflow_spaces ht h13 hm hlong hno

/-- `n` bytes without a marker. -/
def blank (n : ℕ) : Mem := List.replicate n 0

theorem length_blank (n : ℕ) : (blank n).length = n := List.length_replicate

/-- For every other length there is a device that is not searched whole. -/
theorem exists_not_errorOrWhole (locals : Locals modemVerStrLen) (verStr : Mem) (len : ℕ) {L : ℕ}
    (hL : L < 9223372036854775808) (hfuel : 14 ≤ fuel) (hlong : intMax < L + 13)
    (h14 : 14 ≤ L % 4294967296)
    (hrange : L % 4294967296 < 2147483648 ∨ L % 4294967296 = 4294967295) :
    ∃ image sys, image.length = L ∧ ReportsImage sys image ∧
      ¬ ErrorOrWhole fuel locals sys verStr len image := by
  simp only [intMax] at hlong
  by_cases hneg : L % 4294967296 = 4294967295
  · -- the length is taken for a failed `lseek64`
    have hlen := length_blank L
    have hsize : toInt (Sys.ofDevice (blank L)).size = -1 := by
      have hreported : (Sys.ofDevice (blank L)).size = L := by simp only [Sys.ofDevice, hlen]
      rw [hreported]
      unfold toInt
      omega
    exact ⟨blank L, _, hlen, reportsImage_ofDevice (by omega),
      not_errorOrWhole_of_unsized (by simp [Sys.ofDevice]) hsize rfl⟩
  · by_cases hkept : L ≤ intMax
    · -- the length is kept, but a skip may not fit above it
      obtain ⟨m, rfl⟩ : ∃ m, L = m + 1 := ⟨L - 1, by omega⟩
      have hlen := length_spaces m
      exact ⟨spaces m, _, hlen, reportsImage_ofDevice (by omega),
        not_errorOrWhole_spaces hkept (by simp only [intMax]; omega) hfuel⟩
    · -- the length is cut to one that still fits the marker
      simp only [intMax] at hkept
      have hpat : modemVerStr.length = 14 := modemVerStr_length
      have hlen : (modemVerStr ++ blank (L - 14)).length = L := by
        rw [List.length_append, length_blank]
        omega
      have hcut : toInt (modemVerStr ++ blank (L - 14)).length = (L % 4294967296 : ℕ) := by
        rw [hlen]
        unfold toInt
        omega
      exact ⟨_, _, hlen, reportsImage_ofDevice (by omega),
        not_errorOrWhole_of_marker hfuel hcut h14 (by omega)⟩

/-- A length that is kept, refused or left too short for the marker suits every content. -/
theorem contentFits_of_length {sys : Sys} {image : Mem}
    (h : image.length + 13 ≤ intMax ∨ image.length % 4294967296 < 14 ∨
      2147483648 ≤ image.length % 4294967296 ∧ image.length % 4294967296 ≠ 4294967295) :
    ContentFits sys image := by
  refine Or.inr ⟨?_, ?_⟩
  · simp only [intMax] at h
    unfold toInt
    omega
  · rcases h with hsmall | hshort | ⟨hlow, -⟩
    · exact Or.inr (Or.inr (Or.inl (toInt_of_range (by omega) (by omega))))
    · refine Or.inr (Or.inr (Or.inr fun o hocc => ?_))
      have hfit := hocc.le_length (by decide)
      have hcut : toInt image.length = (image.length % 4294967296 : ℕ) := by
        unfold toInt
        omega
      rw [modemVerStr_length, modemVerStrLen, hcut, Int.toNat_natCast, List.length_take] at hfit
      omega
    · refine Or.inl ?_
      unfold toInt
      omega

/-- An error is reported or the whole device searched without an overflow: for every content
exactly when the length leaves room for a skip below `2 ^ 31`, or is refused (as a negative
`int` other than `-1`, or `0`) or left too short for the marker. Where the length kept in the
`int` leaves room for a skip, the condition on each device is `ContentFits`. -/
theorem getModemVersion_whole_iff (L fuel : ℕ) (locals : Locals modemVerStrLen) (verStr : Mem)
    (len : ℕ) (hL : L < 9223372036854775808) (hfuel : L + 14 ≤ fuel) :
    ((∀ image sys, image.length = L → ReportsImage sys image →
        ErrorOrWhole fuel locals sys verStr len image) ↔
      L + 13 ≤ intMax ∨ L % 4294967296 < 14 ∨
        2147483648 ≤ L % 4294967296 ∧ L % 4294967296 ≠ 4294967295) ∧
    ∀ image sys, image.length = L → ReportsImage sys image → toInt L + 13 ≤ intMax →
      (ErrorOrWhole fuel locals sys verStr len image ↔ ContentFits sys image) := by
  have hcontent : ∀ image sys, image.length = L → ReportsImage sys image →
      toInt L + 13 ≤ intMax →
      (ErrorOrWhole fuel locals sys verStr len image ↔ ContentFits sys image) := by
    intro image sys hlen hsys hmax
    subst hlen
    exact errorOrWhole_iff_contentFits hsys hmax hfuel
  refine ⟨⟨fun h => ?_, fun h image sys hlen hsys => ?_⟩, hcontent⟩
  · by_contra hcond
    simp only [not_or, not_and_or, not_le, not_lt, not_not] at hcond
    obtain ⟨hlong, h14, hrange⟩ := hcond
    obtain ⟨image, sys, hlen, hsys, hnot⟩ := exists_not_errorOrWhole locals verStr len hL
      (show 14 ≤ fuel by omega) hlong h14 hrange
    exact hnot (h image sys hlen hsys)
  · have hroom : toInt L + 13 ≤ intMax := by
      simp only [intMax] at h ⊢
      unfold toInt
      omega
    apply (hcontent image sys hlen hsys hroom).mpr
    subst hlen
    exact contentFits_of_length h

/-- A device of twenty bytes. -/
theorem getModemVersion_whole_iff_twenty :
    ErrorOrWhole 34 default (Sys.ofDevice (ascii "xxTime_Stamp\": \"2019"))
      (List.replicate 20 1) modemVerBufLen (ascii "xxTime_Stamp\": \"2019") :=
  (getModemVersion_whole_iff 20 34 default (List.replicate 20 1) modemVerBufLen (by decide)
    (by decide)).1.mpr (Or.inl (by decide)) _ _ (by decide) (reportsImage_ofDevice (by decide))

/-- A device of `2 ^ 32 - 1` bytes is reported as read without having been mapped. -/
theorem getModemVersion_unsearched :
    ReportsImage (Sys.ofDevice (blank 4294967295)) (blank 4294967295) ∧
      getModemVersion 4294967309 default (Sys.ofDevice (blank 4294967295)) (List.replicate 20 1)
        modemVerBufLen = .ok ⟨0, List.replicate 20 1, [.openModem, .close]⟩ ∧
      ¬ ErrorOrWhole 4294967309 default (Sys.ofDevice (blank 4294967295)) (List.replicate 20 1)
        modemVerBufLen (blank 4294967295) := by
  have hlen := length_blank 4294967295
  have hsize : toInt (Sys.ofDevice (blank 4294967295)).size = -1 := by
    rw [Sys.ofDevice, hlen]
    decide
  exact ⟨reportsImage_ofDevice (by omega), getModemVersion_unsized (by decide) hsize,
    not_errorOrWhole_of_unsized (by decide) hsize rfl⟩

end Lengths

end MeizuSm8150.Recovery
