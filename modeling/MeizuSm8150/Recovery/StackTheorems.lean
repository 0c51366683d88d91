import MeizuSm8150.Recovery.ModemLength
import MeizuSm8150.Recovery.VerdictTheorems

/-!
# What the stack holds

The tables of `bm_search` and the buffer of `VerifyModemFn` are not initialised. The tables are
written as a whole before they are read, so the search does not depend on what they held
(`bmSearch_locals`). The buffer is read without having been written when a failure left `errno` at
zero, and only then (`verifyModemFn_memory_iff`).
-/

namespace MeizuSm8150.Recovery

open CMachine CString CDecimal CTime Matching

/-! ## The tables -/

section Entries
variable {pat : Mem} {j m : ℕ} {c : UInt8}

theorem Delta1Entry.unique {v v' : ℤ} (h : Delta1Entry pat m c v) (h' : Delta1Entry pat m c v') :
    v = v' := by
  rcases h with ⟨q, hq, hqc, hlast, hv⟩ | ⟨hnone, hv⟩
  · rcases h' with ⟨q', hq', hqc', hlast', hv'⟩ | ⟨hnone', -⟩
    · rcases Nat.lt_trichotomy q q' with hlt | heq | hgt
      · exact absurd hqc' (hlast q' hlt hq')
      · rw [hv, hv', heq]
      · exact absurd hqc (hlast' q hgt hq)
    · exact absurd hqc (hnone' q hq)
  · rcases h' with ⟨q', hq', hqc', -, -⟩ | ⟨-, hv'⟩
    · exact absurd hqc' (hnone q' hq')
    · rw [hv, hv']

theorem LastPrefix.unique {l l' : ℕ} (h : LastPrefix pat j l) (h' : LastPrefix pat j l') :
    l = l' := by
  rcases h with ⟨p, hjp, hp, heq, hmin, rfl⟩ | ⟨hnone, rfl⟩
  · rcases h' with ⟨p', hjp', hp', heq', hmin', rfl⟩ | ⟨hnone', -⟩
    · rcases Nat.lt_trichotomy p p' with hlt | rfl | hgt
      · exact absurd heq (hmin' p hjp hlt)
      · rfl
      · exact absurd heq' (hmin p' hjp' hgt)
    · exact absurd heq (hnone' p hjp hp)
  · rcases h' with ⟨p', hjp', hp', heq', -, -⟩ | ⟨-, rfl⟩
    · exact absurd heq' (hnone p' hjp' hp')
    · rfl

theorem Delta2Entry.unique {v v' : ℤ} (h : Delta2Entry pat j v) (h' : Delta2Entry pat j v') :
    v = v' := by
  rcases h with ⟨s, hs, hleast, hv⟩ | ⟨hnone, l, hl, hv⟩
  · rcases h' with ⟨s', hs', hleast', hv'⟩ | ⟨hnone', -⟩
    · rcases Nat.lt_trichotomy s s' with hlt | heq | hgt
      · exact absurd hs (hleast' s hlt)
      · rw [hv, hv', heq]
      · exact absurd hs' (hleast s' hgt)
    · exact absurd hs (hnone' s)
  · rcases h' with ⟨s', hs', -, -⟩ | ⟨-, l', hl', hv'⟩
    · exact absurd hs' (hnone s')
    · rw [hv, hv', hl.unique hl']

/-- The pattern determines both tables. -/
theorem TablesFor.unique {delta1 delta1' : Table alphabetLen} {delta2 delta2' : Table pat.length}
    (h : TablesFor pat delta1 delta2) (h' : TablesFor pat delta1' delta2') :
    delta1 = delta1' ∧ delta2 = delta2' := by
  constructor
  · apply Table.ext_load
    intro k hk
    -- every index is a character
    have hk' : (UInt8.ofNat k).toNat = k := by
      rw [UInt8.toNat_ofNat']
      exact Nat.mod_eq_of_lt hk
    obtain ⟨v, hv, hentry⟩ := h.char (UInt8.ofNat k)
    obtain ⟨v', hv', hentry'⟩ := h'.char (UInt8.ofNat k)
    rw [hk'] at hv hv'
    rw [hv, hv', hentry.unique hentry']
  · apply Table.ext_load
    intro k hk
    obtain ⟨v, hv, hentry⟩ := h.suffix k hk
    obtain ⟨v', hv', hentry'⟩ := h'.suffix k hk
    rw [hv, hv', hentry.unique hentry']

end Entries

/-- The search does not depend on what its tables held: for every text, whatever length is passed
for it, it ends in the same way. -/
theorem bmSearch_locals {pat : Mem} {fuel : ℕ} (locals locals' : Locals pat.length)
    (hpos : 1 ≤ pat.length) (hlen : pat.length ≤ intMax + 1) (hfuel : pat.length ≤ fuel)
    (str : Mem) (strLen : ℕ) :
    bmSearch fuel locals str strLen pat = bmSearch fuel locals' str strLen pat := by
  obtain ⟨delta1, delta2, h1, h2, ht⟩ := exists_tables locals hpos hlen hfuel
  obtain ⟨delta1', delta2', h1', h2', ht'⟩ := exists_tables locals' hpos hlen hfuel
  obtain ⟨rfl, rfl⟩ := ht.unique ht'
  rw [bmSearch, bmSearch, h1, h1', ok_bind, ok_bind, h2, h2']

/-! ## The buffer -/

/-- Nothing behind the terminator is part of a string. -/
theorem cstr_nul_congr (s rest rest' : Mem) : cstr (s ++ 0 :: rest) = cstr (s ++ 0 :: rest') := by
  induction s with
  | nil => simp [cstr]
  | cons c s ih =>
    simp only [cstr, List.cons_append, List.takeWhile_cons] at ih ⊢
    rw [ih]

/-- What the version is read back as does not depend on the buffer it was written to. -/
theorem snprintfS_cstr {dst dst' : Mem} {size : ℕ} (hsize : 1 ≤ size)
    (hlen : dst.length = dst'.length) (m : Mem) (off : ℕ) :
    (snprintfS dst size m off).map cstr = (snprintfS dst' size m off).map cstr := by
  rw [snprintfS, snprintfS]
  cases hrun : strlen m off with
  | error e => rfl
  | ok n =>
    rw [ok_bind, ok_bind, if_neg (Nat.pos_iff_ne_zero.mp hsize),
      if_neg (Nat.pos_iff_ne_zero.mp hsize)]
    dsimp only
    rw [hlen]
    by_cases hfits : min n (size - 1) < dst'.length
    · rw [if_pos hfits, if_pos hfits]
      exact congrArg Except.ok (cstr_nul_congr _ _ _)
    · rw [if_neg hfits, if_neg hfits]

/-- A call fails, or seems to, and `errno` does not say so. -/
def FailsSilently (sys : Sys) : Prop :=
  if sys.fd < 0 then sys.openErrno = 0
  else if toInt sys.size = -1 then sys.lseekErrno = 0
  else sys.map (toSize (toInt sys.size)) = none ∧ sys.mmapErrno = 0

/-- What `VerifyModemFn` looks at. -/
def Outcome.seen (out : Outcome) : ℤ × Mem :=
  (out.ret, if out.ret = 0 then cstr out.verStr else [])

theorem map_seen (x : Run Mem) (calls : List Call) :
    (do let verStr ← x; return (⟨0, verStr, calls⟩ : Outcome) : Run Outcome).map Outcome.seen
      = (x.map cstr).map fun s => (0, s) := by
  cases x with
  | error e => rfl
  | ok verStr => rfl

theorem exists_ne_december : ∃ t : Timestamp, t ≠ december := by
  refine ⟨⟨2020, 2, 4, 10, 30, 5, by decide, ⟨by decide, by decide, by decide, by decide⟩,
    by decide, by decide, by decide⟩, fun h => ?_⟩
  exact absurd (congrArg Timestamp.mon h) (by decide)

section Version
variable {fuel : ℕ} {sys : Sys}

/-- After a failure that is not reported the buffer is as it was. -/
theorem getModemVersion_silent (h : FailsSilently sys) :
    ∃ calls, ∀ locals verStr len,
      getModemVersion fuel locals sys verStr len = .ok ⟨0, verStr, calls⟩ := by
  unfold FailsSilently at h
  by_cases hfd : sys.fd < 0
  · rw [if_pos hfd] at h
    exact ⟨_, fun locals verStr len => h ▸ getModemVersion_unopened hfd⟩
  · rw [if_neg hfd] at h
    by_cases hsize : toInt sys.size = -1
    · rw [if_pos hsize] at h
      exact ⟨_, fun locals verStr len => h ▸ getModemVersion_unsized hfd hsize⟩
    · rw [if_neg hsize] at h
      exact ⟨_, fun locals verStr len => h.2 ▸ getModemVersion_unmapped hfd hsize h.1⟩

/-- After a failure that is reported the buffer is not looked at, and otherwise it is written. -/
theorem getModemVersion_seen (hsys : ¬ FailsSilently sys) (hfuel : 14 ≤ fuel)
    (locals locals' : Locals modemVerStrLen) {verStr verStr' : Mem}
    (hlen : verStr.length = verStr'.length) :
    (getModemVersion fuel locals sys verStr modemVerBufLen).map Outcome.seen
      = (getModemVersion fuel locals' sys verStr' modemVerBufLen).map Outcome.seen := by
  unfold FailsSilently at hsys
  by_cases hfd : sys.fd < 0
  · rw [if_pos hfd] at hsys
    rw [getModemVersion_unopened hfd, getModemVersion_unopened hfd]
    simp [Except.map, Outcome.seen, hsys]
  · rw [if_neg hfd] at hsys
    by_cases hsize : toInt sys.size = -1
    · rw [if_pos hsize] at hsys
      rw [getModemVersion_unsized hfd hsize, getModemVersion_unsized hfd hsize]
      simp [Except.map, Outcome.seen, hsys]
    · rw [if_neg hsize] at hsys
      cases hmap : sys.map (toSize (toInt sys.size)) with
      | none =>
        have herr : sys.mmapErrno ≠ 0 := fun h => hsys ⟨hmap, h⟩
        rw [getModemVersion_unmapped hfd hsize hmap, getModemVersion_unmapped hfd hsize hmap]
        simp [Except.map, Outcome.seen, herr]
      | some data =>
        -- the search does not see its tables, and the copy writes all that is read back
        have hsearches : Searches sys (toSize (toInt sys.size)) data := ⟨hfd, hsize, rfl, hmap⟩
        have hpat : modemVerStr.length = 14 := modemVerStr_length
        have hsearch : bmSearch fuel locals data (toSize (toInt sys.size)) modemVerStr
            = bmSearch fuel locals' data (toSize (toInt sys.size)) modemVerStr :=
          @bmSearch_locals modemVerStr fuel locals locals' (by omega)
            (by rw [hpat]; decide) (by omega) data _
        rw [getModemVersion_of_searches hsearches, getModemVersion_of_searches hsearches, hsearch]
        cases bmSearch fuel locals' data (toSize (toInt sys.size)) modemVerStr with
        | error e => rfl
        | ok found =>
          cases found with
          | none => rfl
          | some offset =>
            rw [ok_bind, ok_bind]
            dsimp only
            rw [map_seen, map_seen, snprintfS_cstr (by decide) hlen]

theorem verifyModemFn_congr {locals locals' : Locals modemVerStrLen} {buf buf' : Mem}
    (h : (getModemVersion fuel locals sys buf modemVerBufLen).map Outcome.seen
      = (getModemVersion fuel locals' sys buf' modemVerBufLen).map Outcome.seen)
    (name : String) (readArgs : Option (List Mem)) :
    verifyModemFn fuel locals sys buf name readArgs
      = verifyModemFn fuel locals' sys buf' name readArgs := by
  rw [verifyModemFn, verifyModemFn]
  cases hrun : getModemVersion fuel locals sys buf modemVerBufLen with
  | error e =>
    cases hrun' : getModemVersion fuel locals' sys buf' modemVerBufLen with
    | error e' =>
      rw [hrun, hrun'] at h
      cases h
      rfl
    | ok out' =>
      rw [hrun, hrun'] at h
      cases h
  | ok out =>
    cases hrun' : getModemVersion fuel locals' sys buf' modemVerBufLen with
    | error e' =>
      rw [hrun, hrun'] at h
      cases h
    | ok out' =>
      rw [hrun, hrun'] at h
      have hseen : out.seen = out'.seen := Except.ok.inj h
      have hret : out.ret = out'.ret := congrArg Prod.fst hseen
      rw [ok_bind, ok_bind, hret]
      by_cases hzero : out'.ret = 0
      · have hstr : cstr out.verStr = cstr out'.verStr := by
          have hsnd := congrArg Prod.snd hseen
          simpa only [Outcome.seen, hret, hzero, if_true] using hsnd
        rw [hstr]
      · rw [if_pos hzero, if_pos hzero]

end Version

/-- Nothing the stack held before the call reaches the verdict, unless a call fails, or seems to,
and `errno` does not say so; then the buffer is the version. -/
theorem verifyModemFn_memory_iff (sys : Sys) {fuel : ℕ} (hfuel : 14 ≤ fuel) :
    (∀ (locals locals' : Locals modemVerStrLen) (buf buf' : Mem) (name : String)
        (readArgs : Option (List Mem)), buf.length = modemVerBufLen →
        buf'.length = modemVerBufLen →
        verifyModemFn fuel locals sys buf name readArgs
          = verifyModemFn fuel locals' sys buf' name readArgs) ↔
      ¬ FailsSilently sys := by
  constructor
  · intro hall hsilent
    obtain ⟨calls, hrun⟩ := @getModemVersion_silent fuel sys hsilent
    have hleft : ∀ t : Timestamp, LeavesVersion fuel default sys (t.render ++ [0]) t.render :=
      fun t => ⟨t.zero_not_mem_render, [], calls, hrun default (t.render ++ [0]) modemVerBufLen⟩
    have hlen : ∀ t : Timestamp, (t.render ++ [0]).length = modemVerBufLen := by
      intro t
      rw [List.length_append, t.length_render]
      rfl
    obtain ⟨t, hne⟩ := exists_ne_december
    -- what was on the stack is the version the argument is compared to
    have hone := ((hleft december).one_iff "" [(december, [])]).mpr
      ⟨_, List.mem_cons_self, rfl⟩
    rw [hall default default _ _ "" _ (hlen december) (hlen t)] at hone
    obtain ⟨a, ha, heq⟩ := ((hleft t).one_iff "" [(december, [])]).mp hone
    rw [List.mem_singleton.mp ha] at heq
    exact hne heq.symm
  · intro hsys locals locals' buf buf' name readArgs hbuf hbuf'
    exact verifyModemFn_congr
      (getModemVersion_seen hsys hfuel locals locals' (hbuf.trans hbuf'.symm)) name readArgs

/-- The length `2 ^ 32 - 1` is `-1` as an `int`: nothing failed, and `errno` is zero. -/
theorem verifyModemFn_memory_iff_whole :
    ¬ ∀ (locals locals' : Locals modemVerStrLen) (buf buf' : Mem) (name : String)
      (readArgs : Option (List Mem)), buf.length = modemVerBufLen →
      buf'.length = modemVerBufLen →
      verifyModemFn 14 locals ⟨3, 4294967295, fun _ => none, 0, 0, 22⟩ buf name readArgs
        = verifyModemFn 14 locals' ⟨3, 4294967295, fun _ => none, 0, 0, 22⟩ buf' name
            readArgs := by
  intro hall
  refine (verifyModemFn_memory_iff ⟨3, 4294967295, fun _ => none, 0, 0, 22⟩
    (Nat.le_refl 14)).mp hall ?_
  rw [FailsSilently, if_neg (by decide), if_pos (by decide)]

end MeizuSm8150.Recovery
