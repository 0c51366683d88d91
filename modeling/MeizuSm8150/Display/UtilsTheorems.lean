import MeizuSm8150.Display.Utils

/-!
# The reply in the buffer

Whatever pieces the reply arrives in, the buffer holds at every point of the read loop the bytes
read so far and zeros behind them: the pointer has moved by as many bytes as were read, and the
remaining length is what is left behind it. Every pass reads at least one byte or ends the loop,
so the length of the buffer bounds the number of reads.
-/

namespace MeizuSm8150.Display

open CMachine CString

/-! ## Bytes read so far -/

/-- The bytes a call of `read` returned. -/
def PpsCall.received : PpsCall → ℕ
  | .read ret => ret.toNat
  | _ => 0

def bytesRead : List PpsCall → ℕ
  | [] => 0
  | call :: calls => call.received + bytesRead calls

/-- The number of calls of `read` that returned any bytes. -/
def successfulReads (calls : List PpsCall) : ℕ := calls.countP fun call => 0 < call.received

@[simp] theorem bytesRead_append (calls calls' : List PpsCall) :
    bytesRead (calls ++ calls') = bytesRead calls + bytesRead calls' := by
  induction calls with
  | nil => simp [bytesRead]
  | cons call calls ih => simp only [List.cons_append, bytesRead, ih, Nat.add_assoc]

@[simp] theorem bytesRead_read (calls : List PpsCall) (ret : ℤ) :
    bytesRead (calls ++ [.read ret]) = bytesRead calls + ret.toNat := by
  simp [bytesRead, PpsCall.received]

@[simp] theorem bytesRead_poll (calls : List PpsCall) (ret : ℤ) (revents : ℕ) :
    bytesRead (calls ++ [.poll ret revents]) = bytesRead calls := by
  simp [bytesRead, PpsCall.received]

@[simp] theorem bytesRead_close (calls : List PpsCall) :
    bytesRead (calls ++ [.close]) = bytesRead calls := by
  simp [bytesRead, PpsCall.received]

@[simp] theorem successfulReads_append (calls calls' : List PpsCall) :
    successfulReads (calls ++ calls') = successfulReads calls + successfulReads calls' := by
  simp [successfulReads]

/-- Each successful read returned at least one byte. -/
theorem successfulReads_le (calls : List PpsCall) : successfulReads calls ≤ bytesRead calls := by
  induction calls with
  | nil => rfl
  | cons call calls ih =>
    have hone : successfulReads [call] ≤ bytesRead [call] := by
      by_cases hpos : 0 < call.received
      · simp only [successfulReads, bytesRead, List.countP_singleton, decide_eq_true_eq, hpos,
          if_true, Nat.add_zero]
        exact hpos
      · simp [successfulReads, hpos]
    calc successfulReads (call :: calls) = successfulReads [call] + successfulReads calls :=
        successfulReads_append [call] calls
      _ ≤ bytesRead [call] + bytesRead calls := Nat.add_le_add hone ih
      _ = bytesRead (call :: calls) := (bytesRead_append [call] calls).symm

/-! ## One call of `read` -/

theorem Pps.read_of_pos {env : Pps} {k len : ℕ} {rest : Mem} (h : 0 < env.read k rest len) :
    ∃ n : ℕ, env.read k rest len = n ∧ 1 ≤ n ∧ n ≤ len ∧ n ≤ rest.length := by
  unfold Pps.read at h ⊢
  by_cases hfails : env.fails k = true
  · simp [hfails] at h
  · rw [if_neg hfails] at h ⊢
    exact ⟨min (max 1 (env.chunk k)) (min len rest.length), by omega, by omega, by omega, by omega⟩

/-- Nothing is read at the end of the stream, or by a call that fails. -/
theorem Pps.read_of_not_pos {env : Pps} {k len : ℕ} {rest : Mem} (hlen : 1 ≤ len)
    (h : ¬ 0 < env.read k rest len) : rest = [] ∨ env.fails k = true := by
  unfold Pps.read at h
  by_cases hfails : env.fails k = true
  · exact Or.inr hfails
  · rw [if_neg hfails] at h
    apply Or.inl
    apply List.length_eq_zero_iff.mp
    omega

/-! ## How far the reads get -/

/-- The bytes that the first `k` calls of `read` return into `L` bytes, where none fails. -/
def Pps.delivered (env : Pps) (L : ℕ) : ℕ → ℕ
  | 0 => 0
  | k + 1 => env.delivered L k + min (max 1 (env.chunk k))
      (min (L - env.delivered L k) (env.stream.length - env.delivered L k))

theorem Pps.delivered_mono (env : Pps) (L : ℕ) {j k : ℕ} (h : j ≤ k) :
    env.delivered L j ≤ env.delivered L k := by
  induction h with
  | refl => exact Nat.le_refl _
  | step _ ih => exact ih.trans (Nat.le_add_right _ _)

/-- A call of `poll` that reports input. -/
def Input (poll : ℤ × ℕ) : Prop := 0 < poll.1 ∧ poll.2 &&& pollin ≠ 0

instance (poll : ℤ × ℕ) : Decidable (Input poll) := inferInstanceAs (Decidable (_ ∧ _))

/-- What the loop tests is the opposite. -/
theorem not_input_iff (poll : ℤ × ℕ) :
    ¬ Input poll ↔ poll.1 ≤ 0 ∨ poll.2 &&& pollin = 0 := by
  rw [Input, not_and_or, Int.not_lt, not_not]

/-- Until the buffer is full or the stream has ended, no `read` fails and every `poll` reports
input. -/
def Undisturbed (env : Pps) (L : ℕ) : Prop :=
  ∀ k, env.delivered L k < min L env.stream.length → env.fails k = false ∧
    (env.delivered L (k + 1) < min L env.stream.length → Input (env.poll k))

/-! ## The read loop -/

/-- The state between two passes. -/
structure Reading (env : Pps) (L : ℕ) (s : ReplyState) : Prop where
  off : s.off = bytesRead s.calls
  len : s.off + s.len = L
  pos : 1 ≤ s.len
  le : s.off ≤ env.stream.length
  rest : s.rest = env.stream.drop s.off
  buf : s.buf = env.stream.take s.off ++ List.replicate s.len 0
  delivered : s.off = env.delivered L s.turn
  /-- The passes so far went on. -/
  before : ∀ k, k < s.turn → env.fails k = false ∧ Input (env.poll k)

/-- The state after the last pass. All there is to read was read exactly where nothing disturbed
the reads. -/
structure Filled (env : Pps) (L : ℕ) (s : ReplyState) : Prop where
  le : bytesRead s.calls ≤ L
  le_stream : bytesRead s.calls ≤ env.stream.length
  buf : s.buf = env.stream.take (bytesRead s.calls) ++ List.replicate (L - bytesRead s.calls) 0
  whole : bytesRead s.calls = min L env.stream.length ↔ Undisturbed env L

theorem Reading.length_rest {env : Pps} {L : ℕ} {s : ReplyState} (h : Reading env L s) :
    s.rest.length = env.stream.length - s.off := by
  rw [h.rest, List.length_drop]

/-- A `read` that succeeds delivers the next piece. -/
theorem Reading.delivered_succ {env : Pps} {L n : ℕ} {s : ReplyState} (h : Reading env L s)
    (hn : env.read s.turn s.rest s.len = n) :
    env.fails s.turn = false ∧ env.delivered L (s.turn + 1) = s.off + n := by
  have hlen := h.len
  unfold Pps.read at hn
  by_cases hfails : env.fails s.turn = true
  · rw [if_pos hfails] at hn
    omega
  · rw [if_neg hfails, h.length_rest] at hn
    refine ⟨Bool.eq_false_iff.mpr hfails, ?_⟩
    rw [Pps.delivered, ← h.delivered]
    omega

/-- Where the last `read` is the first to fill the buffer or end the stream, or there was none
left to make, nothing disturbed the reads. -/
theorem Reading.undisturbed {env : Pps} {L : ℕ} {s : ReplyState} (h : Reading env L s)
    (hlast : env.delivered L s.turn < min L env.stream.length →
      env.fails s.turn = false ∧ env.delivered L (s.turn + 1) = min L env.stream.length) :
    Undisturbed env L := by
  intro k hk
  rcases Nat.lt_trichotomy k s.turn with hlt | rfl | hgt
  · exact ⟨(h.before k hlt).1, fun _ => (h.before k hlt).2⟩
  · rcases hlast hk with ⟨hfails, hend⟩
    exact ⟨hfails, fun hnext => absurd hend (Nat.ne_of_lt hnext)⟩
  · have hturn := env.delivered_mono L (Nat.le_of_lt hgt)
    have hend := (hlast (Nat.lt_of_le_of_lt hturn hk)).2
    have hnext : env.delivered L (s.turn + 1) ≤ env.delivered L k := env.delivered_mono L hgt
    omega

/-- What a read of `n` bytes leaves in the buffer. -/
theorem Reading.write {env : Pps} {L n : ℕ} {s : ReplyState} (h : Reading env L s)
    (hlen : n ≤ s.len) (hrest : n ≤ s.rest.length) :
    s.buf.write s.off (s.rest.take n)
      = .ok (env.stream.take (s.off + n) ++ List.replicate (s.len - n) 0) := by
  have hzeros : List.replicate s.len (0 : UInt8)
      = List.replicate n 0 ++ List.replicate (s.len - n) 0 := by
    rw [List.replicate_append_replicate]
    congr 1
    omega
  have hoff : s.off = (env.stream.take s.off).length := by
    have hle := h.le
    rw [List.length_take]
    omega
  rw [h.buf, hzeros, Mem.write_append hoff (by simp; omega), h.rest, List.take_add,
    List.append_assoc]

/-- What a pass leaves that has read `n` bytes and is the last. -/
theorem Reading.filled {env : Pps} {L n : ℕ} {s s' : ReplyState} (h : Reading env L s)
    (hlen : n ≤ s.len) (hle : s.off + n ≤ env.stream.length)
    (hread : bytesRead s'.calls = s.off + n)
    (hbuf : s'.buf = env.stream.take (s.off + n) ++ List.replicate (s.len - n) 0)
    (hwhole : s.off + n = min L env.stream.length ↔ Undisturbed env L) : Filled env L s' := by
  have hL := h.len
  apply Filled.mk
  · rw [hread]
    omega
  · rwa [hread]
  · rw [hread, hbuf, show L - (s.off + n) = s.len - n by omega]
  · rwa [hread]

/-- A `read` that fills the buffer reads all there is to read. -/
theorem Reading.whole_of_full {env : Pps} {L : ℕ} {s : ReplyState} (h : Reading env L s)
    (hle : s.off + s.len ≤ env.stream.length) (hread : env.read s.turn s.rest s.len = s.len) :
    s.off + s.len = min L env.stream.length ↔ Undisturbed env L := by
  have hL := h.len
  obtain ⟨hfails, hnext⟩ := h.delivered_succ hread
  have hend : s.off + s.len = min L env.stream.length := by omega
  exact iff_of_true hend (h.undisturbed fun _ => ⟨hfails, hnext.trans hend⟩)

/-- A `poll` without input does no harm where the `read` before it was the last to return any. -/
theorem Reading.whole_of_not_input {env : Pps} {L n : ℕ} {s : ReplyState} (h : Reading env L s)
    (hpos : 1 ≤ n) (hlen : n ≤ s.len) (hle : s.off + n ≤ env.stream.length)
    (hread : env.read s.turn s.rest s.len = n) (hinput : ¬ Input (env.poll s.turn)) :
    s.off + n = min L env.stream.length ↔ Undisturbed env L := by
  have hL := h.len
  have hturn := h.delivered
  obtain ⟨hfails, hnext⟩ := h.delivered_succ hread
  constructor
  · exact fun hend => h.undisturbed fun _ => ⟨hfails, hnext.trans hend⟩
  · intro hundisturbed
    by_contra hend
    exact hinput ((hundisturbed s.turn (by omega)).2 (by omega))

/-- A `read` that returns nothing does no harm at the end of the stream. -/
theorem Reading.whole_of_not_pos {env : Pps} {L : ℕ} {s : ReplyState} (h : Reading env L s)
    (hret : ¬ 0 < env.read s.turn s.rest s.len) :
    s.off = min L env.stream.length ↔ Undisturbed env L := by
  have hL := h.len
  have hpos := h.pos
  have hle := h.le
  have hturn := h.delivered
  have hrest := h.length_rest
  constructor
  · exact fun hend => h.undisturbed fun hlt => absurd hend (by omega)
  · intro hundisturbed
    by_contra hend
    rcases Pps.read_of_not_pos hpos hret with hempty | hfail
    · rw [hempty, List.length_nil] at hrest
      omega
    · rw [(hundisturbed s.turn (by omega)).1] at hfail
      cases hfail

/-- One pass reads on, or is the last. -/
theorem replyStep_spec {env : Pps} {L : ℕ} {s : ReplyState} (hsize : L < 18446744073709551616)
    (h : Reading env L s) :
    (∃ s', replyStep env s = .ok (.next s') ∧ Reading env L s' ∧ s'.len < s.len) ∨
    ∃ s', replyStep env s = .ok (.done s') ∧ Filled env L s' := by
  have hL := h.len
  have hoff := h.off
  by_cases hret : 0 < env.read s.turn s.rest s.len
  · obtain ⟨n, hn, hn1, hnlen, hnrest⟩ := Pps.read_of_pos hret
    have hle : s.off + n ≤ env.stream.length := by
      rw [h.length_rest] at hnrest
      omega
    have hwrite := h.write hnlen hnrest
    have hread : bytesRead (s.calls ++ [.read (n : ℤ)]) = s.off + n := by
      rw [bytesRead_read, hoff, Int.toNat_natCast]
    have hpoll : ∀ ret revents, bytesRead (s.calls ++ [.read (n : ℤ)] ++ [.poll ret revents])
        = s.off + n := by
      intro ret revents
      rw [bytesRead_poll, hread]
    unfold replyStep
    simp only [ReplyState.log, hn, Int.toNat_natCast, hwrite, ok_bind]
    rw [if_pos (by omega), toSize_of_lt (by omega)]
    by_cases hfull : n = s.len
    · -- the piece fills the buffer
      rw [if_pos hfull]
      refine Or.inr ⟨_, rfl, h.filled hnlen hle hread rfl ?_⟩
      rw [hfull] at hle hn ⊢
      exact h.whole_of_full hle hn
    · rw [if_neg hfull, show (s.len : ℤ) - n = ((s.len - n : ℕ) : ℤ) by omega,
        toSize_of_lt (by omega)]
      by_cases hinput : Input (env.poll s.turn)
      · rw [if_neg fun hstop => (not_input_iff _).mpr hstop hinput]
        obtain ⟨hfails, hnext⟩ := h.delivered_succ hn
        refine Or.inl ⟨_, rfl, ?_, by dsimp only; omega⟩
        apply Reading.mk
        · exact (hpoll _ _).symm
        · dsimp only
          omega
        · dsimp only
          omega
        · exact hle
        · rw [h.rest, List.drop_drop]
        · rfl
        · exact hnext.symm
        · intro k hk
          rcases Nat.lt_succ_iff_lt_or_eq.mp hk with hlt | rfl
          · exact h.before k hlt
          · exact ⟨hfails, hinput⟩
      · rw [if_pos ((not_input_iff _).mp hinput)]
        exact Or.inr ⟨_, rfl, h.filled hnlen hle (hpoll _ _) rfl
          (h.whole_of_not_input hn1 hnlen hle hn hinput)⟩
  · -- the stream has ended, or the read failed
    have hread : bytesRead (s.calls ++ [.read (env.read s.turn s.rest s.len)]) = s.off := by
      rw [bytesRead_read, hoff]
      omega
    have hrun : replyStep env s
        = .ok (.done (s.log (.read (env.read s.turn s.rest s.len)))) := by
      unfold replyStep
      dsimp only
      rw [if_neg hret]
      rfl
    exact Or.inr ⟨_, hrun, h.filled (Nat.zero_le _) h.le hread h.buf (h.whole_of_not_pos hret)⟩

/-- From the cleared buffer, the loop ends and every state on the way is as described. -/
theorem reply_spec {env : Pps} {s : ReplyState} {L fuel : ℕ} (hsize : L < 18446744073709551616)
    (hfuel : L < fuel) (h : Reading env L s) :
    (∃ s', iterate (replyStep env) fuel s = .ok s' ∧ Filled env L s') ∧
      ∀ s', Reaches (replyStep env) s s' → Reading env L s' := by
  constructor
  · have hlen := h.len
    refine iterate_total (Reading env L) ReplyState.len (Filled env L) (fun s hs => ?_) fuel s h
      (by omega)
    rcases replyStep_spec hsize hs with ⟨s', hrun, hs', hdec⟩ | hdone
    · exact Or.inl ⟨s', hrun, hs', hdec⟩
    · exact Or.inr hdone
  · intro s' hreach
    refine hreach.inv (Reading env L) (fun s₁ s₂ h₁ hrun => ?_) h
    rcases replyStep_spec hsize h₁ with ⟨s₃, hrun', h₃, -⟩ | ⟨s₃, hrun', -⟩
    · rw [hrun] at hrun'
      cases hrun'
      exact h₃
    · rw [hrun] at hrun'
      cases hrun'

/-! ## The whole command -/

/-- The first `L` bytes of a stream, padded with zeros. -/
def padded (stream : Mem) (L : ℕ) : Mem := stream.take L ++ List.replicate (L - stream.length) 0

theorem Filled.eq_padded {env : Pps} {L : ℕ} {s : ReplyState} (h : Filled env L s)
    (hundisturbed : Undisturbed env L) : s.buf = padded env.stream L := by
  have hread := h.whole.mpr hundisturbed
  rw [h.buf, padded, hread]
  rcases Nat.le_total L env.stream.length with hle | hle
  · rw [Nat.min_eq_left hle, Nat.sub_self, show L - env.stream.length = 0 by omega]
  · rw [Nat.min_eq_right hle, List.take_length, List.take_of_length_le hle]

/-- Up to the loop: the command is written and the buffer cleared. -/
theorem sendDPPSCommand_eq {env : Pps} {buf : Mem} {fuel : ℕ} (hcmd : 0 ∈ buf)
    (hsock : 0 ≤ env.sock) (hwritten : 0 < env.written) :
    sendDPPSCommand fuel env buf buf.length = (do
      let s ← iterate (replyStep env) fuel ⟨List.replicate buf.length 0, 0, buf.length,
        env.stream, 0, [.connect, .write ((cstr buf).length + 1)]⟩
      return ⟨0, s.buf, s.calls ++ [.close]⟩) := by
  have hclear : buf.write 0 (List.replicate buf.length 0) = .ok (List.replicate buf.length 0) := by
    have hwrite := Mem.write_append (a := []) (b := buf) (c := []) rfl
      (List.length_replicate (n := buf.length) (a := 0))
    simpa using hwrite
  rw [sendDPPSCommand, if_neg (by omega), strlen_of_mem (by simpa using hcmd), ok_bind,
    if_pos hwritten, hclear, ok_bind, List.drop_zero]

/-- The state of the loop when it is entered. -/
theorem reading_first (env : Pps) {L : ℕ} (hpos : 1 ≤ L) (length : ℕ) :
    Reading env L ⟨List.replicate L 0, 0, L, env.stream, 0, [.connect, .write length]⟩ :=
  ⟨rfl, Nat.zero_add L, hpos, Nat.zero_le _, rfl, rfl, rfl,
    fun k hk => absurd hk (Nat.not_lt_zero k)⟩

theorem sendDPPSCommand_spec {env : Pps} {buf : Mem} {fuel : ℕ} (hcmd : 0 ∈ buf)
    (hsize : buf.length < 18446744073709551616) (hsock : 0 ≤ env.sock)
    (hwritten : 0 < env.written) (hfuel : buf.length < fuel) :
    ∃ s, sendDPPSCommand fuel env buf buf.length = .ok ⟨0, s.buf, s.calls ++ [.close]⟩ ∧
      Filled env buf.length s := by
  have hfirst := reading_first env (List.length_pos_of_mem hcmd) ((cstr buf).length + 1)
  obtain ⟨s, hrun, hs⟩ := (reply_spec hsize hfuel hfirst).1
  refine ⟨s, ?_, hs⟩
  rw [sendDPPSCommand_eq hcmd hsock hwritten, hrun, ok_bind]
  rfl

/-- Once the command is written the read loop ends within as many reads as the buffer has bytes,
every write inside the buffer, and at every point the buffer holds the bytes read so far and
zeros. All there is to read is read exactly where no `poll` and no `read` disturbs it, and then
the buffer has the first bytes of the stream, whatever the pieces. -/
theorem sendDPPSCommand_reply (env : Pps) (buf : Mem) (fuel : ℕ) (hcmd : 0 ∈ buf)
    (hsize : buf.length < 18446744073709551616) (hsock : 0 ≤ env.sock)
    (hwritten : 0 < env.written) (hfuel : buf.length < fuel) :
    ∃ out, sendDPPSCommand fuel env buf buf.length = .ok out ∧
      successfulReads out.calls ≤ buf.length ∧
      bytesRead out.calls ≤ env.stream.length ∧
      out.buf = env.stream.take (bytesRead out.calls)
        ++ List.replicate (buf.length - bytesRead out.calls) 0 ∧
      (∀ s, Reaches (replyStep env) ⟨List.replicate buf.length 0, 0, buf.length, env.stream, 0,
          [.connect, .write ((cstr buf).length + 1)]⟩ s →
        s.off = bytesRead s.calls ∧ s.off + s.len = buf.length ∧
        s.buf = env.stream.take (bytesRead s.calls)
          ++ List.replicate (buf.length - bytesRead s.calls) 0) ∧
      (bytesRead out.calls = min buf.length env.stream.length ↔ Undisturbed env buf.length) ∧
      (Undisturbed env buf.length → out.buf = padded env.stream buf.length) ∧
      ∀ (env' : Pps) (out' : DppsOutcome), env'.stream = env.stream → 0 ≤ env'.sock →
        0 < env'.written → sendDPPSCommand fuel env' buf buf.length = .ok out' →
        Undisturbed env buf.length → Undisturbed env' buf.length → out'.buf = out.buf := by
  obtain ⟨s, hrun, hs⟩ := sendDPPSCommand_spec hcmd hsize hsock hwritten hfuel
  refine ⟨_, hrun, ?_, ?_, ?_, fun s' hreach => ?_, ?_, hs.eq_padded, ?_⟩
  · calc successfulReads (s.calls ++ [.close]) ≤ bytesRead (s.calls ++ [.close]) :=
        successfulReads_le _
      _ = bytesRead s.calls := bytesRead_close _
      _ ≤ buf.length := hs.le
  · rw [bytesRead_close]
    exact hs.le_stream
  · rw [bytesRead_close]
    exact hs.buf
  · have hfirst := reading_first env (List.length_pos_of_mem hcmd) ((cstr buf).length + 1)
    have hs' := (reply_spec hsize hfuel hfirst).2 s' hreach
    have hlen := hs'.len
    refine ⟨hs'.off, hlen, ?_⟩
    rw [← hs'.off, hs'.buf, show buf.length - s'.off = s'.len by omega]
  · rw [bytesRead_close]
    exact hs.whole
  · -- both buffers are what the stream alone says
    intro env' out' hstream hsock' hwritten' hrun' hundisturbed hundisturbed'
    obtain ⟨s₂, hrun₂, hs₂⟩ := sendDPPSCommand_spec hcmd hsize hsock' hwritten' hfuel
    rw [hrun₂] at hrun'
    cases hrun'
    rw [hs.eq_padded hundisturbed, hs₂.eq_padded hundisturbed', hstream]

/-- A daemon that answers `OK!` in pieces of at most `chunk` bytes. -/
def answersOk (chunk : ℕ) (poll : ℤ × ℕ) : Pps :=
  ⟨3, 3, ascii "OK!", fun _ => chunk, fun _ => false, fun _ => poll⟩

/-- In pieces of two. -/
theorem sendDPPSCommand_reply_pieces : ∃ out,
    sendDPPSCommand 5 (answersOk 2 (1, 1)) (ascii "hi" ++ [0, 0]) 4 = .ok out ∧
      out.buf = ascii "OK!" ++ [0] := by
  obtain ⟨out, hrun, -, -, -, -, -, hpadded, -⟩ := sendDPPSCommand_reply (answersOk 2 (1, 1))
    (ascii "hi" ++ [0, 0]) 5 (by decide) (by decide) (by decide) (by decide) (by decide)
  have hinput : Input (1, 1) := by decide
  exact ⟨out, hrun, (hpadded fun _ _ => ⟨rfl, fun _ => hinput⟩).trans (by decide)⟩

/-- A `poll` that is interrupted has not timed out, but ends the reply behind its first piece. -/
theorem sendDPPSCommand_interrupted :
    (∀ k, ((answersOk 2 (-1, 0)).poll k).1 ≠ 0) ∧ (∀ k, (answersOk 2 (-1, 0)).fails k = false) ∧
      (sendDPPSCommand 5 (answersOk 2 (-1, 0)) (ascii "hi" ++ [0, 0]) 4
        = .ok ⟨0, ascii "OK" ++ [0, 0], [.connect, .write 3, .read 2, .poll (-1) 0, .close]⟩) ∧
      (sendDPPSCommand 5 (answersOk 3 (-1, 0)) (ascii "hi" ++ [0, 0]) 4
        = .ok ⟨0, ascii "OK!" ++ [0], [.connect, .write 3, .read 3, .poll (-1) 0, .close]⟩) ∧
      ascii "OK" ++ [0, 0] ≠ padded (ascii "OK!") 4 := by
  have hpoll : (-1 : ℤ) ≠ 0 := by decide
  exact ⟨fun _ => hpoll, fun _ => rfl, by decide, by decide, by decide⟩

end MeizuSm8150.Display
