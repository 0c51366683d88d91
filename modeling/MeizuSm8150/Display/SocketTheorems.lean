import MeizuSm8150.Lib.Protocol
import MeizuSm8150.Display.UtilsTheorems

/-!
# The contract of a command

What a caller of `sendDPPSCommand` can rely on whatever the socket and the daemon do: the calls on
the socket follow one protocol that ends with the socket closed, a failure leaves the buffer as it
was, and a reply touches no byte behind the length it was given. `UtilsTheorems` has the reply in
a buffer that is used whole; a larger one is the same loop with more bytes behind.
-/

namespace MeizuSm8150.Display

open CMachine CString Protocol

/-! ## The protocol of the socket -/

inductive SocketPhase where
  | idle
  | connected
  /-- The next call reads up to `left` bytes. -/
  | waiting (left : ℕ)
  /-- A piece was read, and the next call polls. -/
  | received (left : ℕ)
  | over
  | closed
deriving Repr, DecidableEq

/-- A full buffer, the end of the stream, a failed read and a poll without input end the reply. -/
def SocketPhase.next (env : Pps) (len : ℕ) : SocketPhase → PpsCall → Option SocketPhase
  | .idle, .connect => some (if env.sock < 0 then .closed else .connected)
  | .connected, .write _ => some (if env.written > 0 then .waiting len else .over)
  | .waiting left, .read ret =>
    if ret ≤ 0 ∨ ret = left then some .over
    else if ret < left then some (.received (left - ret.toNat)) else none
  | .received left, .poll ret revents =>
    some (if ret ≤ 0 ∨ revents &&& pollin = 0 then .over else .waiting left)
  | .over, .close => some .closed
  | _, _ => none

/-- The number of sockets that are open. -/
def SocketPhase.held : SocketPhase → ℕ
  | .idle | .closed => 0
  | _ => 1

def PpsCall.opens (env : Pps) : PpsCall → Bool
  | .connect => 0 ≤ env.sock
  | _ => false

def PpsCall.closes : PpsCall → Bool
  | .close => true
  | _ => false

theorem SocketPhase.held_next {env : Pps} {len : ℕ} {p p' : SocketPhase} {call : PpsCall}
    (h : SocketPhase.next env len p call = some p') :
    p'.held + (if call.closes then 1 else 0) = p.held + (if call.opens env then 1 else 0) := by
  unfold SocketPhase.next at h
  split at h <;> grind [held, PpsCall.closes, PpsCall.opens]

/-! ## One pass of the read loop -/

/-- A pass reads and, where it stays in the loop, polls. -/
theorem replyStep_follows {env : Pps} {len : ℕ} {s : ReplyState} {o : Step ReplyState ReplyState}
    (hlen : s.len < 18446744073709551616)
    (h : follow (SocketPhase.next env len) .idle s.calls = some (.waiting s.len))
    (hrun : replyStep env s = .ok o) :
    match o with
    | .next s' => s'.len < 18446744073709551616 ∧
      follow (SocketPhase.next env len) .idle s'.calls = some (.waiting s'.len)
    | .done s' => follow (SocketPhase.next env len) .idle s'.calls = some .over := by
  have hread := follow_concat h (.read (env.read s.turn s.rest s.len))
  unfold replyStep at hrun
  dsimp only [ReplyState.log] at hrun
  by_cases hret : 0 < env.read s.turn s.rest s.len
  · obtain ⟨n, hn, hn1, hnlen, -⟩ := Pps.read_of_pos hret
    rw [if_pos hret, hn] at hrun
    rw [hn, SocketPhase.next] at hread
    obtain ⟨buf, -, hrun⟩ := bind_eq_ok hrun
    rw [toSize_of_lt (by omega)] at hrun
    by_cases hfull : n = s.len
    · -- the piece fills the buffer
      rw [if_pos hfull] at hrun
      rw [if_pos (Or.inr (congrArg Nat.cast hfull))] at hread
      obtain rfl := Except.ok.inj hrun
      exact hread
    · rw [if_neg hfull] at hrun
      rw [if_neg (by omega), if_pos (by omega), Int.toNat_natCast] at hread
      have hpoll := follow_concat hread (.poll (env.poll s.turn).1 (env.poll s.turn).2)
      rw [SocketPhase.next] at hpoll
      by_cases hinput : (env.poll s.turn).1 ≤ 0 ∨ (env.poll s.turn).2 &&& pollin = 0
      · rw [if_pos hinput] at hrun hpoll
        obtain rfl := Except.ok.inj hrun
        exact hpoll
      · rw [if_neg hinput] at hrun hpoll
        obtain rfl := Except.ok.inj hrun
        have hleft : toSize ((s.len : ℤ) - n) = s.len - n := by
          rw [show (s.len : ℤ) - n = ((s.len - n : ℕ) : ℤ) by omega, toSize_of_lt (by omega)]
        dsimp only
        rw [hleft]
        exact ⟨by omega, hpoll⟩
  · -- the stream is over, or the read failed
    rw [if_neg hret] at hrun
    rw [SocketPhase.next, if_pos (Or.inl (Int.not_lt.mp hret))] at hread
    obtain rfl := Except.ok.inj hrun
    exact hread

/-- The same state in a buffer with more bytes behind. -/
def ReplyState.before (tail : Mem) (s : ReplyState) : ReplyState :=
  { s with buf := s.buf ++ tail }

/-- A pass does not look behind what it was given. -/
theorem replyStep_before {env : Pps} {s : ReplyState} {o : Step ReplyState ReplyState}
    (tail : Mem) (h : replyStep env s = .ok o) :
    replyStep env (s.before tail) = .ok (match o with
      | .next s' => .next (s'.before tail)
      | .done s' => .done (s'.before tail)) := by
  unfold replyStep at h ⊢
  dsimp only [ReplyState.log, ReplyState.before] at h ⊢
  by_cases hret : env.read s.turn s.rest s.len > 0
  · rw [if_pos hret] at h ⊢
    obtain ⟨buf, hwrite, h⟩ := bind_eq_ok h
    rw [Mem.write_append_right hwrite, ok_bind]
    split at h
    · obtain rfl := Except.ok.inj h
      rw [if_pos ‹_›]
      rfl
    · rw [if_neg ‹_›]
      split at h
      · obtain rfl := Except.ok.inj h
        rw [if_pos ‹_›]
        rfl
      · obtain rfl := Except.ok.inj h
        rw [if_neg ‹_›]
        rfl
  · rw [if_neg hret] at h ⊢
    obtain rfl := Except.ok.inj h
    rfl

/-! ## The whole loop -/

/-- With nothing to read into, the first read ends the loop. -/
theorem reply_empty (env : Pps) {fuel : ℕ} (hfuel : 0 < fuel) (calls : List PpsCall) :
    ∃ s, iterate (replyStep env) fuel ⟨[], 0, 0, env.stream, 0, calls⟩ = .ok s ∧ s.buf = [] ∧
      bytesRead s.calls = bytesRead calls := by
  obtain ⟨fuel, rfl⟩ : ∃ k, fuel = k + 1 := ⟨fuel - 1, by omega⟩
  have hret : ¬ 0 < env.read 0 env.stream 0 := by
    intro h
    obtain ⟨n, -, h1, h0, -⟩ := Pps.read_of_pos h
    omega
  have hstep : replyStep env ⟨[], 0, 0, env.stream, 0, calls⟩ = .ok (.done
      ⟨[], 0, 0, env.stream, 0, calls ++ [.read (env.read 0 env.stream 0)]⟩) := by
    unfold replyStep
    dsimp only [ReplyState.log]
    rw [if_neg hret]
    rfl
  refine ⟨_, iterate_done hstep fuel, rfl, ?_⟩
  rw [bytesRead_read]
  omega

/-- The loop on the first `len` bytes of a buffer: what was read, zeros, and the rest as it was. -/
theorem reply_in_buffer (env : Pps) {len fuel : ℕ} (hsize : len < 18446744073709551616)
    (hfuel : len < fuel) (length : ℕ) (tail : Mem) :
    ∃ s, iterate (replyStep env) fuel
        ⟨List.replicate len 0 ++ tail, 0, len, env.stream, 0, [.connect, .write length]⟩ = .ok s ∧
      bytesRead s.calls ≤ len ∧ bytesRead s.calls ≤ env.stream.length ∧
      s.buf = env.stream.take (bytesRead s.calls)
        ++ (List.replicate (len - bytesRead s.calls) 0 ++ tail) := by
  -- the loop on the first bytes never comes to those behind
  have hlift : ∀ {s s' : ReplyState}, iterate (replyStep env) fuel s = .ok s' →
      iterate (replyStep env) fuel (s.before tail) = .ok (s'.before tail) := by
    intro s s' hrun
    exact iterate_map (ReplyState.before tail) (ReplyState.before tail)
      (fun _ _ h => replyStep_before tail h) (fun _ _ h => replyStep_before tail h) hrun
  by_cases hpos : 1 ≤ len
  · obtain ⟨s, hrun, hs⟩ := (reply_spec hsize hfuel (reading_first env hpos length)).1
    refine ⟨_, hlift hrun, hs.le, hs.le_stream, ?_⟩
    dsimp only [ReplyState.before]
    rw [hs.buf, List.append_assoc]
  · obtain rfl : len = 0 := by omega
    obtain ⟨s, hrun, hbuf, hread⟩ := reply_empty env hfuel [.connect, .write length]
    have hzero : bytesRead s.calls = 0 := hread
    refine ⟨_, hlift hrun, ?_, ?_, ?_⟩
    · exact hzero.le
    · exact hzero.le.trans (Nat.zero_le _)
    · rw [ReplyState.before, hbuf]
      dsimp only
      rw [hzero]
      rfl

/-! ## The contract -/

theorem neg_eio_ne_zero : -eio ≠ 0 := by decide

/-- Whatever the socket and the daemon do, a call returns; it follows the protocol to its end and
closes what it opened; its result says whether the command was written; if not, the buffer is
as it was, and if so, it holds what was read, zeros up to the length, and the rest as it was. -/
theorem sendDPPSCommand_contract (env : Pps) (buf : Mem) (len fuel : ℕ) (hcmd : 0 ∈ buf)
    (hlen : len ≤ buf.length) (hsize : len < 18446744073709551616) (hfuel : len < fuel) :
    ∃ out, sendDPPSCommand fuel env buf len = .ok out ∧
      follow (SocketPhase.next env len) .idle out.calls = some .closed ∧
      out.calls.countP PpsCall.closes = out.calls.countP (PpsCall.opens env) ∧
      (out.rc = 0 ↔ 0 ≤ env.sock ∧ 0 < env.written) ∧
      (out.rc ≠ 0 → out.buf = buf) ∧
      (out.rc = 0 → bytesRead out.calls ≤ len ∧ bytesRead out.calls ≤ env.stream.length ∧
        out.buf = env.stream.take (bytesRead out.calls)
          ++ (List.replicate (len - bytesRead out.calls) 0 ++ buf.drop len)) := by
  have hbalance : ∀ {calls : List PpsCall},
      follow (SocketPhase.next env len) .idle calls = some .closed →
      calls.countP PpsCall.closes = calls.countP (PpsCall.opens env) := by
    intro calls h
    have hcount := follow_balance SocketPhase.held (PpsCall.opens env) PpsCall.closes
      (fun p p' call => SocketPhase.held_next) h
    simpa [SocketPhase.held] using hcount
  by_cases hsock : env.sock < 0
  · -- there is no socket to close
    have hrun : sendDPPSCommand fuel env buf len = .ok ⟨env.sock, buf, [.connect]⟩ := by
      rw [sendDPPSCommand, if_pos hsock]
      rfl
    have hfollow : follow (SocketPhase.next env len) .idle [.connect] = some .closed := by
      simp [follow, SocketPhase.next, hsock]
    refine ⟨_, hrun, hfollow, hbalance hfollow, ?_, fun _ => rfl, fun h => ?_⟩
    · exact iff_of_false (by dsimp only; omega) (by omega)
    · dsimp only at h
      omega
  · have hcommand : strlen buf 0 = .ok (cstr (buf.drop 0)).length := strlen_of_mem (by simpa)
    have hopen : follow (SocketPhase.next env len) .idle [.connect] = some .connected := by
      simp [follow, SocketPhase.next, hsock]
    have hwrite := follow_concat hopen (.write ((cstr (buf.drop 0)).length + 1))
    rw [SocketPhase.next] at hwrite
    by_cases hwritten : env.written > 0
    · -- the command is written, and the reply read
      have hclear : buf.write 0 (List.replicate len 0)
          = .ok (List.replicate len 0 ++ buf.drop len) := by
        have hfits : 0 + (List.replicate len (0 : UInt8)).length ≤ buf.length := by simpa
        rw [Mem.write, if_pos hfits]
        simp
      obtain ⟨s, hrun, hle, hstream, hbuf⟩ := reply_in_buffer env hsize hfuel
        ((cstr (buf.drop 0)).length + 1) (buf.drop len)
      have hover : follow (SocketPhase.next env len) .idle s.calls = some .over := by
        rw [if_pos hwritten] at hwrite
        refine iterate_inv (fun s => s.len < 18446744073709551616 ∧
            follow (SocketPhase.next env len) .idle s.calls = some (.waiting s.len))
          (fun s => follow (SocketPhase.next env len) .idle s.calls = some .over)
          (fun s s' hs hstep => ?_) (fun s s' hs hstep => ?_) fuel _ s ⟨hsize, hwrite⟩ hrun
        · exact replyStep_follows hs.1 hs.2 hstep
        · exact replyStep_follows hs.1 hs.2 hstep
      have hclosed := follow_concat hover .close
      refine ⟨⟨0, s.buf, s.calls ++ [.close]⟩, ?_, hclosed, hbalance hclosed, ?_, ?_, ?_⟩
      · rw [sendDPPSCommand, if_neg hsock, hcommand, ok_bind, if_pos hwritten, hclear, ok_bind,
          hrun, ok_bind]
        rfl
      · exact iff_of_true rfl ⟨Int.not_lt.mp hsock, hwritten⟩
      · exact fun h => absurd rfl h
      · intro _
        dsimp only
        rw [bytesRead_close]
        exact ⟨hle, hstream, hbuf⟩
    · -- nothing was written, and nothing is read
      rw [if_neg hwritten] at hwrite
      have hclosed := follow_concat hwrite .close
      refine ⟨⟨-eio, buf, _⟩, ?_, hclosed, hbalance hclosed, ?_, fun _ => rfl, fun h => ?_⟩
      · rw [sendDPPSCommand, if_neg hsock, hcommand, ok_bind, if_neg hwritten]
        rfl
      · exact iff_of_false neg_eio_ne_zero (fun h => hwritten h.2)
      · exact absurd h neg_eio_ne_zero

/-- A reply of two bytes into four of a buffer of six. -/
theorem sendDPPSCommand_contract_six : ∃ out,
    sendDPPSCommand 5 ⟨3, 3, ascii "OK", fun _ => 2, fun _ => false, fun _ => (1, 1)⟩
      (ascii "hi" ++ [0, 0, 7, 7]) 4 = .ok out ∧ out.rc = 0 ∧
    follow (SocketPhase.next ⟨3, 3, ascii "OK", fun _ => 2, fun _ => false, fun _ => (1, 1)⟩ 4)
      .idle out.calls = some .closed := by
  obtain ⟨out, hrun, hfollow, -, hrc, -⟩ := sendDPPSCommand_contract
    ⟨3, 3, ascii "OK", fun _ => 2, fun _ => false, fun _ => (1, 1)⟩ (ascii "hi" ++ [0, 0, 7, 7])
    4 5 (by decide) (by decide) (by decide) (by decide)
  exact ⟨out, hrun, hrc.mpr (by decide), hfollow⟩

end MeizuSm8150.Display
