import MeizuSm8150.Lib.CString

/-!
# Commands to the display daemon

`Utils::sendDPPSCommand` of `livedisplay/Utils.cpp` writes a command to the socket `pps` and
reads the reply back into the same buffer, piece by piece. The daemon and the socket are a
parameter (`Pps`): the bytes of the reply, and how each call of `read` and `poll` turns out.
-/

namespace MeizuSm8150.Display

open CMachine CString

def eio : ℤ := 5

def pollin : ℕ := 1

/-- The socket as `sendDPPSCommand` sees it. -/
structure Pps where
  /-- What `socket_local_client` returns. -/
  sock : ℤ
  /-- What `write` returns. -/
  written : ℤ
  /-- The bytes of the reply, to the end of the stream. -/
  stream : Mem
  /-- How much the call number `k` of `read` would like to return. -/
  chunk : ℕ → ℕ
  /-- Whether the call number `k` of `read` fails. -/
  fails : ℕ → Bool
  /-- What the call number `k` of `poll` returns, and `revents` after it. -/
  poll : ℕ → ℤ × ℕ

/-- `read` with `rest` of the stream left: at least one byte and at most what fits or is left,
`0` at the end of the stream. -/
def Pps.read (env : Pps) (k : ℕ) (rest : Mem) (len : ℕ) : ℤ :=
  if env.fails k then -1 else min (max 1 (env.chunk k)) (min len rest.length)

/-- The calls on the socket. -/
inductive PpsCall where
  | connect
  | write (length : ℕ)
  | read (ret : ℤ)
  | poll (ret : ℤ) (revents : ℕ)
  | close
deriving Repr, DecidableEq

/-- The state of the read loop: the whole buffer, where the pointer into it has moved to, the
length left behind the pointer, and the stream not read yet. -/
structure ReplyState where
  buf : Mem
  off : ℕ
  len : ℕ
  rest : Mem
  turn : ℕ
  calls : List PpsCall
deriving Repr, DecidableEq

def ReplyState.log (s : ReplyState) (call : PpsCall) : ReplyState :=
  { s with calls := s.calls ++ [call] }

/-- One pass of the read loop. -/
def replyStep (env : Pps) (s : ReplyState) : Run (Step ReplyState ReplyState) :=
  let ret := env.read s.turn s.rest s.len
  let s := s.log (.read ret)
  if ret > 0 then do
    let buf ← s.buf.write s.off (s.rest.take ret.toNat)
    let s := { s with buf := buf, rest := s.rest.drop ret.toNat }
    if toSize ret = s.len then return .done s
    else
      let s := { s with len := toSize (s.len - ret), off := s.off + ret.toNat }
      let (ret, revents) := env.poll s.turn
      let s := s.log (.poll ret revents)
      if ret ≤ 0 ∨ revents &&& pollin = 0 then return .done s
      else return .next { s with turn := s.turn + 1 }
  else return .done s

structure DppsOutcome where
  rc : ℤ
  buf : Mem
  calls : List PpsCall
deriving Repr, DecidableEq

def sendDPPSCommand (fuel : ℕ) (env : Pps) (buf : Mem) (len : ℕ) : Run DppsOutcome :=
  if env.sock < 0 then return ⟨env.sock, buf, [.connect]⟩
  else do
    let length ← strlen buf 0
    let calls := [.connect, .write (length + 1)]
    if env.written > 0 then
      let buf ← buf.write 0 (List.replicate len 0)
      let s ← iterate (replyStep env) fuel ⟨buf, 0, len, env.stream, 0, calls⟩
      return ⟨0, s.buf, s.calls ++ [.close]⟩
    else return ⟨-eio, buf, calls ++ [.close]⟩

end MeizuSm8150.Display
