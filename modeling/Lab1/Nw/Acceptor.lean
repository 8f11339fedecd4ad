import Lab1.Nw.Message

/-!
# The two ends of a connection

`Acceptor::handle_request` (`common/nw/src/Acceptor.cpp`), and the writing half of `ClientImpl::run`
(`common/ut/inc/nwUT.h`).

The acceptor's end of a connection has the bytes that are still to be read.  `__READ_FD_DRAIN` calls
`read` until it has the number of bytes that it was asked for or `read` returns `0`, which it does
when everything is read and the client has closed its end.  Until then a `read` that finds nothing
blocks.
-/

namespace Lab1.Nw

open NwMessage

/-- The acceptor's end of a connection. -/
structure Sock where
  /-- what is still to be read -/
  input : List UInt8
  /-- the client has closed its end -/
  closed : Bool

inductive Stop where
  /-- a call does not come back, or a step cannot be taken, as things are -/
  | blocked
  | fault (f : Fault)
  deriving DecidableEq, Repr

/-! ### `__READ_FD_DRAIN` -/

/-- The `int` that an unsigned length turns into, as far as the loop sees it: the loop does not
begin for a negative one. -/
def drainLen (len : ℕ) : ℕ := if len < 2147483648 then len else 0

/-- The bytes that are there for a drain of `len` bytes. -/
def Sock.takes (sock : Sock) (len : ℕ) : List UInt8 := sock.input.take (drainLen len)

/-- The bytes that are read, and the socket afterwards. -/
def readFdDrain (sock : Sock) (len : ℕ) : Except Stop (List UInt8 × Sock) :=
  if drainLen len ≤ sock.input.length ∨ sock.closed = true then
    .ok (sock.takes len, { sock with input := sock.input.drop (drainLen len) })
  else .error .blocked

/-! ### `Acceptor::handle_request` -/

/-- What a call of `handle_request` does besides reading. -/
structure Handled where
  ret : ℤ
  /-- the message type and the body that were read, when the type is one of the two handled ones -/
  decoded : Option (ℕ × List UInt8)
  /-- the body as it is printed (not in testing mode) -/
  printed : List UInt8
  /-- the bytes written to `m_logFd` (in testing mode) or back to the client -/
  written : List UInt8
  deriving DecidableEq, Repr

/-- `n` bytes are stored in the body of a message, or read from it. -/
def requireInBody (n : ℕ) : Except Stop Unit :=
  if n ≤ maxMsgSz then .ok () else .error (.fault .outOfBounds)

/-- The cases `TRM`, which only sets `ret` and falls through, and `REG`. -/
def handleBody (L : HeaderLayout) (testingMode : Bool) (ret : ℤ) (nmsg : NwMessage)
    (sock : Sock) : Except Stop (Sock × Handled) := do
  -- what is there is stored, even if the drain does not come to its end
  requireInBody (sock.takes (getMsgSz L nmsg)).length
  let (body, sock) ← readFdDrain sock (getMsgSz L nmsg)
  let msgType := getMsgType L nmsg
  let nmsg := nmsg.write L.size body
  if testingMode then
    return (sock, ⟨ret, some (msgType, body), [], bytes L nmsg⟩)
  else
    -- the loop prints `m_body[0]` to `m_body[m_msg_sz - 1]`
    requireInBody (getMsgSz L nmsg)
    let printed := nmsg.read L.size (getMsgSz L nmsg)
    return (sock, ⟨ret, some (msgType, body), printed, bytes L (setMsgType L .TRM nmsg)⟩)

/-- `handle_request`, where `mem` is what its local message lies on. -/
def handleRequest (L : HeaderLayout) (testingMode : Bool) (sock : Sock) (mem : Mem) :
    Except Stop (Sock × Handled) := do
  let (hdr, sock) ← readFdDrain sock L.size
  let nmsg := (NwMessage.new L mem).write 0 hdr
  if getMsgType L nmsg = MsgTypes.TRM.code then
    handleBody L testingMode (-1) nmsg sock
  else if getMsgType L nmsg = MsgTypes.REG.code then
    handleBody L testingMode 0 nmsg sock
  else
    return (sock, ⟨-1, none, [], []⟩)

/-! ### `ClientImpl::run` -/

/-- A message that a client may send. -/
structure ClientMsg where
  body : List UInt8
  type : MsgTypes
  length_le : body.length ≤ maxMsgSz
  type_ne : type ≠ .INV

/-- The bytes that a client with the message object `m` writes for `msgs`, one after the other. -/
def clientRun (L : HeaderLayout) (m : NwMessage) : List ClientMsg → Except Fault (List UInt8)
  | [] => .ok []
  | msg :: msgs => do
    let m ← NwMessage.init L m msg.body msg.body.length msg.type
    let stream ← clientRun L m msgs
    return bytes L m ++ stream

end Lab1.Nw
