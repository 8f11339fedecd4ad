import Lab1.Nw.Message
import Lab1.Shr.Macros

/-!
# A request, call by call

`Acceptor::handle_request` (`common/nw/src/Acceptor.cpp`) with the drains that it is made of, where
every single `read` and `write` moves what the system likes.
-/

namespace Lab1.Nw

open NwMessage Shr

/-- The `int` that an unsigned 32-bit number turns into. -/
def intOfUInt32 (n : ℕ) : ℤ := if n < 2147483648 then n else n - 4294967296

inductive RequestEnd where
  | returned (ret : ℤ) (io : Io)
  /-- `exit` was called -/
  | exited (code : ℤ)
  /-- a call has not come back yet -/
  | waiting

/-- A drain with what follows it. -/
def afterDrain (run : Except Fault (Driven DrainVars IoChoice DrainVars))
    (rest : Io → List IoChoice → Except Fault RequestEnd) : Except Fault RequestEnd :=
  match run with
  | .ok (.finished v unused) =>
    match v.exitCode with
    | some code => .ok (.exited code)
    | none => rest v.io unused
  | .ok (.waiting _) => .ok .waiting
  | .error f => .error f

/-- The message is written to `m_logFd`, or back to the client. -/
def writeMessage (L : HeaderLayout) (ret : ℤ) (io : Io) (choices : List IoChoice) :
    Except Fault RequestEnd :=
  afterDrain (drain .write ⟨0, sizeofNwMessage L, 1⟩ (sizeofNwMessage L) io choices) fun io _ =>
    .ok (.returned ret io)

/-- The cases `TRM` and `REG`. -/
def handleBodyCalls (L : HeaderLayout) (testingMode : Bool) (ret : ℤ) (io : Io)
    (choices : List IoChoice) : Except Fault RequestEnd :=
  afterDrain (drain .read ⟨L.size, maxMsgSz, 1⟩ (intOfUInt32 (getMsgSz L io.mem)) io choices)
    fun io choices =>
      if testingMode then
        writeMessage L ret io choices
      else do
        -- the loop prints `m_body[0]` to `m_body[m_msg_sz - 1]`
        require .outOfBounds (getMsgSz L io.mem ≤ maxMsgSz)
        writeMessage L ret { io with mem := setMsgType L .TRM io.mem } choices

/-- `handle_request`, where `io.mem` is what its local message lies on. -/
def handleRequestCalls (L : HeaderLayout) (testingMode : Bool) (io : Io) (choices : List IoChoice) :
    Except Fault RequestEnd :=
  afterDrain (drain .read ⟨0, L.size, 1⟩ L.size { io with mem := NwMessage.new L io.mem } choices)
    fun io choices =>
      if getMsgType L io.mem = MsgTypes.TRM.code then
        handleBodyCalls L testingMode (-1) io choices
      else if getMsgType L io.mem = MsgTypes.REG.code then
        handleBodyCalls L testingMode 0 io choices
      else
        .ok (.returned (-1) io)

end Lab1.Nw
