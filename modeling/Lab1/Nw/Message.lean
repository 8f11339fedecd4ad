import Lab1.Library.Bytes
import Lab1.Library.Exec

/-!
# Network messages

`header` and `nw_message` (`common/nw/inc/nw_message.h`).  A message is written to a socket, and
read from it, as the bytes of the object, so the model of a message is those bytes: the header and
behind it the `MAX_MSG_SZ` bytes of the body.  Where the fields stand inside the header is up to the
compiler, which also puts a pointer to the virtual functions there; `HeaderLayout` says what the
code relies on.
-/

namespace Lab1.Nw

/-- `MAX_MSG_SZ` -/
def maxMsgSz : ℕ := 1024

/-- `AcceptorBaseMessages::tMsgTypes` -/
inductive MsgTypes where
  | REG | TRM | INV
  deriving DecidableEq, Repr

/-- The value of the enumerator. -/
def MsgTypes.code : MsgTypes → ℕ
  | REG => 0
  | TRM => 1
  | INV => 2

theorem MsgTypes.code_lt (t : MsgTypes) : t.code < 4294967296 := by
  cases t <;> decide

/-! ### The header -/

/-- The size of the header and the places of `m_msg_type` and `m_msg_sz` in it. -/
structure HeaderLayout where
  size : ℕ
  typeOff : ℕ
  szOff : ℕ
  type_in : typeOff + 4 ≤ size
  sz_in : szOff + 4 ≤ size
  apart : typeOff + 4 ≤ szOff ∨ szOff + 4 ≤ typeOff
  /-- the size is a positive `int` -/
  size_lt : size < 2147483648

/-- The layout on 64-bit Linux: the table pointer, then the two fields. -/
def HeaderLayout.lp64 : HeaderLayout := ⟨16, 8, 12, by decide, by decide, by decide, by decide⟩

/-- The same when `__TESTING_MODE` adds `m_msgSeq`, with the padding behind it. -/
def HeaderLayout.lp64Testing : HeaderLayout :=
  ⟨24, 8, 12, by decide, by decide, by decide, by decide⟩

/-- The bytes of a message object. -/
abbrev NwMessage := Mem

namespace NwMessage

variable (L : HeaderLayout)

def getMsgType (m : NwMessage) : ℕ := m.word L.typeOff

def setMsgType (t : MsgTypes) (m : NwMessage) : NwMessage := m.write L.typeOff (wordBytes t.code)

def getMsgSz (m : NwMessage) : ℕ := m.word L.szOff

def setMsgSz (sz : ℕ) (m : NwMessage) : NwMessage := m.write L.szOff (wordBytes sz)

/-! ### The message -/

/-- `sizeof(nw_message)` -/
def sizeofNwMessage : ℕ := L.size + maxMsgSz

/-- The default constructor, on the bytes `mem`: the header's constructor sets its two fields, the
body stays as it is. -/
def new (mem : Mem) : NwMessage := setMsgType L .INV (setMsgSz L 0 mem)

/-- `init`: `i_len` is used for the copy only, `m_msg_sz` is not touched. -/
def init (m : NwMessage) (iPMsg : List UInt8) (iLen : ℕ) (iType : MsgTypes) :
    Except Fault NwMessage := do
  require .outOfBounds (iLen ≤ iPMsg.length)
  require .outOfBounds (iLen ≤ maxMsgSz)
  return setMsgType L iType (m.write L.size (iPMsg.take iLen))

/-- What a write of `sizeof(nw_message)` bytes puts on the socket. -/
def bytes (m : NwMessage) : List UInt8 := m.read 0 (sizeofNwMessage L)

end NwMessage

end Lab1.Nw
