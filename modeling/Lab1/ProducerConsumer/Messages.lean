import Lab1.Library.Bytes

/-!
# Messages on a stream socket

`message_types.h` and `serialization_utils.h` of `producer-consumer`.

A message is written and read as the bytes of its object, which has no padding: a 32-bit type, a
32-bit id and 1024 bytes of data, or the 32 bits of an ack.  An `int` is an `Int32`.  The result of
a `read` call is the list of the bytes it has filled in; none at the end of the stream, and none
when it fails.
-/

namespace Lab1.ProducerConsumer

inductive MsgTypes where
  | DATA | CONTROL | ERROR | STOP
  deriving DecidableEq, Repr

/-- The number of an enumerator. -/
def MsgTypes.code : MsgTypes → Int32
  | .DATA => 0
  | .CONTROL => 1
  | .ERROR => 2
  | .STOP => 3

structure ConsumerDataMsg where
  /-- an `enum class` with `int` below it: any number can be read into it -/
  type : Int32 := MsgTypes.DATA.code
  id : Int32 := 0
  data2 : Vector UInt8 1024 := Vector.replicate 1024 0
  deriving DecidableEq

structure ProducerAckMsg where
  lastMsgId : Int32 := 0
  deriving DecidableEq, Repr

/-- `sizeof(ConsumerDataMsg)`. -/
def sizeofConsumerDataMsg : ℕ := 1032

/-- The four bytes of an `int`. -/
def intBytes (i : Int32) : List UInt8 := wordBytes i.toUInt32.toNat

/-- The `int` at offset `a`. -/
def intAt (m : Mem) (a : ℕ) : Int32 := ⟨UInt32.ofNat (m.word a)⟩

namespace ConsumerDataMsg

/-- The bytes that `writeToSocket` writes. -/
def bytes (msg : ConsumerDataMsg) : List UInt8 :=
  intBytes msg.type ++ (intBytes msg.id ++ msg.data2.toList)

/-- The object with the bytes `m`. -/
def ofMem (m : Mem) : ConsumerDataMsg where
  type := intAt m 0
  id := intAt m 4
  data2 := Vector.ofFn fun i => m (8 + i)

end ConsumerDataMsg

/-- `readFromSocket<ConsumerDataMsg>`: the object is zero before `read` fills in its first bytes. -/
def readFromSocket (amount : List UInt8) : ConsumerDataMsg := .ofMem (Mem.ofList amount)

end Lab1.ProducerConsumer
