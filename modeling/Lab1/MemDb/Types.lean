import Lab1.Library.Exec
import Lab1.Library.Bytes

/-!
# Types of the memory data base

`BufferSz`, the column and query types and `NetworkMsg` (`common/shr/types.h`,
`mem_db/common/inc/types.h`).

A C array of bytes is a `Mem` of which only the first bytes, up to the array's length, are ever
used: the functions that index an array check the index with `require .outOfBounds`.
`unsigned int` values are natural numbers, with `u32` where the source computes a new one;
`Target` holds what the source leaves to the compiler.
-/

namespace Lab1.MemDb

/-- The value of a number passed as an `unsigned short`. -/
def u16 (n : ℕ) : ℕ := n % 65536

inductive ColTyp where
  | INT | LONG | LLONG | FLOAT | DOUBLE | VCR
  deriving DecidableEq, Repr

inductive QueryTyp where
  | CR | INST | UPD | SEL
  deriving DecidableEq, Repr

/-- The length of the array `BufferSz::buff`. -/
def bufferCap : ℕ := 1024

structure BufferSz where
  sz : ℕ
  buff : Mem

/-- The bytes in use: the first `sz` of `buff`. -/
def BufferSz.bytes (b : BufferSz) : List UInt8 := b.buff.read 0 b.sz

/-- The `BufferSz` after `memcpy(buff, src, n)` and `sz = n`, where `bs` are the `n` bytes at
`src`. -/
def BufferSz.set (b : BufferSz) (bs : List UInt8) : BufferSz := ⟨bs.length, b.buff.write 0 bs⟩

@[simp] theorem BufferSz.set_sz (b : BufferSz) (bs : List UInt8) : (b.set bs).sz = bs.length := rfl

@[simp] theorem BufferSz.bytes_set (b : BufferSz) (bs : List UInt8) : (b.set bs).bytes = bs :=
  b.buff.read_write 0 bs

@[simp] theorem BufferSz.length_bytes (b : BufferSz) : b.bytes.length = b.sz :=
  b.buff.length_read 0 _

/-- A column value as it is compared: the eight bytes of an `unsigned long long`. -/
abbrev RawVal := Vector UInt8 8

/-- The bytes at offset `a`, read as a `RawVal`. -/
def RawVal.ofMem (m : Mem) (a : ℕ) : RawVal := Vector.ofFn fun i => m (a + i)

theorem RawVal.take_ofMem (m : Mem) (a : ℕ) {n : ℕ} (hn : n ≤ 8) :
    (RawVal.ofMem m a).toList.take n = m.read a n := by
  apply List.ext_getElem
  · simp [hn]
  · intro i _ _
    simp [RawVal.ofMem]

def maxNetMsg : ℕ := 4096

structure NetworkMsg where
  buff : Mem
  layNmSz : UInt32
  paramSz : UInt32
  qTyp : QueryTyp

namespace NetworkMsg

/-- `*(reinterpret_cast<unsigned int*>(buff + pos))`. -/
def readWord (msg : NetworkMsg) (pos : ℕ) : Except Fault ℕ := do
  require .outOfBounds (pos + 4 ≤ maxNetMsg)
  return msg.buff.word pos

/-- The `n` bytes which a `memcpy` or `memcmp` of length `n` reads at `buff + pos`. -/
def readBytes (msg : NetworkMsg) (pos n : ℕ) : Except Fault (List UInt8) := do
  require .outOfBounds (pos + n ≤ maxNetMsg)
  return msg.buff.read pos n

/-- The name of the table the message is about. -/
def layNm (msg : NetworkMsg) : List UInt8 := msg.buff.read 0 msg.layNmSz.toNat

theorem readWord_eq_ok {msg : NetworkMsg} {pos w : ℕ} :
    msg.readWord pos = .ok w ↔ pos + 4 ≤ maxNetMsg ∧ msg.buff.word pos = w := by
  unfold readWord
  by_cases h : pos + 4 ≤ maxNetMsg
  · simp [h, pure, Except.pure]
  · simp [h]

theorem readBytes_eq_ok {msg : NetworkMsg} {pos n : ℕ} {bs : List UInt8} :
    msg.readBytes pos n = .ok bs ↔ pos + n ≤ maxNetMsg ∧ msg.buff.read pos n = bs := by
  unfold readBytes
  by_cases h : pos + n ≤ maxNetMsg
  · simp [h, pure, Except.pure]
  · simp [h]

theorem readBytes_of_le {msg : NetworkMsg} {pos n : ℕ} (h : pos + n ≤ maxNetMsg) :
    msg.readBytes pos n = .ok (msg.buff.read pos n) := readBytes_eq_ok.mpr ⟨h, rfl⟩

end NetworkMsg

/-- What the source leaves to the compiler and the linker: the size of a `long`, and the bytes
that happen to follow a string literal (and its `NUL`) in the program image. -/
structure Target where
  sizeofLong : ℕ
  long_eq : sizeofLong = 4 ∨ sizeofLong = 8
  afterLit : List Char → ℕ → UInt8

/-- Byte `i` behind the start of the string literal `lit`. -/
def Target.litByte (tgt : Target) (lit : List Char) (i : ℕ) : UInt8 :=
  if h : i < lit.length then UInt8.ofNat lit[i].toNat
  else if i = lit.length then 0
  else tgt.afterLit lit (i - lit.length - 1)

end Lab1.MemDb
