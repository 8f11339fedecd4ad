import Lab1.Library.Lifo
import Lab1.MemDb.Types

/-!
# `Stack` and `BitMap`

The two data structures of `mem_db/common/inc/data_structs.h`.

`Stack` is a fixed array with a fill count (called `capacity` in the source).  `BitMap` is one
32-bit word whose bits are numbered from `minBit`; its assertions let bit numbers up to
`maxBit = 0x31` through.  The source shifts a 32-bit `1` by `bitNum - 1`; like the shift
instruction of the machine, `<<<` on `UInt32` takes the count modulo 32.
-/

namespace Lab1.MemDb

def maxObjNum : ℕ := 32

/-- `INV_LOCATION`, that is `(unsigned int)-1`. -/
def invLocation : ℕ := 4294967295

/-! ### `Stack` -/

structure Stack where
  sz : ℕ
  capacity : ℕ
  /-- `pstack[MAX_OBJ_NUM]` -/
  pstack : ℕ → ℕ

namespace Stack

def init (s : Stack) (sz : ℕ) : Except Fault Stack := do
  require .assertFailed (sz ≤ maxObjNum)
  return { s with sz := sz, capacity := 0 }

/-- The second component is the function's result.  (The source also asserts `capacity >= 0`,
which no unsigned number violates.) -/
def push (s : Stack) (slot : ℕ) : Except Fault (Stack × ℕ) := do
  require .assertFailed (s.capacity ≤ s.sz)
  if s.capacity < s.sz then
    require .outOfBounds (s.capacity < maxObjNum)
    return ({ s with
      capacity := s.capacity + 1
      pstack := Function.update s.pstack s.capacity slot }, 0)
  else
    return (s, invLocation)

def pop (s : Stack) : Except Fault (Stack × ℕ) := do
  require .assertFailed (s.capacity ≤ s.sz)
  if 0 < s.capacity then
    require .outOfBounds (s.capacity - 1 < maxObjNum)
    return ({ s with capacity := s.capacity - 1 }, s.pstack (s.capacity - 1))
  else
    return (s, invLocation)

def getSz (s : Stack) : ℕ := s.sz

def getCapacity (s : Stack) : ℕ := s.capacity

def clear (s : Stack) : Stack := { s with capacity := 0 }

/-- A call of `push`, `pop` or `clear`, and what it returns, if anything. -/
def call (s : Stack) : Lifo.Call ℕ → Except Fault (Stack × Option ℕ)
  | .push slot => do
    let (s, r) ← s.push slot
    return (s, some r)
  | .pop => do
    let (s, r) ← s.pop
    return (s, some r)
  | .clear => .ok (s.clear, none)

/-- The index at which the call accesses `pstack`. -/
def accessed (s : Stack) : Lifo.Call ℕ → Option ℕ
  | .push _ => if s.capacity < s.sz then some s.capacity else none
  | .pop => if 0 < s.capacity then some (s.capacity - 1) else none
  | .clear => none

/-- The values on the stack, bottom first. -/
def held (s : Stack) : List ℕ := (List.range s.capacity).map s.pstack

end Stack

/-! ### `BitMap` -/

def minBit : ℕ := 0x1

def maxBit : ℕ := 0x31

structure BitMap where
  bits : UInt32

namespace BitMap

def init : BitMap := ⟨0⟩

/-- `1 << (bitNum-1)`. -/
def mask (bitNum : UInt32) : UInt32 := 1 <<< (bitNum - 1)

def bitOn (b : BitMap) (bitNum : UInt32) : Except Fault BitMap := do
  require .assertFailed (minBit ≤ bitNum.toNat ∧ bitNum.toNat ≤ maxBit)
  return ⟨b.bits ||| mask bitNum⟩

def bitOff (b : BitMap) (bitNum : UInt32) : Except Fault BitMap := do
  require .assertFailed (minBit ≤ bitNum.toNat ∧ bitNum.toNat ≤ maxBit)
  return ⟨b.bits &&& ~~~mask bitNum⟩

/-- The test of `isOn` without its assertion. -/
def bit (b : BitMap) (bitNum : UInt32) : Bool := b.bits &&& mask bitNum != 0

def isOn (b : BitMap) (bitNum : UInt32) : Except Fault Bool := do
  require .assertFailed (minBit ≤ bitNum.toNat ∧ bitNum.toNat ≤ maxBit)
  return b.bit bitNum

/-- A bit number that the assertions admit. -/
structure Num where
  toUInt32 : UInt32
  admitted : minBit ≤ toUInt32.toNat ∧ toUInt32.toNat ≤ maxBit
  deriving DecidableEq

/-- A call that changes the map. -/
inductive Call where
  | bitOn (k : Num)
  | bitOff (k : Num)
  | init
  deriving DecidableEq

def call (b : BitMap) : Call → Except Fault (BitMap × Unit)
  | .bitOn k => do
    let b ← b.bitOn k.toUInt32
    return (b, ())
  | .bitOff k => do
    let b ← b.bitOff k.toUInt32
    return (b, ())
  | .init => .ok (BitMap.init, ())

end BitMap

end Lab1.MemDb
