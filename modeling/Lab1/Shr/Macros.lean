import Lab1.Library.Bytes
import Lab1.Library.Driven

/-!
# The drain macros

`__READ_FD_DRAIN` and `__WRITE_FD_DRAIN` (`common/shr/macros.h`).  They call `read` or `write` until
the bytes asked for are moved or a call moves nothing; where a call fails they end the process.

How many bytes a call moves, up to the number asked for and to what there is to be read, is up to
the system.
-/

namespace Lab1.Shr

/-- What the system makes of a call of `read` or `write`. -/
inductive IoChoice where
  /-- the call returns `-1` -/
  | fail
  /-- the call moves at most `k` bytes -/
  | upTo (k : ℕ)
  deriving DecidableEq, Repr

/-- The memory and the two directions of the file descriptor. -/
structure Io where
  mem : Mem
  /-- what is still to be read -/
  input : List UInt8
  /-- what was written -/
  output : List UInt8

/-- `BUFF`: the object that it points to, and the size of what the type of the pointer says it
points to. -/
structure Buff where
  start : ℕ
  size : ℕ
  elem : ℕ

/-- `ACT` -/
inductive Act where
  | read | write
  deriving DecidableEq, Repr

/-- `ACT(FD, addr, n)`: what was moved lies in the object. -/
def Act.call (buff : Buff) (io : Io) (addr n : ℕ) : Act → IoChoice → Except Fault (Io × ℤ)
  | _, .fail => .ok (io, -1)
  | .read, .upTo k => do
    let ret := min k (min n io.input.length)
    require .outOfBounds (buff.start ≤ addr ∧ addr + ret ≤ buff.start + buff.size)
    let mem := io.mem.write addr (io.input.take ret)
    return ({ io with mem, input := io.input.drop ret }, ret)
  | .write, .upTo k => do
    let ret := min k n
    require .outOfBounds (buff.start ≤ addr ∧ addr + ret ≤ buff.start + buff.size)
    return ({ io with output := io.output ++ io.mem.read addr ret }, ret)

/-! ### `__DRAIN_LOOP` -/

/-- `__DRAIN_VARS`, and what the loop works on. -/
structure DrainVars where
  tmp : ℤ
  totTmp : ℤ
  io : Io
  /-- what the calls have returned so far -/
  results : List ℤ

/-- The first part of the condition, `(tot_tmp+=tmp)<len`. -/
def drainNext (len : ℤ) (v : DrainVars) : DrainVars ⊕ DrainVars :=
  let v := { v with totTmp := v.totTmp + v.tmp }
  if v.totTmp < len then .inr v else .inl v

/-- The second part, `0<(tmp=ACT(FD, BUFF+tot_tmp, len - tot_tmp))`. -/
def drainCall (act : Act) (buff : Buff) (len : ℤ) (v : DrainVars) (choice : IoChoice) :
    Except Fault (DrainVars ⊕ DrainVars) := do
  let addr := buff.start + v.totTmp.toNat * buff.elem
  let (io, tmp) ← act.call buff v.io addr (len - v.totTmp).toNat choice
  let v := { v with tmp, io, results := v.results ++ [tmp] }
  return if 0 < tmp then .inr v else .inl v

def drain (act : Act) (buff : Buff) (len : ℤ) (io : Io) (choices : List IoChoice) :
    Except Fault (Driven DrainVars IoChoice DrainVars) :=
  drive (drainNext len) (drainCall act buff len) choices ⟨0, 0, io, []⟩

/-- What follows the loop: `if(0 > tmp) { perror(..); exit(3);}` -/
def DrainVars.exitCode (v : DrainVars) : Option ℤ := if v.tmp < 0 then some 3 else none

end Lab1.Shr
