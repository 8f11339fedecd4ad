import Lab1.MemDb.ShmControl
import Mathlib.Logic.Function.Basic

/-!
# The loop of the control tool

`run_user_loop` and `handle_opt` (`mem_db/utils/src/shm_control.cpp`), with the options that are not
in `ShmControl`.  What is printed is left out.

The tool runs on the segments of a system, and no other process touches them meanwhile.  As in
`ShmControl`, the macro `__SYS_CALL_TEST_RETURN` is taken to return `-1` when its argument is
negative.
-/

namespace Lab1.MemDb

/-! ### The segments -/

/-- The segments, as a process sees them.  The id of a segment is its key. -/
structure Segments where
  /-- the bytes of the segment with a key; a segment that is marked for destruction has no key -/
  segs : ℕ → Option Mem
  /-- what the process has attached, in order; `none` where it was detached again -/
  attached : List (Option Mem)

namespace Segments

/-- Where the next segment is attached. -/
def nextAddr (w : Segments) : ℕ := mega * (w.attached.length + 1)

def placeOf (addr : ℤ) : ℕ := addr.toNat / mega - 1

/-- What stands at an address that `shmat` has returned. -/
def bytesAt (w : Segments) (addr : ℤ) : Option Mem := w.attached[placeOf addr]?.join

/-- Without `IPC_CREAT`.  The key 0 is `IPC_PRIVATE`: it asks for a new segment, and there is none
of size 0. -/
def shmget (w : Segments) (key : ℕ) : Segments × ℤ :=
  if key ≠ 0 ∧ (w.segs key).isSome then (w, key) else (w, -1)

def shmat (w : Segments) (id : ℤ) : Segments × ℤ :=
  match w.segs id.toNat with
  | some bytes => ({ w with attached := w.attached ++ [some bytes] }, w.nextAddr)
  | none => (w, -1)

/-- `IPC_RMID`: the segment has no key any more; where it is attached, it stays. -/
def shmctl (w : Segments) (id : ℤ) : Segments × ℤ :=
  match w.segs id.toNat with
  | some _ => ({ w with segs := Function.update w.segs id.toNat none }, 0)
  | none => (w, -1)

def shmdt (w : Segments) (addr : ℤ) : Segments × ℤ :=
  match w.bytesAt addr with
  | some _ => ({ w with attached := w.attached.set (placeOf addr) none }, 0)
  | none => (w, -1)

def calls : ShmCalls Segments := ⟨shmget, shmat, shmctl, shmdt⟩

end Segments

/-! ### The input -/

/-- What stands on the standard input: a number, or something else. -/
inductive Token where
  | number (n : ℤ)
  | junk
  deriving DecidableEq, Repr

inductive Scanned where
  /-- `scanf` returns `EOF` -/
  | eof
  /-- `scanf` returns `0`; what is not a number stays where it is -/
  | nothing
  | number (n : ℕ) (rest : List Token)
  deriving DecidableEq, Repr

/-- `scanf` with `%hu` or `%u`, for an unsigned type of `bits` bits. -/
def scanf (bits : ℕ) : List Token → Scanned
  | [] => .eof
  | .junk :: _ => .nothing
  | .number n :: rest => .number (n % 2 ^ bits).toNat rest

/-! ### The options -/

structure Tool where
  world : Segments
  input : List Token
  /-- `s_num_of_seg` -/
  numOfSeg : ℕ
  /-- the `opt` of `run_user_loop`, an `unsigned short` -/
  opt : ℕ

namespace Tool

/-- `get_num_of_seg`, with the system calls. -/
def getNumOfSeg (t : Tool) : Except Fault (Tool × ℤ) :=
  let (w, id) := t.world.shmget 1
  if id < 0 then .ok ({ t with world := w }, -1) else
  let (w, pshm) := w.shmat id
  if pshm < 0 then .ok ({ t with world := w }, -1) else
  match w.bytesAt pshm with
  | some bytes => .ok ({ t with world := w, numOfSeg := MemDb.getNumOfSeg bytes }, 0)
  | none => .error .outOfBounds

/-- The variables of `handle_disply`. -/
structure DisplayVars where
  world : Segments
  /-- an `unsigned short` -/
  i : UInt16

/-- `getSz` and `getActSz` look for a header before the address that they are given. -/
def displayTurn (v : DisplayVars) : Except Fault ((Segments × ℤ) ⊕ DisplayVars) :=
  let (w, id) := v.world.shmget v.i.toNat
  if id < 0 then .ok (.inl (w, -1)) else
  let (w, pshm) := w.shmat id
  if pshm < 0 then .ok (.inl (w, -1)) else
  match w.bytesAt pshm with
  | some bytes => do
    let shm : Arena := ⟨⟨id, pshm.toNat, ⟨0, 0, 0, 0⟩⟩, bytes, true, false⟩
    let _sz ← shm.getSz pshm.toNat
    let _act ← shm.getActSz pshm.toNat
    return .inr ⟨w, v.i + 1⟩
  | none => .error .outOfBounds

/-- `2+s_num_of_seg` is computed in 32 bits. -/
def displayCond (numOfSeg : ℕ) (v : DisplayVars) : Bool := v.i.toNat < u32 (2 + numOfSeg)

def handleDisply (t : Tool) (fuel : ℕ) : Except Fault (Tool × ℤ) := do
  match ← whileLoop (displayCond t.numOfSeg) displayTurn fuel ⟨t.world, 2⟩ with
  | .inl (w, ret) => return ({ t with world := w }, ret)
  | .inr v => return ({ t with world := v.world }, 0)

/-- `handle_opt`, where `mem` is what its own `opt` lies on. -/
def handleOpt (t : Tool) (mem fuel : ℕ) : Except Fault (Tool × ℤ) :=
  match t.opt with
  | 1 => t.handleDisply fuel
  | 2 => do
    let (ret, v) ← handleDelete Segments.calls t.numOfSeg t.world fuel
    return ({ t with world := v.world }, ret)
  | 3 =>
    match scanf 32 t.input with
    | .nothing => .ok (t, 0)
    | .number n rest =>
      let (w, ret) := handleDeleteBySeg Segments.calls t.world n
      .ok ({ t with world := w, input := rest }, ret)
    | .eof =>
      -- nothing was stored in `opt`
      let (w, ret) := handleDeleteBySeg Segments.calls t.world mem
      .ok ({ t with world := w }, ret)
  | 4 => t.getNumOfSeg
  | _ => .ok (t, 0)

/-! ### The loop -/

/-- The rest of the condition of the `do` loop, once `scanf` has not returned `0`. -/
def afterScanf (t : Tool) (mem fuel : ℕ) : Except Fault (Tool ⊕ Tool) :=
  if t.opt = 0 then .ok (.inl t) else do
    let (t, ret) ← t.handleOpt mem fuel
    if ret = -1 then return .inl t else return .inr t

/-- A turn of the `do` loop; at the end of the input `opt` stays as it is. -/
def turn (mem fuel : ℕ) (t : Tool) : Except Fault (Tool ⊕ Tool) :=
  match scanf 16 t.input with
  | .eof => t.afterScanf mem fuel
  | .nothing => .ok (.inl t)
  | .number n rest => { t with input := rest, opt := n }.afterScanf mem fuel

/-- `run_user_loop`.  What `get_num_of_seg` returns is not looked at. -/
def runUserLoop (mem fuel : ℕ) (t : Tool) : Except Fault (Tool ⊕ Tool) := do
  let (t, _) ← t.getNumOfSeg
  whileLoop (fun _ => true) (turn mem fuel) fuel t

/-- The tool at its start, with what is typed. -/
def start (w : Segments) (input : List Token) : Tool := ⟨w, input, 0, 0⟩

end Tool

end Lab1.MemDb
