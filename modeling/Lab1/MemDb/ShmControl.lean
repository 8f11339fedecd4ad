import Lab1.Library.While
import Lab1.MemDb.ShmHandler

/-!
# The control tool of the shared memory

`handle_delete`, `handle_delete_by_seg` and `get_num_of_seg` (`mem_db/utils/src/shm_control.cpp`).
The tool takes the number at the start of segment 1 for the number of segments.

The system calls are a parameter, with a state `ω` of the system.  They return a negative number
where they fail.

The code wraps `__SYS_CALL_TEST_RETURN` around each of them, which is not defined in the repository.
It is taken to do what `__SYS_CALL_TEST_NM1_RETURN` of `common/shr/macros.h` does: to return `-1`
from the function when its argument is negative.
-/

namespace Lab1.MemDb

/-- The system calls on segments. -/
structure ShmCalls (ω : Type*) where
  /-- the id of the segment with a key -/
  shmget : ω → ℕ → ω × ℤ
  /-- the address at which the segment is attached -/
  shmat : ω → ℤ → ω × ℤ
  /-- `shmctl` with `IPC_RMID` -/
  shmctl : ω → ℤ → ω × ℤ
  shmdt : ω → ℤ → ω × ℤ

/-- `s_num_of_seg` after the call, where `shm` is segment 1. -/
def getNumOfSeg (shm : Mem) : ℕ := shm.word 0

section Delete

variable {ω : Type*} (sys : ShmCalls ω)

def handleDeleteBySeg (w : ω) (iOpt : ℕ) : ω × ℤ :=
  let (w, id) := sys.shmget w iOpt
  if id < 0 then (w, -1) else
  let (w, pshm) := sys.shmat w id
  if pshm < 0 then (w, -1) else
  let (w, ret) := sys.shmctl w id
  if ret < 0 then (w, -1) else
  let (w, ret) := sys.shmdt w pshm
  if ret < 0 then (w, -1) else (w, 0)

/-- The variables of `handle_delete`. -/
structure DeleteVars (ω : Type*) where
  world : ω
  /-- an `unsigned short` -/
  i : UInt16
  /-- the segments for which `handle_delete_by_seg` was called -/
  visited : List ℕ

def deleteTurn (v : DeleteVars ω) : Except Fault ((ℤ × DeleteVars ω) ⊕ DeleteVars ω) :=
  let (w, ret) := handleDeleteBySeg sys v.world v.i.toNat
  let visited := v.visited ++ [v.i.toNat]
  if ret ≠ 0 then .ok (.inl (ret, ⟨w, v.i, visited⟩))
  else .ok (.inr ⟨w, v.i + 1, visited⟩)

/-- `1+s_num_of_seg` is computed in 32 bits. -/
def deleteCond (numOfSeg : ℕ) (v : DeleteVars ω) : Bool := v.i.toNat ≤ u32 (1 + numOfSeg)

def handleDelete (numOfSeg : ℕ) (w : ω) (fuel : ℕ) : Except Fault (ℤ × DeleteVars ω) := do
  match ← whileLoop (deleteCond numOfSeg) (deleteTurn sys) fuel ⟨w, 1, []⟩ with
  | .inl r => return r
  | .inr v => return (0, v)

end Delete

end Lab1.MemDb
