import Lab1.Library.Exec
import Mathlib.Logic.Function.Basic

/-!
# The ids of messages

`getNxtMsgId` of `ClientImpl` (`common/ut/inc/nwUT.h`), which is to give out the ids of messages
atomically.  The counter, which is defined as a static member, is shared by the threads that call
it, as many as there are, and the loop takes two accesses to it in each turn: the read, and
`__sync_val_compare_and_swap`.
-/

namespace Lab1.Nw

/-- The local variables of a call, and whether the swap is the next access. -/
structure MsgIdCall where
  newId : UInt32
  oldId : UInt32
  swaps : Bool
  deriving DecidableEq, Repr

/-- `unsigned int newId=0, oldId = 0;` -/
def MsgIdCall.start : MsgIdCall := ⟨0, 0, false⟩

/-- The counter and the calls that threads are in.  A thread that is in none has the variables of
its next one. -/
structure MsgIds (ι : Type*) where
  m_msgId : UInt32
  calls : ι → MsgIdCall

inductive MsgIdAccess (ι : Type*) where
  | read (i : ι)
  | compareAndSwap (i : ι)

/-- What an access leads to. -/
inductive MsgIdResult (ι : Type*) where
  | goesOn
  /-- the loop takes another turn -/
  | again (i : ι)
  | returned (i : ι) (newId : UInt32)
  deriving DecidableEq, Repr

inductive NotNext where
  | notNext
  deriving DecidableEq, Repr

namespace MsgIds

variable {ι : Type*} [DecidableEq ι]

/-- `newId = oldId = m_msgId; newId += 1;` -/
def read (s : MsgIds ι) (i : ι) : Except NotNext (MsgIds ι × MsgIdResult ι) :=
  if (s.calls i).swaps then .error .notNext
  else
    let oldId := s.m_msgId
    let newId := oldId
    let newId := newId + 1
    .ok ({ s with calls := Function.update s.calls i ⟨newId, oldId, true⟩ }, .goesOn)

/-- `while(oldId != __sync_val_compare_and_swap(&m_msgId, oldId, newId))`, and the `return` behind
it. -/
def compareAndSwap (s : MsgIds ι) (i : ι) : Except NotNext (MsgIds ι × MsgIdResult ι) :=
  let call := s.calls i
  if call.swaps = false then .error .notNext
  else
    -- the value before the swap comes back, whether it was made or not
    let found := s.m_msgId
    let m_msgId := if found = call.oldId then call.newId else found
    if call.oldId ≠ found then
      .ok (⟨m_msgId, Function.update s.calls i { call with swaps := false }⟩, .again i)
    else .ok (⟨m_msgId, Function.update s.calls i .start⟩, .returned i call.newId)

def access (s : MsgIds ι) : MsgIdAccess ι → Except NotNext (MsgIds ι × MsgIdResult ι)
  | .read i => s.read i
  | .compareAndSwap i => s.compareAndSwap i

/-- Nobody is in a call, and no id has been given out. -/
def start : MsgIds ι := ⟨0, fun _ => .start⟩

end MsgIds

end Lab1.Nw
