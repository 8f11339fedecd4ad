import Lab1.MemDb.Queries

/-!
# The loop of the server

`FlowMngr::run` (`mem_db/server/flow/src/flow_manager.cpp`): one message after the other is handed
to the handler for its type, and what the handler returns is not looked at.  The loop has no end but
a failure of `listen2Events`, which is declared and not defined in the repository; here it gives any
message at all.

The catalogues that a message finds are those which the messages before it have left.  What the
memory of the local variables happens to hold is part of a turn.
-/

namespace Lab1.MemDb

/-- A message, and what the memory that its handler takes holds. -/
structure Turn where
  msg : NetworkMsg
  /-- for `handle_create` -/
  mem : Leftover
  /-- for `handle_select` -/
  cols : ℕ → BufferSz
  vals : ℕ → RawVal
  /-- for `handle_insert` -/
  buff : Mem
  colName : Mem

namespace FlowMngr

/-- The members before the first message. -/
def start (alloc : MemAllocator) : FlowMngr := ⟨alloc, none, none, []⟩

def handleUpdate (s : FlowMngr) (_msg : NetworkMsg) : Except Fault (FlowMngr × ℤ) := .ok (s, 0)

/-- The body of the loop, behind `listen2Events`.  The second component is what the handler
returns. -/
def runTurn (tgt : Target) (s : FlowMngr) (turn : Turn) : Except Fault (FlowMngr × ℤ) :=
  match turn.msg.qTyp with
  | .CR => s.handleCreate tgt turn.mem turn.msg
  | .INST => s.handleInsert turn.buff turn.colName turn.msg
  | .UPD => s.handleUpdate turn.msg
  | .SEL => s.handleSelect turn.cols turn.vals turn.msg

end FlowMngr

end Lab1.MemDb
