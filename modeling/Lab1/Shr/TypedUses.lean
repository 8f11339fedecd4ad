import Lab1.Nw.Message
import Lab1.Shr.Macros

/-!
# Drains of objects

The places where the drain macros are given a pointer that is not a pointer to `char`: the message
object in `ClientImpl::run` (`common/ut/inc/nwUT.h`), and the segment id in the constructor of
`mem_allocator` (`mem_db/common/src/shm_handler.cpp`).
-/

namespace Lab1.Shr

open Nw

/-- `sizeof(int)` -/
def sizeofInt : ℕ := 4

inductive TypedUse where
  /-- `__WRITE_FD_DRAIN(&m_msg, m_socket_fd, sizeof(nw::nw_message<HDR>))` -/
  | writeMsg (L : HeaderLayout)
  /-- `__READ_FD_DRAIN(&m_msg, m_socket_fd, sizeof(nw::nw_message<HDR>))` -/
  | readMsg (L : HeaderLayout)
  /-- `__WRITE_FD_DRAIN(&m_id, fd, sizeof(int))`; as its file is opened without write access, the
  first call fails -/
  | writeId

namespace TypedUse

def act : TypedUse → Act
  | writeMsg _ => .write
  | readMsg _ => .read
  | writeId => .write

/-- The size of the object, which is also the number of bytes to be moved. -/
def size : TypedUse → ℕ
  | writeMsg L => NwMessage.sizeofNwMessage L
  | readMsg L => NwMessage.sizeofNwMessage L
  | writeId => sizeofInt

/-- The pointer is one to the object, so that `BUFF+tot_tmp` counts in objects. -/
def drain (use : TypedUse) (io : Io) (choices : List IoChoice) :
    Except Fault (Driven DrainVars IoChoice DrainVars) :=
  Shr.drain use.act ⟨0, use.size, use.size⟩ use.size io choices

end TypedUse

end Lab1.Shr
