import Lab1.Library.Exec

/-!
# The listening loop

`SocketServer::Listen` and `executeThread` (`task1/src/SocketServer.cpp`).  The loop accepts a
connection, stores the server and the socket in a `ThreadParams_St`, and begins a thread that gets a
pointer to it.  The structure is a local variable of the loop: it lies at the same place in every
turn, and is gone when an exception leaves the loop.

`xThread` is not part of the repository; a thread that has begun runs at some time later on.  `κ`
are the sockets.
-/

namespace Lab1.Task1.SocketServer

variable {κ : Type*}

/-- The members of `ThreadParams_St` that have been stored; the server is always the same. -/
structure ThreadParams (κ : Type*) where
  socketServerObj : Bool
  sock : Option κ

/-- What the loop does next. -/
inductive ListenPc (κ : Type*) where
  /-- `servSock.accept()` -/
  | accepting
  /-- `threadParams.socketServerObj = this` -/
  | accepted (clntSock : κ)
  /-- `threadParams.sock = clntSock` -/
  | serverStored (clntSock : κ)
  /-- `xThread::Begin` -/
  | sockStored
  /-- nothing: an exception has left the loop -/
  | left

structure Listening (κ : Type*) where
  pc : ListenPc κ
  threadParams : ThreadParams κ
  /-- the threads that have begun, and the sockets that they call `executeTask` with -/
  tasks : List (Option κ)

namespace Listening

inductive Event (κ : Type*) where
  | accept (clntSock : κ)
  | acceptThrows
  | storeServer
  | storeSock
  | begin
  | executeThread (i : ℕ)

inductive NotNow where
  /-- something else comes before -/
  | blocked
  /-- the thread reads a variable that no longer exists -/
  | dangling
  deriving DecidableEq, Repr

def start : Listening κ := ⟨.accepting, ⟨false, none⟩, []⟩

/-- `executeThread`, up to the call of `executeTask`. -/
def executeThread (s : Listening κ) (i : ℕ) : Except NotNow (Listening κ) :=
  match s.tasks[i]?, s.pc with
  | some none, .left => .error .dangling
  | some none, _ => .ok { s with tasks := s.tasks.set i s.threadParams.sock }
  | _, _ => .error .blocked

def step (s : Listening κ) : Event κ → Except NotNow (Listening κ × Unit)
  | .accept clntSock =>
    match s.pc with
    | .accepting => .ok ({ s with pc := .accepted clntSock }, ())
    | _ => .error .blocked
  | .acceptThrows =>
    match s.pc with
    | .accepting => .ok ({ s with pc := .left }, ())
    | _ => .error .blocked
  | .storeServer =>
    match s.pc with
    | .accepted clntSock =>
      .ok ({ s with
        pc := .serverStored clntSock
        threadParams := { s.threadParams with socketServerObj := true } }, ())
    | _ => .error .blocked
  | .storeSock =>
    match s.pc with
    | .serverStored clntSock =>
      .ok ({ s with
        pc := .sockStored
        threadParams := { s.threadParams with sock := some clntSock } }, ())
    | _ => .error .blocked
  | .begin =>
    match s.pc with
    | .sockStored => .ok ({ s with pc := .accepting, tasks := s.tasks ++ [none] }, ())
    | _ => .error .blocked
  | .executeThread i => do
    let s ← s.executeThread i
    return (s, ())

end Listening

end Lab1.Task1.SocketServer
