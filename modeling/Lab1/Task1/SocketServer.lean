import Lab1.Task1.Wire

/-!
# The task of a connection

`SocketServer::executeTask` (`task1/src/SocketServer.cpp`) from its first line to its last, with
what becomes of the socket.  The receive loops are those of `Wire.lean`.  What else it calls can
throw: the constructor of `LocalBuffer`, which allocates, the parser, and what is done with the
query, which takes the socket but does not delete it.
-/

namespace Lab1.Task1.SocketServer

open Shr (IoChoice)
open Wire

/-! ### Requests -/

/-- `OTHER` stands for the values that the server does not name. -/
inductive RequestType where
  | QUERY | OTHER
  deriving DecidableEq, Repr

inductive QueryFormat where
  | SQL | OTHER
  deriving DecidableEq, Repr

/-- What the server reads of a request. -/
structure Request where
  type : RequestType
  format : QueryFormat
  sqlquery : List UInt8
  deriving DecidableEq, Repr

/-- What the task calls; `none` is a call that throws nothing. -/
structure Calls where
  /-- the constructor of `LocalBuffer<char>` -/
  allocate : UInt32 → Option Raised
  parseFromArray : List UInt8 → Except Raised (Option Request)
  /-- the copy of the query and the part between `stream handler start` and `stream handler end` -/
  handleStream : List UInt8 → Option Raised
  /-- the system's text for a failed call of `recv` -/
  strerror : String

/-! ### The task -/

/-- How the `try` block is left. -/
inductive TryEnd where
  | fellThrough
  /-- a `return` inside of the block, after a line of output -/
  | returned (line : String)
  | raised (e : Raised)
  /-- a call of `recv` has not returned yet -/
  | waiting
  deriving DecidableEq, Repr

variable (calls : Calls)

/-- A receive loop with what follows it. -/
def afterLoop (run : Except Fault (Driven RecvVars IoChoice RecvEnd))
    (rest : RecvVars → List IoChoice → Except Fault TryEnd) : Except Fault TryEnd :=
  match run with
  | .ok (.finished (.complete v) unused) => rest v unused
  | .ok (.finished (.disconnected _) _) =>
    .ok (.returned "Error - recv failed or connection disconnected")
  | .ok (.finished (.thrown _) _) =>
    .ok (.raised (.exception ("Received failed (recv()): " ++ calls.strerror)))
  | .ok (.waiting _) => .ok .waiting
  | .error f => .error f

/-- The block from `ParseFromArray` on. -/
def handleRequest (bytes : List UInt8) : TryEnd :=
  match calls.parseFromArray bytes with
  | .error e => .raised e
  | .ok none => .returned "Error - protobug parse request failure"
  | .ok (some request) =>
    if request.type ≠ .QUERY then .returned "Error - invalid request type"
    else if request.format ≠ .SQL then .returned "Error - invalid query type"
    else
      match calls.handleStream request.sqlquery with
      | some e => .raised e
      | none => .fellThrough

/-- The `try` block. -/
def tryBlock (fresh : Mem) (input : List UInt8) (choices : List IoChoice) : Except Fault TryEnd :=
  afterLoop calls (recvHeader fresh input choices) fun v choices =>
    let header := convNtohl v.buffer
    match calls.allocate header.packageSize with
    | some e => .ok (.raised e)
    | none =>
      afterLoop calls (recvData header fresh v.input choices) fun v _ =>
        .ok (handleRequest calls (v.buffer.read 0 v.totalRecvied.toNat))

/-- What a call of `executeTask` comes to. -/
structure TaskEnd where
  ended : Bool
  /-- how often `delete xi_socket` was executed -/
  deletes : ℕ
  /-- what it says about a failure -/
  line : Option String
  deriving DecidableEq, Repr

/-- The text of the handlers. -/
def failureLine : Raised → String
  | .exception what => "Server task failed due to: " ++ what
  | .unknown => "Server task failed"

def executeTask (fresh : Mem) (input : List UInt8) (choices : List IoChoice) :
    Except Fault TaskEnd := do
  match ← tryBlock calls fresh input choices with
  | .waiting => return ⟨false, 0, none⟩
  | .returned line => return ⟨true, 0, some line⟩
  -- behind the handlers, as behind the block, the socket is deleted
  | .raised e => return ⟨true, 1, some (failureLine e)⟩
  | .fellThrough => return ⟨true, 1, none⟩

end Lab1.Task1.SocketServer
