import Lab1.Task1.SocketServer

/-!
# A query, from the client to the server and back

`SocketClient::sendQuery` (`task1/src/SocketClient.cpp`) as a whole: the request goes out, the
server's task receives it, executes the query and sends its answer in packages
(`SocketServer::executeTask` with `BulkDataOutStreamMngr::handleProtoBuffSend`), and what comes back
is received and consumed.  The client calls `handleProtoBuffSend` of its in-stream manager, which
has no other method than `handleProtoBuffRecv`, so that one is meant.

Messages are turned into bytes and back by a library that is not part of the repository, and so is
the database: a `Session` has them as functions.  `Network` says what the calls of `send` and `recv`
do on both sides.
-/

namespace Lab1.Task1

open Shr (IoChoice)
open Wire

/-- What client and server call.  `T` is the type of durations. -/
structure Session (T : Type) where
  serializeRequest : SocketServer.Request → Serialized
  parseRequest : List UInt8 → Option SocketServer.Request
  serializeRespond : Respond T → Serialized
  parseRespond : List UInt8 → Option (Respond T)
  executeQuery : List UInt8 → QueryOutcome T
  dflt : Defaults

/-- What the calls of `send` and `recv` do, and what fresh memory holds. -/
structure Network where
  clientSend : ℕ → IoChoice
  serverRecv : List IoChoice
  /-- the calls for each of the packages -/
  serverSend : ℕ → ℕ → IoChoice
  clientRecv : List IoChoice
  fresh : Mem

namespace SocketServer

variable {T : Type} [Add T]

/-- The calls of `sendBulk` of an answer: what is on the wire in the end.  The `SocketException` is
one of the exceptions that `handleProtoBuffSend` catches, and nothing is sent after it. -/
def sendBulks (s : Session T) (fresh : Mem) :
    (ℕ → ℕ → IoChoice) → List (Package T) → Except Fault (List UInt8)
  | _, [] => .ok []
  | choice, p :: ps => do
    match ← sendBulk fresh (s.serializeRespond p.msg) p.flags (choice 0) with
    | .inl output => return output
    | .inr v => do
      let rest ← sendBulks s fresh (fun i => choice (i + 1)) ps
      return v.output ++ rest

/-- The part of the task from the type of the request on. -/
def answerRequest (s : Session T) (net : Network) (request : Request) :
    Except Fault (List UInt8) := do
  if request.type ≠ .QUERY then
    -- `Error - invalid request type`
    return []
  if request.format ≠ .SQL then
    -- `Error - invalid query type`
    return []
  let answer ← BulkDataOutStreamMngr.handleProtoBuffSend (s.executeQuery request.sqlquery)
  sendBulks s net.fresh net.serverSend answer.sent

/-- `SocketServer::executeTask`, for what the client has put on the wire: what the server puts
there. -/
def serve (s : Session T) (net : Network) (input : List UInt8) : Except Fault (List UInt8) := do
  let r ← Wire.executeTask s.parseRequest net.fresh input net.serverRecv
  match r.messages.head? with
  | none => return []
  | some request => answerRequest s net request

end SocketServer

/-- What the user gets to see of a query, and why receiving the answer ended; it does not begin when
the request cannot be sent. -/
structure Display (T : Type) where
  out : List (Out T)
  stop : Option RecvStop

namespace SocketClient

variable {T : Type} [Add T]

/-- The request of `sendQuery`. -/
def request (sqlQuery : List UInt8) : SocketServer.Request := ⟨.QUERY, .SQL, sqlQuery⟩

/-- The part of `sendQuery` behind `recv answer`. -/
def recvAnswer (s : Session T) (net : Network) (input : List UInt8) :
    Except Fault (Display T) := do
  let r ← Wire.handleProtoBuffRecv s.parseRespond net.fresh input net.clientRecv
  let outs ← r.messages.mapM (consume s.dflt)
  return ⟨outs.flatten, some r.stop⟩

/-- `SocketClient::sendQuery` -/
def sendQuery (s : Session T) (net : Network) (sqlQuery : List UInt8) :
    Except Fault (Display T) := do
  match ← Wire.sendQuery net.fresh (s.serializeRequest (request sqlQuery)) net.clientSend with
  | .inl _ => return ⟨[], none⟩
  | .inr v =>
    let answer ← SocketServer.serve s net v.output
    recvAnswer s net answer

end SocketClient

end Lab1.Task1
