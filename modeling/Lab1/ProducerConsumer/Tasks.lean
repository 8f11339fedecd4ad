import Lab1.Library.Exec
import Lab1.ProducerConsumer.Messages

/-!
# The producer and the consumer

The loops of `ProducerTask` and `ConsumerTask` (`producer-consumer/producer_task.cpp`,
`producer-consumer/consumer_task.cpp`).

`handleNewConnection` is the consumer's loop over one connection, on the results of its `read`
calls.  The rest of the module is the system of both tasks, where every `read` and `write` that
succeeds transfers a whole message: a `State`, and what each system call of the two loops does to
it.  The consumer may die and start again at any time.  Its death closes its end of the connection,
and with it go the messages that it has not read; what it has written can still be read.

The producer gives up its socket only while no consumer listens, so there is one connection at a
time.
-/

namespace Lab1.ProducerConsumer

/-! ### One connection -/

/-- The messages handled on a connection, and the results of `read` that are left from the one on
with which the producer is taken to be gone: none at the end of the stream, where `read` returns
zero and so the id is zero. -/
def handleNewConnection : List (List UInt8) → List ConsumerDataMsg × List (List UInt8)
  | [] => ([], [])
  | amount :: reads =>
    let msg := readFromSocket amount
    if msg.id = 0 then ([], amount :: reads)
    else
      let (handled, left) := handleNewConnection reads
      (msg :: handled, left)

/-! ### The two tasks -/

/-- The socket pair of a connection. -/
structure Conn where
  toConsumer : List ConsumerDataMsg
  toProducer : List ProducerAckMsg
  /-- the consumer's end is open; before `accept` it waits in the queue of the listening socket -/
  peerOpen : Bool

/-- Where `startProducing` is. -/
inductive ProducerPc where
  /-- in `handleConnect` -/
  | connecting
  /-- before `sendMsgToConsumer` -/
  | sending
  /-- before the `read` of `getConsumerAck` -/
  | awaiting
  /-- killed by a `write` on a closed connection -/
  | killed
  deriving DecidableEq, Repr

/-- Where `handleEvents` is. -/
inductive Consumer where
  /-- no process, or no listening socket yet -/
  | down
  /-- before `accept` -/
  | accepting
  /-- before `readConsumerMsg` -/
  | reading
  /-- `msg` is read and not handled -/
  | received (msg : ConsumerDataMsg)
  /-- before `sendAck` -/
  | acking (msg : ConsumerDataMsg)
  deriving DecidableEq

structure State where
  pc : ProducerPc
  msgIndex : ℕ
  /-- what `m_listfd` is connected to -/
  conn : Option Conn
  consumer : Consumer

/-- A system call of one of the loops, or what happens to the consumer's process. -/
inductive Action where
  | connect
  | send
  /-- the `write` of a message that raises `SIGPIPE` -/
  | sigpipe
  | getAck
  | accept
  | readMsg
  | handleMsg
  | sendAck
  | die
  | restart
  deriving DecidableEq, Repr

/-- What a run is about. -/
inductive Event where
  /-- the producer has read `ack` and goes on from the id `n` to the next -/
  | moved (n : ℕ) (ack : ProducerAckMsg)
  | handled (msg : ConsumerDataMsg)

/-- The action cannot be taken now: another call comes first, or this one blocks. -/
inductive Blocked where
  | blocked
  deriving DecidableEq, Repr

/-- The producer's message with the id `n`. -/
def dataMsg (n : ℕ) : ConsumerDataMsg := { id := Int32.ofNat n }

def intMax : ℕ := 2147483647

namespace State

/-- The state of both tasks when they start. -/
def start : State := ⟨.connecting, 1, none, .down⟩

/-- A turn of the loop in `handleConnect`.  A socket that is connected already, be it to a consumer
that has died, makes `connect` fail with `EISCONN`, as long as there is a consumer that listens. -/
def handleConnect (s : State) : Except Blocked (State × Option Event) :=
  match s.pc, s.consumer with
  | .connecting, .down => .ok ({ s with conn := none }, none)
  | .connecting, _ =>
    .ok ({ s with conn := some (s.conn.getD ⟨[], [], true⟩), pc := .sending }, none)
  | _, _ => .error .blocked

/-- A `write` that fails prints a line, and nothing else. -/
def sendMsgToConsumer (s : State) : Except Blocked (State × Option Event) :=
  match s.pc, s.conn with
  | .sending, some c =>
    if c.peerOpen then
      .ok ({ s with
        conn := some { c with toConsumer := c.toConsumer ++ [dataMsg s.msgIndex] }
        pc := .awaiting }, none)
    else .ok ({ s with pc := .awaiting }, none)
  | _, _ => .error .blocked

/-- The same `write`, where the signal is not ignored. -/
def sigpipe (s : State) : Except Blocked (State × Option Event) :=
  match s.pc, s.conn with
  | .sending, some c => if c.peerOpen then .error .blocked else .ok ({ s with pc := .killed }, none)
  | _, _ => .error .blocked

/-- `getConsumerAck` and `msgIndex++`.  At the end of the stream the ack stays zero.  No run goes on
from `INT_MAX`, where the increment is undefined. -/
def getConsumerAck (s : State) : Except Blocked (State × Option Event) :=
  match s.pc, s.conn with
  | .awaiting, some c =>
    if s.msgIndex < intMax then
      match c.toProducer with
      | ack :: acks =>
        .ok ({ s with
          conn := some { c with toProducer := acks }
          pc := .connecting
          msgIndex := s.msgIndex + 1 }, some (.moved s.msgIndex ack))
      | [] =>
        if c.peerOpen then .error .blocked
        else .ok ({ s with pc := .connecting, msgIndex := s.msgIndex + 1 },
          some (.moved s.msgIndex {}))
    else .error .blocked
  | _, _ => .error .blocked

def accept (s : State) : Except Blocked (State × Option Event) :=
  match s.consumer, s.conn with
  | .accepting, some c =>
    if c.peerOpen then .ok ({ s with consumer := .reading }, none) else .error .blocked
  | _, _ => .error .blocked

/-- The consumer goes back to `accept`, with its end closed. -/
def closeConn (s : State) (c : Conn) : State :=
  { s with conn := some { c with toConsumer := [], peerOpen := false }, consumer := .accepting }

/-- Only a producer that was killed lets the consumer see the end of the stream. -/
def readConsumerMsg (s : State) : Except Blocked (State × Option Event) :=
  match s.consumer, s.conn with
  | .reading, some c =>
    match c.toConsumer with
    | msg :: msgs =>
      if msg.id = 0 then .ok (s.closeConn c, none)
      else
        .ok ({ s with conn := some { c with toConsumer := msgs }, consumer := .received msg }, none)
    | [] => if s.pc = .killed then .ok (s.closeConn c, none) else .error .blocked
  | _, _ => .error .blocked

def handleMsg (s : State) : Except Blocked (State × Option Event) :=
  match s.consumer with
  | .received msg => .ok ({ s with consumer := .acking msg }, some (.handled msg))
  | _ => .error .blocked

def sendAck (s : State) : Except Blocked (State × Option Event) :=
  match s.consumer, s.conn with
  | .acking msg, some c =>
    .ok ({ s with
      conn := some { c with toProducer := c.toProducer ++ [⟨msg.id⟩] }
      consumer := .reading }, none)
  | _, _ => .error .blocked

def die (s : State) : Except Blocked (State × Option Event) :=
  if s.consumer = .down then .error .blocked
  else .ok ({ s with
    conn := s.conn.map fun c => { c with toConsumer := [], peerOpen := false }
    consumer := .down }, none)

def restart (s : State) : Except Blocked (State × Option Event) :=
  if s.consumer = .down then .ok ({ s with consumer := .accepting }, none) else .error .blocked

def step (s : State) : Action → Except Blocked (State × Option Event)
  | .connect => s.handleConnect
  | .send => s.sendMsgToConsumer
  | .sigpipe => s.sigpipe
  | .getAck => s.getConsumerAck
  | .accept => s.accept
  | .readMsg => s.readConsumerMsg
  | .handleMsg => s.handleMsg
  | .sendAck => s.sendAck
  | .die => s.die
  | .restart => s.restart

/-! ### Ids that wrap around -/

/-- `getConsumerAck` and `msgIndex++`, where the increment wraps around: `msgIndex` is the number of
the message, and the variable of the program is that number modulo `2^32`. -/
def getConsumerAckWrapping (s : State) : Except Blocked (State × Option Event) :=
  match s.pc, s.conn with
  | .awaiting, some c =>
    match c.toProducer with
    | ack :: acks =>
      .ok ({ s with
        conn := some { c with toProducer := acks }
        pc := .connecting
        msgIndex := s.msgIndex + 1 }, some (.moved s.msgIndex ack))
    | [] =>
      if c.peerOpen then .error .blocked
      else .ok ({ s with pc := .connecting, msgIndex := s.msgIndex + 1 },
        some (.moved s.msgIndex {}))
  | _, _ => .error .blocked

def stepWrapping (s : State) : Action → Except Blocked (State × Option Event)
  | .getAck => s.getConsumerAckWrapping
  | a => s.step a

end State

end Lab1.ProducerConsumer
