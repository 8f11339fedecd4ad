import Lab1.Nw.Acceptor
import Mathlib.Logic.Function.Basic

/-!
# The event loop of the acceptor

`Acceptor::listen_2_events` (`common/nw/src/Acceptor.cpp`) and the clients around it.  The clients
connect, write whole messages of type `REG` and close their ends, at any time; `epoll_wait` hands
out any batch of descriptors that can be read.  The system calls succeed.

The acceptor never closes a connection, so the descriptors of the connections are numbered in the
order in which the clients connect, and those accepted so far are the ones registered with `epoll`.
-/

namespace Lab1.Nw

open NwMessage

/-! ### The clients -/

/-- A message of type `REG`, whose size is that of a body. -/
structure RegMsg (L : HeaderLayout) where
  nmsg : NwMessage
  type_eq : getMsgType L nmsg = MsgTypes.REG.code
  sz_le : getMsgSz L nmsg ≤ maxMsgSz

/-- The header, and as much of the body as the header says. -/
def RegMsg.bytes {L : HeaderLayout} (msg : RegMsg L) : List UInt8 :=
  msg.nmsg.read 0 (L.size + getMsgSz L msg.nmsg)

/-- A `read` does not block: there are bytes, or the end of the file. -/
def Sock.Readable (sock : Sock) : Prop := sock.input ≠ [] ∨ sock.closed = true

instance (sock : Sock) : Decidable sock.Readable := inferInstanceAs (Decidable (_ ∨ _))

/-! ### The loop -/

/-- `MAX_EVENTS` -/
def maxEvents : ℕ := 10

inductive Fd where
  /-- `m_listen_fd` -/
  | listenFd
  | conn (i : ℕ)
  deriving DecidableEq, Repr

/-- `epoll_event` -/
structure EpollEvent where
  fd : Fd
  /-- `EPOLLIN` is among the events -/
  epollin : Bool
  deriving DecidableEq, Repr

/-- Where `listen_2_events` is. -/
inductive LoopPc where
  /-- before `epoll_wait` -/
  | waiting
  /-- in the `for` loop, with these events left -/
  | serving (events : List EpollEvent)
  | returned
  deriving DecidableEq, Repr

structure LoopState where
  socks : ℕ → Sock
  connected : ℕ
  accepted : ℕ
  handleSts : ℤ
  pc : LoopPc

/-- A step of a client, or of the loop. -/
inductive LoopAction (L : HeaderLayout) where
  | connect
  | send (i : ℕ) (msg : RegMsg L)
  | close (i : ℕ)
  /-- `epoll_wait`; the batch is empty where a signal ends the wait -/
  | wait (events : List EpollEvent)
  /-- a turn of the `for` loop, where `mem` is what the message of `handle_request` lies on -/
  | serve (mem : Mem)
  /-- the condition of the `do` loop -/
  | check

namespace LoopState

/-- The listening socket is registered, and no client is there. -/
def start : LoopState := ⟨fun _ => ⟨[], false⟩, 0, 0, 0, .waiting⟩

/-- `epoll_wait` can hand out the event. -/
def Ready (s : LoopState) (event : EpollEvent) : Prop :=
  match event.fd with
  | .listenFd => s.accepted < s.connected
  | .conn i => i < s.accepted ∧ (event.epollin = true → (s.socks i).Readable)

instance (s : LoopState) : (event : EpollEvent) → Decidable (s.Ready event)
  | ⟨.listenFd, _⟩ => inferInstanceAs (Decidable (_ < _))
  | ⟨.conn _, _⟩ => inferInstanceAs (Decidable (_ ∧ _))

def connect (s : LoopState) : Except Stop (LoopState × Option Handled) :=
  .ok ({ s with connected := s.connected + 1 }, none)

def send (s : LoopState) (i : ℕ) (amount : List UInt8) : Except Stop (LoopState × Option Handled) :=
  if i < s.connected ∧ (s.socks i).closed = false then
    let sock : Sock := ⟨(s.socks i).input ++ amount, false⟩
    .ok ({ s with socks := Function.update s.socks i sock }, none)
  else .error .blocked

def close (s : LoopState) (i : ℕ) : Except Stop (LoopState × Option Handled) :=
  if i < s.connected then
    let sock : Sock := ⟨(s.socks i).input, true⟩
    .ok ({ s with socks := Function.update s.socks i sock }, none)
  else .error .blocked

/-- A descriptor is at most once in a batch. -/
def epollWait (s : LoopState) (events : List EpollEvent) :
    Except Stop (LoopState × Option Handled) :=
  if s.pc = .waiting ∧ events.length ≤ maxEvents ∧ (events.map EpollEvent.fd).Nodup ∧
      ∀ event ∈ events, s.Ready event then
    .ok ({ s with pc := .serving events }, none)
  else .error .blocked

def handleEvent (L : HeaderLayout) (testingMode : Bool) (s : LoopState) (mem : Mem) :
    Except Stop (LoopState × Option Handled) :=
  match s.pc with
  | .serving (⟨.listenFd, _⟩ :: events) =>
    if s.accepted < s.connected then
      .ok ({ s with accepted := s.accepted + 1, pc := .serving events }, none)
    else .error .blocked
  | .serving (⟨.conn i, true⟩ :: events) =>
    match handleRequest L testingMode (s.socks i) mem with
    | .ok (sock, handled) =>
      .ok ({ s with
        socks := Function.update s.socks i sock
        handleSts := handled.ret
        pc := .serving events }, some handled)
    | .error e => .error e
  | .serving (⟨.conn _, false⟩ :: events) => .ok ({ s with pc := .serving events }, none)
  | _ => .error .blocked

/-- The loop goes on only while the last request of the batch was one to go on after. -/
def checkHandleSts (s : LoopState) : Except Stop (LoopState × Option Handled) :=
  if s.pc = .serving [] then
    .ok ({ s with pc := if s.handleSts = 0 then .waiting else .returned }, none)
  else .error .blocked

def step (L : HeaderLayout) (testingMode : Bool) (s : LoopState) :
    LoopAction L → Except Stop (LoopState × Option Handled)
  | .connect => s.connect
  | .send i msg => s.send i msg.bytes
  | .close i => s.close i
  | .wait events => s.epollWait events
  | .serve mem => s.handleEvent L testingMode mem
  | .check => s.checkHandleSts

end LoopState

end Lab1.Nw
