import Lab1.Nw.Equiv.Batch
import Mathlib.Data.List.Forall2

/-!
# What the acceptor has read and answered

Clients connect, write and close in any order, and `epoll_wait` hands out the descriptors in any
batches.  On every single connection the requests read what its client has written: message by
message, each of them once, in order, and nothing that another client has written.  What is written
back to a client is an answer to each of its messages, in the same order (`readsInOrder`).

The step of the loop does not say which connection a request was for; `servedStep` adds that, and
what was there to be read.
-/

namespace Lab1.Nw

open NwMessage LoopState

variable {L : HeaderLayout} {testingMode : Bool}

/-! ### The property -/

/-- A request that was served. -/
structure Served where
  /-- the connection that it was for -/
  conn : ℕ
  /-- the socket before the request -/
  sock : Sock
  handled : Handled

/-- The connection that the next turn of the `for` loop reads from. -/
def LoopState.nextConn (s : LoopState) : Option ℕ :=
  match s.pc with
  | .serving (⟨.conn i, true⟩ :: _) => some i
  | _ => none

/-- The step of the loop, where a request comes with its connection and the socket before it. -/
def servedStep (L : HeaderLayout) (testingMode : Bool) (s : LoopState) (a : LoopAction L) :
    Except Stop (LoopState × Option Served) := do
  let (s', o) ← s.step L testingMode a
  return (s', o.bind fun handled => s.nextConn.map fun i => ⟨i, s.socks i, handled⟩)

def LoopAction.sentOn? (i : ℕ) : LoopAction L → Option (RegMsg L)
  | .send j msg => if j = i then some msg else none
  | _ => none

/-- What the client of connection `i` has written. -/
def sentOn (i : ℕ) (acts : List (LoopAction L)) : List (RegMsg L) :=
  acts.filterMap (LoopAction.sentOn? i)

def servedOn? (i : ℕ) : Option Served → Option Served
  | some served => if served.conn = i then some served else none
  | none => none

/-- The requests on connection `i`. -/
def servedOn (i : ℕ) (outs : List (Option Served)) : List Served := outs.filterMap (servedOn? i)

/-- The requests among them that found something to read. -/
def foundInput (requests : List Served) : List Served :=
  requests.filter fun served => served.sock.input ≠ []

/-- The types and bodies that the requests have read. -/
def decoded (requests : List Served) : List (ℕ × List UInt8) :=
  requests.filterMap fun served => served.handled.decoded

/-- What the requests have written. -/
def written (requests : List Served) : List UInt8 :=
  requests.flatMap fun served => served.handled.written

/-- The bytes of an object of type `TRM` with the size and the body of the message. -/
structure AnswerTo (msg : RegMsg L) (answer : List UInt8) : Prop where
  length : answer.length = sizeofNwMessage L
  type : getMsgType L (Mem.ofList answer) = MsgTypes.TRM.code
  sz : getMsgSz L (Mem.ofList answer) = getMsgSz L msg.nmsg
  body : (Mem.ofList answer).read L.size (getMsgSz L msg.nmsg) = msg.body

/-- Of what the client of connection `i` has written, the messages `read` have been read, one by
every request that found something to read, and the messages `left` are still on the socket.  In
testing mode the acceptor writes to its log file, and otherwise it answers. -/
structure ReadUpTo (testingMode : Bool) (i : ℕ) (acts : List (LoopAction L))
    (outs : List (Option Served)) (s : LoopState) (read left : List (RegMsg L)) : Prop where
  sent : sentOn i acts = read ++ left
  served : (foundInput (servedOn i outs)).length = read.length
  decoded : decoded (servedOn i outs) = read.map fun msg => (MsgTypes.REG.code, msg.body)
  input : (s.socks i).input = left.flatMap RegMsg.bytes
  answered : testingMode = false →
    ∃ answers, written (servedOn i outs) = answers.flatten ∧ List.Forall₂ AnswerTo read answers

/-! ### What a request writes -/

/-- What is read of the bytes of a message is read of the message. -/
theorem read_ofList_bytes (m : NwMessage) {off n : ℕ} (hle : off + n ≤ sizeofNwMessage L) :
    (Mem.ofList (bytes L m)).read off n = m.read off n := by
  have hread : (Mem.write (fun _ => 0) 0 (m.read 0 (sizeofNwMessage L))).read (0 + off) n
      = m.read off n := Mem.read_write_read _ _ hle
  rw [Nat.zero_add] at hread
  rw [Mem.ofList_eq_write]
  exact hread

/-- Outside testing mode a whole message is answered. -/
theorem RegMsg.answerTo (msg : RegMsg L) (mem : Mem) :
    AnswerTo msg (msg.handled false mem).written := by
  have hle := msg.sz_le
  have hsz := msg.getMsgSz_received mem
  have hwritten : (msg.handled false mem).written
      = NwMessage.bytes L (setMsgType L .TRM (msg.received mem)) := by
    unfold RegMsg.handled
    dsimp only
    rw [if_neg Bool.false_ne_true]
  rw [hwritten]
  have hin : L.typeOff + 4 ≤ L.size := L.type_in
  have hin' : L.szOff + 4 ≤ L.size := L.sz_in
  have hsizeof : sizeofNwMessage L = L.size + maxMsgSz := rfl
  refine ⟨length_bytes _, ?_, ?_, ?_⟩
  · refine Eq.trans (Mem.word_congr (read_ofList_bytes _ (by omega))) ?_
    exact getMsgType_setMsgType .TRM _
  · refine Eq.trans (Mem.word_congr (read_ofList_bytes _ (by omega))) ?_
    exact (getMsgSz_setMsgType .TRM _).trans hsz
  · -- the type stands before the body
    rw [read_ofList_bytes _ (by omega), setMsgType,
      Mem.read_write_of_apart _ _ (Or.inr (by rw [length_wordBytes]; exact hin)),
      ← msg.length_body, RegMsg.received]
    exact Mem.read_write _ L.size msg.body

/-! ### One step -/

section Step

variable {s s' : LoopState} {o : Option Served} {i : ℕ} {acts : List (LoopAction L)}
  {outs : List (Option Served)} {read left : List (RegMsg L)}

theorem servedStep_eq_ok {a : LoopAction L} :
    servedStep L testingMode s a = .ok (s', o) ↔ ∃ h, s.step L testingMode a = .ok (s', h) ∧
      o = h.bind fun handled => s.nextConn.map fun i => ⟨i, s.socks i, handled⟩ := by
  unfold servedStep
  rw [bind_eq_ok]
  constructor
  · rintro ⟨⟨t, h⟩, hstep, hpure⟩
    obtain ⟨rfl, rfl⟩ := ok_pair_inj hpure
    exact ⟨h, hstep, rfl⟩
  · rintro ⟨h, hstep, rfl⟩
    exact ⟨(s', h), hstep, rfl⟩

theorem servedOn_concat_none (ho : servedOn? i o = none) :
    servedOn i (outs ++ [o]) = servedOn i outs := by
  rw [servedOn, List.filterMap_append, List.filterMap_cons_none ho, List.filterMap_nil,
    List.append_nil, servedOn]

theorem servedOn_concat (outs : List (Option Served)) (served : Served) :
    servedOn served.conn (outs ++ [some served]) = servedOn served.conn outs ++ [served] := by
  have hlast : servedOn? served.conn (some served) = some served := if_pos rfl
  rw [servedOn, List.filterMap_append, List.filterMap_cons_some hlast, List.filterMap_nil, servedOn]

theorem decoded_concat (requests : List Served) (served : Served) :
    decoded (requests ++ [served]) = decoded requests ++ served.handled.decoded.toList := by
  rw [decoded, List.filterMap_append, decoded]
  refine congrArg _ ?_
  rcases hdec : served.handled.decoded with _ | d
  · exact List.filterMap_cons_none hdec
  · exact List.filterMap_cons_some hdec

theorem written_concat (requests : List Served) (served : Served) :
    written (requests ++ [served]) = written requests ++ served.handled.written := by
  rw [written, List.flatMap_append, List.flatMap_singleton, written]

/-- A step that writes nothing on connection `i` and reads nothing from it. -/
theorem ReadUpTo.silent (hread : ReadUpTo testingMode i acts outs s read left) {a : LoopAction L}
    (ha : a.sentOn? i = none) (ho : servedOn? i o = none)
    (hinput : (s'.socks i).input = (s.socks i).input) :
    ReadUpTo testingMode i (acts ++ [a]) (outs ++ [o]) s' read left where
  sent := by
    rw [sentOn, List.filterMap_append, List.filterMap_cons_none ha, List.filterMap_nil,
      List.append_nil]
    exact hread.sent
  served := by rw [servedOn_concat_none ho, hread.served]
  decoded := by rw [servedOn_concat_none ho, hread.decoded]
  input := hinput.trans hread.input
  answered htest := by
    rw [servedOn_concat_none ho]
    exact hread.answered htest

/-- The client of connection `i` writes another message. -/
theorem ReadUpTo.sends (hread : ReadUpTo testingMode i acts outs s read left) (msg : RegMsg L)
    (hinput : (s'.socks i).input = (s.socks i).input ++ msg.bytes) :
    ReadUpTo testingMode i (acts ++ [.send i msg]) (outs ++ [none]) s' read (left ++ [msg]) where
  sent := by
    have hlast : LoopAction.sentOn? i (.send i msg) = some msg := if_pos rfl
    rw [sentOn, List.filterMap_append, List.filterMap_cons_some hlast, List.filterMap_nil,
      ← List.append_assoc, ← hread.sent]
    rfl
  served := by rw [servedOn_concat_none rfl, hread.served]
  decoded := by rw [servedOn_concat_none rfl, hread.decoded]
  input := by
    rw [hinput, hread.input, List.flatMap_append, List.flatMap_singleton]
  answered htest := by
    rw [servedOn_concat_none rfl]
    exact hread.answered htest

/-- A request on connection `i` reads the first message on the socket, if there is one. -/
theorem ReadUpTo.serves (hread : ReadUpTo testingMode i acts outs s read left) {mem : Mem}
    {sock : Sock} {h : Handled}
    (hreq : handleRequest L testingMode (s.socks i) mem = .ok (sock, h))
    (hinput : (s'.socks i).input = sock.input) :
    ∃ read' left', ReadUpTo testingMode i (acts ++ [.serve mem])
      (outs ++ [some ⟨i, s.socks i, h⟩]) s' read' left' := by
  have hsent : sentOn i (acts ++ [.serve mem]) = read ++ left := by
    rw [← hread.sent, sentOn, List.filterMap_append]
    exact List.append_nil _
  have hserved := servedOn_concat outs ⟨i, s.socks i, h⟩
  have hsock : s.socks i = ⟨left.flatMap RegMsg.bytes, (s.socks i).closed⟩ :=
    congrArg (Sock.mk · (s.socks i).closed) hread.input
  rcases left with _ | ⟨msg, left⟩
  · -- at the end of the file nothing is decoded
    have hnil : (s.socks i).input = [] := hread.input
    have hend : sock.input = [] ∧ h = ⟨-1, none, [], []⟩ := by
      rw [hsock, List.flatMap_nil] at hreq
      cases hclosed : (s.socks i).closed with
      | true =>
        rw [hclosed, handleRequest_nil] at hreq
        obtain ⟨rfl, rfl⟩ := ok_pair_inj hreq
        exact ⟨rfl, rfl⟩
      | false =>
        rw [hclosed, handleRequest_blocked] at hreq
        cases hreq
    obtain ⟨hsocknil, rfl⟩ := hend
    refine ⟨read, [], hsent, ?_, ?_, hinput.trans hsocknil, ?_⟩
    · rw [hserved, foundInput, List.filter_append, List.filter_cons_of_neg (by simp [hnil]),
        List.filter_nil, List.append_nil]
      exact hread.served
    · rw [hserved, decoded_concat]
      exact (List.append_nil _).trans hread.decoded
    · intro htest
      rw [hserved, written_concat, List.append_nil]
      exact hread.answered htest
  · rw [hsock, List.flatMap_cons, handleRequest_regMsg] at hreq
    obtain ⟨rfl, rfl⟩ := ok_pair_inj hreq
    have hne : (s.socks i).input ≠ [] := by
      have hlen := length_regMsg_bytes msg
      have htype := L.type_in
      rw [hread.input, List.flatMap_cons]
      refine List.append_ne_nil_of_left_ne_nil ?_ _
      intro hnil
      rw [hnil, List.length_nil] at hlen
      omega
    refine ⟨read ++ [msg], left, ?_, ?_, ?_, hinput, ?_⟩
    · rw [hsent, List.append_assoc]
      rfl
    · rw [hserved, foundInput, List.filter_append, List.filter_cons_of_pos (by simpa using hne),
        List.filter_nil, List.length_append, List.length_append]
      exact congrArg (· + 1) hread.served
    · rw [hserved, decoded_concat, List.map_append]
      exact congrArg (· ++ _) hread.decoded
    · rintro rfl
      obtain ⟨answers, hflat, hall⟩ := hread.answered rfl
      refine ⟨answers ++ [(msg.handled false mem).written], ?_, ?_⟩
      · rw [hserved, written_concat, List.flatten_append, List.flatten_singleton, hflat]
      · exact List.rel_append hall (.cons (msg.answerTo mem) .nil)

theorem update_input_of_ne {socks : ℕ → Sock} {i j : ℕ} (hij : i ≠ j) (sock : Sock) :
    (Function.update socks j sock i).input = (socks i).input := by
  rw [Function.update_of_ne hij]

/-- **The step.** -/
theorem ReadUpTo.step (hread : ReadUpTo testingMode i acts outs s read left) {a : LoopAction L}
    (hstep : servedStep L testingMode s a = .ok (s', o)) :
    ∃ read' left', ReadUpTo testingMode i (acts ++ [a]) (outs ++ [o]) s' read' left' := by
  obtain ⟨h, hloop, rfl⟩ := servedStep_eq_ok.mp hstep
  cases a with
  | connect =>
    obtain ⟨rfl, rfl⟩ := ok_pair_inj hloop
    exact ⟨read, left, hread.silent rfl rfl rfl⟩
  | send j msg =>
    obtain rfl : h = none := output_eq_none (fun _ => by simp) hloop
    obtain ⟨-, rfl⟩ := send_cases hloop
    by_cases hij : j = i
    · subst hij
      exact ⟨read, _, hread.sends msg (by simp)⟩
    · exact ⟨read, left, hread.silent (if_neg hij) rfl (update_input_of_ne (Ne.symm hij) _)⟩
  | close j =>
    obtain rfl : h = none := output_eq_none (fun _ => by simp) hloop
    obtain rfl := close_cases hloop
    refine ⟨read, left, hread.silent rfl rfl ?_⟩
    by_cases hij : j = i
    · subst hij
      simp
    · exact update_input_of_ne (Ne.symm hij) _
  | wait events =>
    obtain rfl : h = none := output_eq_none (fun _ => by simp) hloop
    obtain ⟨rfl, -⟩ := epollWait_cases hloop
    exact ⟨read, left, hread.silent rfl rfl rfl⟩
  | serve mem =>
    obtain ⟨event, events, hpc, hcases⟩ := handleEvent_cases hloop
    rcases hcases with ⟨-, rfl, rfl⟩ | ⟨j, sock, h, rfl, hreq, rfl, rfl⟩ | ⟨-, rfl, rfl⟩
    · exact ⟨read, left, hread.silent rfl rfl rfl⟩
    · -- the request is for connection `j`, and what it reads comes from there
      have hnext : s.nextConn = some j := by rw [nextConn, hpc]
      rw [hnext]
      by_cases hij : j = i
      · subst hij
        exact hread.serves hreq (by simp)
      · exact ⟨read, left,
          hread.silent rfl (if_neg hij) (update_input_of_ne (Ne.symm hij) _)⟩
    · exact ⟨read, left, hread.silent rfl rfl rfl⟩
  | check =>
    obtain rfl : h = none := output_eq_none (fun _ => by simp) hloop
    obtain ⟨-, rfl⟩ := checkHandleSts_cases hloop
    exact ⟨read, left, hread.silent rfl rfl rfl⟩

end Step

/-! ### Runs -/

/-- **Every connection is read in order.**  After every run, on every connection: every request that
found something to read has read one message, these are the first messages of its client, one after
the other, the messages behind them are on the socket, and what was written back are the answers to
those that were read. -/
theorem readsInOrder {acts : List (LoopAction L)} {s : LoopState} {outs : List (Option Served)}
    (hrun : exec (servedStep L testingMode) .start acts = .ok (s, outs)) (i : ℕ) :
    ∃ read left, ReadUpTo testingMode i acts outs s read left := by
  have hhist := exec_history_invariant (fun hist s => ∃ read left,
    ReadUpTo testingMode i (hist.map Prod.fst) (hist.map Prod.snd) s read left) ?_ ?_ hrun
  · rwa [List.map_fst_zip (length_exec hrun).ge, List.map_snd_zip (length_exec hrun).le] at hhist
  · rintro hist s a s' o ⟨read, left, hread⟩ hstep
    rw [List.map_append, List.map_append]
    exact hread.step hstep
  · exact ⟨[], [], rfl, rfl, rfl, rfl, fun _ => ⟨[], rfl, .nil⟩⟩

/-! ### Two clients -/

/-- A message with the body `hi`. -/
def hiMsg : RegMsg .lp64 where
  nmsg := Mem.ofList [0, 0, 0, 0, 0, 0, 0, 0, 0, 0, 0, 0, 2, 0, 0, 0, 0x68, 0x69]
  type_eq := by decide
  sz_le := by decide

/-- A message without a body. -/
def emptyMsg : RegMsg .lp64 := ⟨fun _ => 0, by decide, by decide⟩

/-- Two clients connect, and both are accepted.  The first one writes twice and the second one once;
then each of them is served once. -/
def twoWriters : List (LoopAction .lp64) :=
  [.connect, .connect, .wait [⟨.listenFd, true⟩], .serve fun _ => 0, .check,
    .wait [⟨.listenFd, true⟩], .serve fun _ => 0, .check, .send 1 emptyMsg, .send 0 hiMsg,
    .send 0 emptyMsg, .wait [⟨.conn 1, true⟩, ⟨.conn 0, true⟩], .serve fun _ => 0,
    .serve fun _ => 0, .check]

/-- Of the first client's two messages the first one is read. -/
theorem readsInOrder_twoWriters : ∃ s outs,
    exec (servedStep .lp64 false) .start twoWriters = .ok (s, outs) ∧
      ∃ read left, ReadUpTo false 0 twoWriters outs s read left ∧
        read = [hiMsg] ∧ left = [emptyMsg] := by
  have hrun : ∃ s outs, exec (servedStep .lp64 false) .start twoWriters = .ok (s, outs) ∧
      (foundInput (servedOn 0 outs)).length = 1 := ⟨_, _, rfl, by decide⟩
  obtain ⟨s, outs, hrun, hone⟩ := hrun
  obtain ⟨read, left, hread⟩ := readsInOrder hrun 0
  refine ⟨s, outs, hrun, read, left, hread, ?_⟩
  have hsent : read ++ left = [hiMsg, emptyMsg] := hread.sent.symm
  exact List.append_inj hsent (hread.served.symm.trans hone)

end Lab1.Nw
