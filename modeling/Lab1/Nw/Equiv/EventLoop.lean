import Lab1.Nw.Equiv.Framing
import Lab1.Nw.EventLoop

/-!
# A client that leaves

At the end of a connection `epoll` hands out its descriptor like any other.  `handle_request` then
reads nothing, so its message is still what the constructor made it, and the type `INV` there is
answered as an invalid one: with the value that ends the loop.

On a connection without failures the bytes to be read are whole messages (`Sound`), and of a message
the request reads exactly its bytes.  So the end of a connection is the only thing that ends the
loop (`staysUp_iff`).
-/

namespace Lab1.Nw

open NwMessage LoopState

variable {L : HeaderLayout} {testingMode : Bool}

/-! ### The property -/

/-- In every state on the way `handleSts` is `0` and the loop goes on. -/
def StaysUp (L : HeaderLayout) (testingMode : Bool) (acts : List (LoopAction L)) : Prop :=
  ∀ pre t outs, pre <+: acts → exec (LoopState.step L testingMode) .start pre = .ok (t, outs) →
    t.handleSts = 0 ∧ t.pc ≠ .returned

/-- The next request is that of a connection which the client has left, with everything read. -/
def AtEndOfFile (s : LoopState) : Prop :=
  ∃ i events, s.pc = .serving (⟨.conn i, true⟩ :: events) ∧ s.socks i = ⟨[], true⟩

/-! ### One request -/

/-- At the end of the file the message keeps the type that its constructor gave it. -/
theorem handleRequest_nil (mem : Mem) :
    handleRequest L testingMode ⟨[], true⟩ mem = .ok (⟨[], true⟩, ⟨-1, none, [], []⟩) := by
  have htype : getMsgType L (NwMessage.new L mem) = MsgTypes.INV.code := getMsgType_setMsgType _ _
  have hread : readFdDrain ⟨[], true⟩ L.size = .ok ([], ⟨[], true⟩) :=
    readFdDrain_eq_ok.mpr ⟨Or.inr rfl, List.take_nil.symm, by rw [List.drop_nil]⟩
  rw [handleRequest, hread, ok_bind]
  simp only [Mem.write_nil, htype]
  rw [if_neg (by decide), if_neg (by decide)]
  rfl

/-- While the client may still write, a request for which nothing is there does not return. -/
theorem handleRequest_blocked (mem : Mem) :
    handleRequest L testingMode ⟨[], false⟩ mem = .error .blocked := by
  have hread : readFdDrain ⟨[], false⟩ L.size = .error .blocked := by
    refine if_neg ?_
    have hin := L.type_in
    rw [drainLen_of_lt L.size_lt]
    rintro (hle | hclosed)
    · have hle : L.size ≤ 0 := hle
      omega
    · cases hclosed
  rw [handleRequest, hread, error_bind]

theorem length_regMsg_bytes (msg : RegMsg L) :
    msg.bytes.length = L.size + getMsgSz L msg.nmsg := Mem.length_read _ _ _

theorem RegMsg.drainLen_sz (msg : RegMsg L) :
    drainLen (getMsgSz L msg.nmsg) = getMsgSz L msg.nmsg :=
  drainLen_of_lt (msg.sz_le.trans_lt (by decide))

/-- The body of a message. -/
def RegMsg.body (msg : RegMsg L) : List UInt8 := msg.nmsg.read L.size (getMsgSz L msg.nmsg)

/-- The message object of a request that reads the message. -/
def RegMsg.received (msg : RegMsg L) (mem : Mem) : NwMessage :=
  ((NwMessage.new L mem).write 0 (msg.nmsg.read 0 L.size)).write L.size msg.body

/-- What such a request does: in testing mode the object is written to the log file; otherwise the
body is printed, and the object is sent back as one of type `TRM`. -/
def RegMsg.handled (testingMode : Bool) (msg : RegMsg L) (mem : Mem) : Handled where
  ret := 0
  decoded := some (MsgTypes.REG.code, msg.body)
  printed := if testingMode then [] else (msg.received mem).read L.size (getMsgSz L msg.nmsg)
  written :=
    if testingMode then NwMessage.bytes L (msg.received mem)
    else NwMessage.bytes L (setMsgType L .TRM (msg.received mem))

theorem RegMsg.take_header (msg : RegMsg L) (rest : List UInt8) :
    (msg.bytes ++ rest).take L.size = msg.nmsg.read 0 L.size := by
  rw [RegMsg.bytes, Mem.read_add, List.append_assoc]
  exact List.take_left' (Mem.length_read _ _ _)

/-- Behind the header stands the body. -/
theorem RegMsg.drop_header (msg : RegMsg L) (rest : List UInt8) :
    (msg.bytes ++ rest).drop L.size = msg.body ++ rest := by
  rw [RegMsg.bytes, Mem.read_add, Nat.zero_add, List.append_assoc]
  exact List.drop_left' (Mem.length_read _ _ _)

theorem RegMsg.length_body (msg : RegMsg L) : msg.body.length = getMsgSz L msg.nmsg :=
  Mem.length_read _ _ _

/-- The header of a whole message is there. -/
theorem readFdDrain_header (msg : RegMsg L) (rest : List UInt8) (closed : Bool) :
    readFdDrain ⟨msg.bytes ++ rest, closed⟩ L.size
      = .ok (msg.nmsg.read 0 L.size, ⟨msg.body ++ rest, closed⟩) := by
  have hsize : drainLen L.size = L.size := drainLen_of_lt L.size_lt
  refine readFdDrain_eq_ok.mpr ⟨Or.inl ?_, ?_, ?_⟩
  · show _ ≤ (msg.bytes ++ rest).length
    rw [hsize, List.length_append, length_regMsg_bytes]
    omega
  · rw [Sock.takes, hsize, msg.take_header]
  · rw [hsize, msg.drop_header]

theorem RegMsg.takes_body (msg : RegMsg L) (rest : List UInt8) (closed : Bool) :
    Sock.takes ⟨msg.body ++ rest, closed⟩ (getMsgSz L msg.nmsg) = msg.body := by
  rw [Sock.takes, msg.drainLen_sz]
  exact List.take_left' msg.length_body

/-- And so is its body. -/
theorem readFdDrain_body (msg : RegMsg L) (rest : List UInt8) (closed : Bool) :
    readFdDrain ⟨msg.body ++ rest, closed⟩ (getMsgSz L msg.nmsg)
      = .ok (msg.body, ⟨rest, closed⟩) := by
  refine readFdDrain_eq_ok.mpr ⟨Or.inl ?_, (msg.takes_body rest closed).symm, ?_⟩
  · show _ ≤ (msg.body ++ rest).length
    rw [msg.drainLen_sz, List.length_append, msg.length_body]
    omega
  · rw [msg.drainLen_sz, List.drop_left' msg.length_body]

theorem RegMsg.getMsgSz_received (msg : RegMsg L) (mem : Mem) :
    getMsgSz L (msg.received mem) = getMsgSz L msg.nmsg := by
  have hsz := word_readHeader msg.nmsg (NwMessage.new L mem) (getMsgSz L msg.nmsg) [] L.sz_in
  rw [RegMsg.received, getMsgSz_write_body, ← msg.take_header []]
  exact hsz

/-- A request takes a whole message, and asks the loop to go on. -/
theorem handleRequest_regMsg (testingMode closed : Bool) (msg : RegMsg L) (rest : List UInt8)
    (mem : Mem) :
    handleRequest L testingMode ⟨msg.bytes ++ rest, closed⟩ mem
      = .ok (⟨rest, closed⟩, msg.handled testingMode mem) := by
  have hle := msg.sz_le
  have hsz := msg.getMsgSz_received mem
  have htype := word_readHeader msg.nmsg (NwMessage.new L mem) (getMsgSz L msg.nmsg) rest L.type_in
  have htaken : (Sock.takes ⟨msg.body ++ rest, closed⟩ (getMsgSz L msg.nmsg)).length
      ≤ maxMsgSz := by
    rw [msg.takes_body, msg.length_body]
    exact hle
  rw [handleRequest, readFdDrain_header, ok_bind]
  dsimp only
  rw [← RegMsg.bytes, msg.take_header] at htype
  have htype : getMsgType L ((NwMessage.new L mem).write 0 (msg.nmsg.read 0 L.size))
      = MsgTypes.REG.code := htype.trans msg.type_eq
  rw [RegMsg.received, getMsgSz_write_body] at hsz
  rw [htype, if_neg (by decide), if_pos rfl, handleBody, hsz, requireInBody_of_le htaken, ok_bind,
    readFdDrain_body, ok_bind]
  dsimp only
  rw [htype, getMsgSz_write_body, hsz, requireInBody_of_le hle, ok_bind]
  rcases testingMode with _ | _
  · rfl
  · rfl

/-- Of whole messages, a request leaves whole messages. -/
theorem handleRequest_whole {msgs : List (RegMsg L)} {closed : Bool} {sock' : Sock} {mem : Mem}
    {h : Handled}
    (hok : handleRequest L testingMode ⟨msgs.flatMap RegMsg.bytes, closed⟩ mem = .ok (sock', h)) :
    (∃ msgs' : List (RegMsg L), sock'.input = msgs'.flatMap RegMsg.bytes) ∧
      (msgs ≠ [] → h.ret = 0) := by
  rcases msgs with _ | ⟨msg, msgs⟩
  · rw [List.flatMap_nil] at hok
    cases closed with
    | true =>
      rw [handleRequest_nil] at hok
      cases hok
      exact ⟨⟨[], rfl⟩, fun hne => absurd rfl hne⟩
    | false =>
      rw [handleRequest_blocked] at hok
      cases hok
  · rw [List.flatMap_cons, handleRequest_regMsg] at hok
    cases hok
    exact ⟨⟨msgs, rfl⟩, fun _ => rfl⟩

/-! ### What the steps do -/

section Steps

variable {s s' : LoopState} {o : Option Handled} {mem : Mem}

theorem send_cases {i : ℕ} {amount : List UInt8} (hstep : s.send i amount = .ok (s', o)) :
    (s.socks i).closed = false ∧ s' = { s with
      socks := Function.update s.socks i ⟨(s.socks i).input ++ amount, false⟩ } := by
  unfold send at hstep
  split_ifs at hstep with hopen
  obtain ⟨rfl, -⟩ := ok_pair_inj hstep
  exact ⟨hopen.2, rfl⟩

theorem close_cases {i : ℕ} (hstep : s.close i = .ok (s', o)) :
    s' = { s with socks := Function.update s.socks i ⟨(s.socks i).input, true⟩ } := by
  unfold close at hstep
  split_ifs at hstep with hconn
  obtain ⟨rfl, -⟩ := ok_pair_inj hstep
  rfl

theorem epollWait_cases {events : List EpollEvent} (hstep : s.epollWait events = .ok (s', o)) :
    s' = { s with pc := .serving events } ∧ (events.map EpollEvent.fd).Nodup ∧
      ∀ event ∈ events, s.Ready event := by
  unfold epollWait at hstep
  split_ifs at hstep with hready
  obtain ⟨rfl, -⟩ := ok_pair_inj hstep
  exact ⟨rfl, hready.2.2.1, hready.2.2.2⟩

theorem handleEvent_cases (hstep : s.handleEvent L testingMode mem = .ok (s', o)) :
    ∃ event events, s.pc = .serving (event :: events) ∧
      ((event.fd = .listenFd ∧ o = none ∧
          s' = { s with accepted := s.accepted + 1, pc := .serving events }) ∨
        (∃ i sock h, event = ⟨.conn i, true⟩ ∧
          handleRequest L testingMode (s.socks i) mem = .ok (sock, h) ∧ o = some h ∧
          s' = { s with
            socks := Function.update s.socks i sock
            handleSts := h.ret
            pc := .serving events }) ∨
        (event.epollin = false ∧ o = none ∧ s' = { s with pc := .serving events })) := by
  unfold handleEvent at hstep
  split at hstep
  · split_ifs at hstep with hconn
    obtain ⟨rfl, rfl⟩ := ok_pair_inj hstep
    exact ⟨_, _, ‹_›, Or.inl ⟨rfl, rfl, rfl⟩⟩
  · split at hstep
    · obtain ⟨rfl, rfl⟩ := ok_pair_inj hstep
      exact ⟨_, _, ‹_›, Or.inr (Or.inl ⟨_, _, _, rfl, ‹_›, rfl, rfl⟩)⟩
    · cases hstep
  · obtain ⟨rfl, rfl⟩ := ok_pair_inj hstep
    exact ⟨_, _, ‹_›, Or.inr (Or.inr ⟨rfl, rfl, rfl⟩)⟩
  · cases hstep

theorem checkHandleSts_cases (hstep : s.checkHandleSts = .ok (s', o)) :
    s.pc = .serving [] ∧
      s' = { s with pc := if s.handleSts = 0 then .waiting else .returned } := by
  unfold checkHandleSts at hstep
  split_ifs at hstep with hpc
  all_goals
    obtain ⟨rfl, -⟩ := ok_pair_inj hstep
    exact ⟨hpc, by simp [*]⟩

end Steps

/-! ### The invariant -/

/-- What holds in every state: the bytes to be read are whole messages, and the events left of a
batch are those of different descriptors that can still be read. -/
structure Sound (L : HeaderLayout) (s : LoopState) : Prop where
  whole : ∀ i, ∃ msgs : List (RegMsg L), (s.socks i).input = msgs.flatMap RegMsg.bytes
  nodup : ∀ events, s.pc = .serving events → (events.map EpollEvent.fd).Nodup
  ready : ∀ events, s.pc = .serving events → ∀ event ∈ events, s.Ready event

section Invariant

variable {s s' : LoopState} {o : Option Handled}

theorem Sound.start : Sound L .start where
  whole _ := ⟨[], rfl⟩
  nodup events hpc := by simp [LoopState.start] at hpc
  ready events hpc := by simp [LoopState.start] at hpc

/-- An event stays ready while no connection is accepted or read. -/
theorem ready_mono {event : EpollEvent} (hready : s.Ready event)
    (hconnected : s.connected ≤ s'.connected) (haccepted : s'.accepted = s.accepted)
    (hread : ∀ i, event.fd = .conn i → (s.socks i).Readable → (s'.socks i).Readable) :
    s'.Ready event := by
  obtain ⟨fd, epollin⟩ := event
  cases fd with
  | listenFd =>
    have hlt : s.accepted < s.connected := hready
    show s'.accepted < s'.connected
    omega
  | conn i =>
    obtain ⟨hlt, hin⟩ := hready
    exact ⟨haccepted ▸ hlt, fun h => hread i rfl (hin h)⟩

/-- The socket of a connection, with the messages that are on it. -/
theorem Sound.exists_sock (hs : Sound L s) (i : ℕ) : ∃ msgs : List (RegMsg L),
    s.socks i = ⟨msgs.flatMap RegMsg.bytes, (s.socks i).closed⟩ := by
  obtain ⟨msgs, hmsgs⟩ := hs.whole i
  exact ⟨msgs, congrArg (Sock.mk · (s.socks i).closed) hmsgs⟩

/-- With whole messages on the socket `i` too, and what could be read still there. -/
theorem Sound.update_sock (hs : Sound L s) (i : ℕ) {sock : Sock}
    (hwhole : ∃ msgs : List (RegMsg L), sock.input = msgs.flatMap RegMsg.bytes)
    (hread : (s.socks i).Readable → sock.Readable) :
    Sound L { s with socks := Function.update s.socks i sock } where
  whole j := by
    by_cases hj : j = i
    · subst hj
      simpa using hwhole
    · simpa [Function.update_of_ne hj] using hs.whole j
  nodup := hs.nodup
  ready events hpc event hmem := by
    refine ready_mono (hs.ready events hpc event hmem) le_rfl rfl ?_
    intro j _ hj
    by_cases hji : j = i
    · subst hji
      simpa using hread hj
    · simpa [Function.update_of_ne hji] using hj

theorem Sound.send (hs : Sound L s) {i : ℕ} {msg : RegMsg L}
    (hstep : s.send i msg.bytes = .ok (s', o)) : Sound L s' := by
  obtain ⟨hopen, rfl⟩ := send_cases hstep
  obtain ⟨msgs, hmsgs⟩ := hs.whole i
  refine hs.update_sock i ⟨msgs ++ [msg], ?_⟩ ?_
  · show (s.socks i).input ++ msg.bytes = _
    rw [hmsgs, List.flatMap_append, List.flatMap_singleton]
  · rintro (hne | hclosed)
    · exact Or.inl (List.append_ne_nil_of_left_ne_nil hne _)
    · rw [hopen] at hclosed
      exact absurd hclosed Bool.false_ne_true

theorem Sound.close (hs : Sound L s) {i : ℕ} (hstep : s.close i = .ok (s', o)) : Sound L s' := by
  obtain rfl := close_cases hstep
  exact hs.update_sock i (hs.whole i) fun _ => Or.inr rfl

theorem Sound.epollWait (hs : Sound L s) {events : List EpollEvent}
    (hstep : s.epollWait events = .ok (s', o)) : Sound L s' := by
  obtain ⟨rfl, hnodup, hready⟩ := epollWait_cases hstep
  refine ⟨hs.whole, ?_, ?_⟩
  · intro events' hpc
    cases hpc
    exact hnodup
  · intro events' hpc
    cases hpc
    exact hready

theorem Sound.handleEvent (hs : Sound L s) {mem : Mem}
    (hstep : s.handleEvent L testingMode mem = .ok (s', o)) : Sound L s' := by
  obtain ⟨event, events, hpc, hcases⟩ := handleEvent_cases hstep
  have hnodup := hs.nodup _ hpc
  rw [List.map_cons, List.nodup_cons] at hnodup
  have hready : ∀ event' ∈ events, s.Ready event' :=
    fun event' hmem => hs.ready _ hpc event' (List.mem_cons_of_mem _ hmem)
  have hother : ∀ event' ∈ events, event'.fd ≠ event.fd :=
    fun event' hmem heq => hnodup.1 (heq ▸ List.mem_map_of_mem hmem)
  rcases hcases with ⟨hfd, -, rfl⟩ | ⟨i, sock, h, rfl, hreq, -, rfl⟩ | ⟨-, -, rfl⟩
  · -- a connection more is accepted, and `listenFd` is not among the events left
    refine ⟨hs.whole, by rintro _ ⟨⟩; exact hnodup.2, ?_⟩
    rintro _ ⟨⟩ ⟨fd, epollin⟩ hmem
    cases fd with
    | listenFd => exact absurd hfd.symm (hother _ hmem)
    | conn j =>
      obtain ⟨hlt, hin⟩ := hready _ hmem
      exact ⟨hlt.trans (Nat.lt_succ_self _), hin⟩
  · obtain ⟨msgs, hmsgs⟩ := hs.exists_sock i
    rw [hmsgs] at hreq
    refine ⟨?_, by rintro _ ⟨⟩; exact hnodup.2, ?_⟩
    · intro j
      by_cases hj : j = i
      · subst hj
        simpa using (handleRequest_whole hreq).1
      · simpa [Function.update_of_ne hj] using hs.whole j
    · -- the socket that was read is not among the events left
      rintro _ ⟨⟩ event' hmem
      refine ready_mono (hready event' hmem) le_rfl rfl ?_
      intro j hj hread
      have hji : j ≠ i := fun heq => hother event' hmem (by rw [hj, heq])
      simpa [Function.update_of_ne hji] using hread
  · refine ⟨hs.whole, by rintro _ ⟨⟩; exact hnodup.2, ?_⟩
    rintro _ ⟨⟩ event' hmem
    exact hready event' hmem

theorem Sound.checkHandleSts (hs : Sound L s) (hstep : s.checkHandleSts = .ok (s', o)) :
    Sound L s' := by
  obtain ⟨-, rfl⟩ := checkHandleSts_cases hstep
  refine ⟨hs.whole, ?_, ?_⟩
  · intro events hpc
    dsimp only at hpc
    split_ifs at hpc
  · intro events hpc
    dsimp only at hpc
    split_ifs at hpc

theorem Sound.step (hs : Sound L s) {a : LoopAction L}
    (hstep : s.step L testingMode a = .ok (s', o)) : Sound L s' := by
  cases a with
  | connect =>
    obtain ⟨rfl, -⟩ := ok_pair_inj hstep
    exact ⟨hs.whole, hs.nodup, fun events hpc event hmem =>
      ready_mono (hs.ready events hpc event hmem) (Nat.le_succ _) rfl fun _ _ h => h⟩
  | send i msg => exact hs.send hstep
  | close i => exact hs.close hstep
  | wait events => exact hs.epollWait hstep
  | serve mem => exact hs.handleEvent hstep
  | check => exact hs.checkHandleSts hstep

theorem sound_run {acts : List (LoopAction L)} {outs : List (Option Handled)}
    (hrun : exec (LoopState.step L testingMode) .start acts = .ok (s, outs)) : Sound L s :=
  exec_invariant (fun _ s => Sound L s) (fun _ _ _ _ _ hs hstep => hs.step hstep) Sound.start hrun

end Invariant

/-! ### The next event -/

section NextEvent

variable {s s' : LoopState} {o : Option Handled}

/-- In no run does a turn of the `for` loop block or fault: a request is for a connection on which
a whole message is there, or which the client has left. -/
theorem handleEvent_ok {acts : List (LoopAction L)} {outs : List (Option Handled)}
    (hrun : exec (LoopState.step L testingMode) .start acts = .ok (s, outs)) {event : EpollEvent}
    {events : List EpollEvent} (hpc : s.pc = .serving (event :: events)) (mem : Mem) :
    ∃ s' o, s.handleEvent L testingMode mem = .ok (s', o) := by
  have hs := sound_run hrun
  have hready : s.Ready event := hs.ready _ hpc event List.mem_cons_self
  rcases event with ⟨_ | i, epollin⟩
  · have hlt : s.accepted < s.connected := hready
    exact ⟨_, _, by rw [LoopState.handleEvent, hpc]; exact if_pos hlt⟩
  rcases epollin with _ | _
  · exact ⟨_, _, by rw [LoopState.handleEvent, hpc]⟩
  · obtain ⟨msgs, hmsgs⟩ := hs.exists_sock i
    have hread : (s.socks i).Readable := hready.2 rfl
    have hreq : ∃ sock h, handleRequest L testingMode (s.socks i) mem = .ok (sock, h) := by
      rw [hmsgs] at hread ⊢
      rcases msgs with _ | ⟨msg, msgs⟩
      · rcases hread with hne | hclosed
        · exact absurd rfl hne
        · have hclosed : (s.socks i).closed = true := hclosed
          rw [hclosed]
          exact ⟨_, _, handleRequest_nil mem⟩
      · exact ⟨_, _, handleRequest_regMsg testingMode (s.socks i).closed msg
          (msgs.flatMap RegMsg.bytes) mem⟩
    obtain ⟨sock, h, hok⟩ := hreq
    exact ⟨_, _, by rw [LoopState.handleEvent, hpc]; simp only [hok]; rfl⟩

theorem handleEvent_atEndOfFile (L : HeaderLayout) (testingMode : Bool) (hend : AtEndOfFile s)
    (mem : Mem) : ∃ s' o, s.handleEvent L testingMode mem = .ok (s', o) ∧ s'.handleSts = -1 := by
  obtain ⟨i, events, hpc, hsock⟩ := hend
  have hreq : handleRequest L testingMode (s.socks i) mem
      = .ok (⟨[], true⟩, ⟨-1, none, [], []⟩) := by
    rw [hsock]
    exact handleRequest_nil mem
  refine ⟨_, _, by rw [LoopState.handleEvent, hpc]; simp only [hreq]; rfl, rfl⟩

/-- A step that is not a request at the end of a file keeps the loop going. -/
theorem stays_step (hs : Sound L s) (hup : s.handleSts = 0 ∧ s.pc ≠ .returned) {a : LoopAction L}
    (hend : ∀ mem, a = .serve mem → ¬AtEndOfFile s) (hstep : s.step L testingMode a = .ok (s', o)) :
    s'.handleSts = 0 ∧ s'.pc ≠ .returned := by
  cases a with
  | connect =>
    obtain ⟨rfl, -⟩ := ok_pair_inj hstep
    exact hup
  | send i msg =>
    obtain ⟨-, rfl⟩ := send_cases hstep
    exact hup
  | close i =>
    obtain rfl := close_cases hstep
    exact hup
  | wait events =>
    obtain ⟨rfl, -⟩ := epollWait_cases hstep
    exact ⟨hup.1, nofun⟩
  | serve mem =>
    obtain ⟨event, events, hpc, hcases⟩ := handleEvent_cases hstep
    rcases hcases with ⟨-, -, rfl⟩ | ⟨i, sock, h, rfl, hreq, -, rfl⟩ | ⟨-, -, rfl⟩
    · exact ⟨hup.1, nofun⟩
    · obtain ⟨msgs, hmsgs⟩ := hs.exists_sock i
      rw [hmsgs] at hreq
      refine ⟨(handleRequest_whole hreq).2 ?_, nofun⟩
      -- without a message the socket can be read only because the client has left
      rintro rfl
      obtain ⟨-, hin⟩ := hs.ready _ hpc _ List.mem_cons_self
      rcases hin rfl with hne | hclosed
      · exact hne (congrArg Sock.input hmsgs)
      · rw [hclosed] at hmsgs
        exact hend mem rfl ⟨i, events, hpc, hmsgs⟩
    · exact ⟨hup.1, nofun⟩
  | check =>
    obtain ⟨-, rfl⟩ := checkHandleSts_cases hstep
    refine ⟨hup.1, ?_⟩
    show (if s.handleSts = 0 then LoopPc.waiting else .returned) ≠ .returned
    rw [if_pos hup.1]
    exact nofun

end NextEvent

/-! ### The equivalence -/

/-- **What stops the server.**  `handleSts` stays `0`, and the loop goes on, if and only if no
request is handled at the end of a file.  No turn of the `for` loop blocks or faults. -/
theorem staysUp_iff (acts : List (LoopAction L)) :
    (StaysUp L testingMode acts ↔ ∀ pre mem post t outs, acts = pre ++ .serve mem :: post →
      exec (LoopState.step L testingMode) .start pre = .ok (t, outs) → ¬AtEndOfFile t) ∧
    ∀ pre t outs event events mem, pre <+: acts →
      exec (LoopState.step L testingMode) .start pre = .ok (t, outs) →
      t.pc = .serving (event :: events) →
      ∃ t' o, t.handleEvent L testingMode mem = .ok (t', o) := by
  refine ⟨?_, fun _ _ _ _ _ mem _ hrun hpc => handleEvent_ok hrun hpc mem⟩
  constructor
  · intro hup pre mem post t outs hacts hpre hend
    obtain ⟨s', o, hstep, hsts⟩ := handleEvent_atEndOfFile L testingMode hend mem
    have hlast : exec (LoopState.step L testingMode) t [.serve mem] = .ok (s', [o]) :=
      exec_singleton_eq_ok.mpr ⟨o, hstep, rfl⟩
    obtain ⟨hzero, -⟩ := hup (pre ++ [.serve mem]) s' _ ⟨post, by simp [hacts]⟩
      (exec_append_eq_ok.mpr ⟨t, outs, [o], hpre, hlast, rfl⟩)
    omega
  · intro hend pre t outs hprefix hrun
    obtain ⟨rest, hacts⟩ := hprefix
    have hup := exec_invariant_along (P := fun s a => ∀ mem, a = .serve mem → ¬AtEndOfFile s)
      (fun _ s => Sound L s ∧ s.handleSts = 0 ∧ s.pc ≠ .returned)
      (fun _ _ _ _ _ hI hP hstep => ⟨hI.1.step hstep, stays_step hI.1 hI.2 hP hstep⟩)
      ⟨Sound.start, rfl, nofun⟩ ?_ hrun
    · exact hup.2
    · rintro before a after t' outs' hsplit hbefore mem rfl
      exact hend before mem (after ++ rest) t' outs' (by simp [← hacts, hsplit]) hbefore

/-- One client connects, and leaves without a message. -/
def leaving : List (LoopAction .lp64) :=
  [.connect, .wait [⟨.listenFd, true⟩], .serve fun _ => 0, .check,
    .close 0, .wait [⟨.conn 0, true⟩], .serve fun _ => 0, .check]

theorem not_staysUp_leaving :
    (∃ t outs, exec (LoopState.step .lp64 false) .start leaving = .ok (t, outs) ∧
        t.pc = .returned) ∧
      ¬StaysUp .lp64 false leaving := by
  have hrun : ∃ t outs, exec (LoopState.step .lp64 false) .start leaving = .ok (t, outs) ∧
      t.pc = .returned := ⟨_, _, rfl, rfl⟩
  refine ⟨hrun, fun hup => ?_⟩
  obtain ⟨t, outs, hok, hpc⟩ := hrun
  exact (hup leaving t outs (List.prefix_refl _) hok).2 hpc

end Lab1.Nw
