import Lab1.ProducerConsumer.Equiv.Acks

/-!
# A consumer that dies and starts again

Whatever the consumer's process does, no message is handled twice and none before an earlier one,
and an ack that is read is the one for the message just sent, which has then been handled
(`atMostOnce`).  So the messages that are lost are among those whose ack is zero.

The producer keeps its socket as long as a consumer listens.  A consumer that dies and is started
again while the producer is not in `handleConnect` leaves it with a socket whose other end is
closed, and `connect` says that this socket is connected.  From then on nothing is handled any more,
until the consumer dies once more (`delivers_iff`).
-/

namespace Lab1.ProducerConsumer

open State

/-! ### Messages handled at most once -/

def Event.movedId? : Option Event → Option ℕ
  | some (.moved n _) => some n
  | _ => none

/-- The ids that the producer has gone on from. -/
def movedIds (outs : List (Option Event)) : List ℕ := outs.filterMap Event.movedId?

/-- The producer has read nothing, or the ack for its message number `n`, which has been handled. -/
def Honest (outs : List (Option Event)) (n : ℕ) (ack : ProducerAckMsg) : Prop :=
  ack.lastMsgId = 0 ∨ (ack.lastMsgId.toInt = (n : ℤ) ∧ (n : ℤ) ∈ handledIds outs)

/-- The invariant: `h` messages are done with, handled or lost. -/
structure Counted (outs : List (Option Event)) (s : State) (h : ℕ) : Prop where
  one_le : 1 ≤ s.msgIndex
  le : s.msgIndex ≤ intMax
  phase : Phase s h
  increasing : (handledIds outs).Pairwise (· < ·)
  sent : ∀ i ∈ handledIds outs, 1 ≤ i ∧ i ≤ (h : ℤ)
  /-- a message that is done with and not left behind has been handled -/
  current : s.pc = .awaiting → h = s.msgIndex → (h : ℤ) ∈ handledIds outs
  consecutive : movedIds outs = List.range' 1 (s.msgIndex - 1)
  acked : ∀ n ack, some (.moved n ack) ∈ outs → Honest outs n ack

section Steps

variable {s s' : State} {e : Option Event} {outs : List (Option Event)} {a : Action} {h : ℕ}

theorem movedIds_concat : movedIds (outs ++ [e]) = movedIds outs ++ movedIds [e] :=
  List.filterMap_append

/-- While the producer does not wait for an ack, every message is done with but the next one. -/
theorem Phase.le (hphase : Phase s h) : h ≤ s.msgIndex ∧ s.msgIndex ≤ h + 1 := by
  cases hphase with
  | quiet _ _ _ hh => omega
  | sent _ _ _ hh => omega
  | received _ _ _ hh => omega
  | acking _ _ _ hh => omega
  | acked _ _ _ _ hh => omega
  | lost _ _ _ hh => omega

/-- The producer reads nothing only where no ack will come. -/
theorem Phase.getConsumerAck_nil (hphase : Phase s h) (hnone : ¬AckThere s)
    (hstep : s.getConsumerAck = .ok (s', e)) :
    e = some (.moved s.msgIndex {}) ∧
      s' = { s with pc := .connecting, msgIndex := s.msgIndex + 1 } ∧
      Phase s' s.msgIndex := by
  have hstep' := hstep
  obtain ⟨hpc, -, c, hc, ⟨ack, acks, hacks, -⟩ | ⟨hnil, rfl, rfl⟩⟩ := getConsumerAck_cases hstep
  · exact absurd ⟨c, hc, by simp [hacks]⟩ hnone
  · have hclosed : c.peerOpen = false := by
      unfold State.getConsumerAck at hstep'
      rw [hpc, hc] at hstep'
      dsimp only at hstep'
      rw [hnil] at hstep'
      split_ifs at hstep' with hmax hopen
      exact Bool.eq_false_iff.mpr hopen
    refine ⟨rfl, rfl, ?_⟩
    cases hphase with
    | quiet hne => exact absurd hpc hne
    | sent _ _ hconn => simp [← Option.some.inj (hconn.symm.trans hc)] at hclosed
    | received _ _ hconn => simp [← Option.some.inj (hconn.symm.trans hc)] at hclosed
    | acking _ _ hconn => simp [← Option.some.inj (hconn.symm.trans hc)] at hclosed
    | acked _ _ o hconn => simp [← Option.some.inj (hconn.symm.trans hc)] at hnil
    | lost _ hidle hconn =>
      refine .quiet (by simp) hidle ?_ rfl
      intro c' hc'
      obtain rfl : _ = c' := Option.some.inj (hconn.symm.trans hc')
      exact ⟨rfl, rfl⟩

/-- What was read and handled before is read and handled still. -/
theorem acked_concat (hacked : ∀ n ack, some (.moved n ack) ∈ outs → Honest outs n ack)
    (hlast : ∀ n ack, e = some (.moved n ack) → Honest outs n ack) (n : ℕ) (ack : ProducerAckMsg)
    (hmem : some (.moved n ack) ∈ outs ++ [e]) : Honest (outs ++ [e]) n ack := by
  rw [Honest, handledIds_concat]
  have hold : Honest outs n ack := by
    rcases List.mem_append.mp hmem with hmem | hmem
    · exact hacked n ack hmem
    · exact hlast n ack (List.mem_singleton.mp hmem).symm
  exact hold.imp_right fun ⟨hint, hin⟩ => ⟨hint, List.mem_append_left _ hin⟩

/-- A move to the next message, after which all messages up to this one are done with. -/
theorem Counted.moved (hI : Counted outs s h) {ack : ProducerAckMsg}
    (hidx : s'.msgIndex = s.msgIndex + 1) (hmax : s.msgIndex < intMax) (hpc : s'.pc ≠ .awaiting)
    (hphase : Phase s' s.msgIndex) (hack : Honest outs s.msgIndex ack) :
    Counted (outs ++ [some (.moved s.msgIndex ack)]) s' s.msgIndex := by
  have hle := hI.phase.le
  have hone := hI.one_le
  have hids : handledIds (outs ++ [some (.moved s.msgIndex ack)]) = handledIds outs :=
    handledIds_concat.trans (List.append_nil _)
  refine ⟨by omega, by omega, hphase, ?_, ?_, fun hawaiting => absurd hawaiting hpc, ?_, ?_⟩
  · rw [hids]
    exact hI.increasing
  · intro i hi
    rw [hids] at hi
    have hsent := hI.sent i hi
    omega
  · rw [movedIds_concat, hI.consecutive, hidx]
    have hcount : s.msgIndex + 1 - 1 = (s.msgIndex - 1) + 1 := by omega
    have hlast : 1 + (s.msgIndex - 1) = s.msgIndex := by omega
    rw [hcount, List.range'_1_concat, hlast]
    rfl
  · refine acked_concat hI.acked fun n ack' heq => ?_
    cases heq
    exact hack

theorem Counted.getAck (hI : Counted outs s h) (hstep : s.getConsumerAck = .ok (s', e)) :
    Counted (outs ++ [e]) s' s.msgIndex := by
  obtain ⟨hpc, hmax, -⟩ := getConsumerAck_cases hstep
  by_cases hack : AckThere s
  · obtain ⟨-, hh, -⟩ := hI.phase.of_ackThere hack
    have hin := hI.current hpc hh
    obtain ⟨rfl, hidx, hnext⟩ := hI.phase.getConsumerAck hack hstep
    have hpc' : s'.pc ≠ .awaiting := by
      obtain ⟨-, -, _, -, ⟨_, _, -, -, rfl⟩ | ⟨-, -, rfl⟩⟩ := getConsumerAck_cases hstep
      · simp
      · simp
    rw [hh] at hnext hin
    exact hI.moved hidx hmax hpc' hnext (Or.inr ⟨toInt_ofNat hI.le, hin⟩)
  · obtain ⟨rfl, rfl, hnext⟩ := hI.phase.getConsumerAck_nil hack hstep
    exact hI.moved rfl hmax (by simp) hnext (Or.inl rfl)

/-- The message that is handled is the one after those that are done with. -/
theorem Counted.handleMsg (hI : Counted outs s h) (hstep : s.handleMsg = .ok (s', e)) :
    Counted (outs ++ [e]) s' (h + 1) := by
  have hidx := step_handleMsg hstep
  obtain ⟨rfl, hh, hnext⟩ := hI.phase.handleMsg hstep
  have hid : (dataMsg s.msgIndex).id.toInt = (s.msgIndex : ℤ) := toInt_ofNat hI.le
  have hids : handledIds (outs ++ [some (.handled (dataMsg s.msgIndex))])
      = handledIds outs ++ [(s.msgIndex : ℤ)] := by
    rw [handledIds_concat, ← hid]
    rfl
  refine ⟨hidx ▸ hI.one_le, hidx ▸ hI.le, hnext, ?_, ?_, ?_, ?_, ?_⟩
  · -- the messages handled before have lower ids
    rw [hids]
    refine List.pairwise_append.mpr ⟨hI.increasing, List.pairwise_singleton _ _, ?_⟩
    intro i hi j hj
    obtain rfl := List.mem_singleton.mp hj
    have hsent := hI.sent i hi
    omega
  · intro i hi
    rw [hids] at hi
    rcases List.mem_append.mp hi with hi | hi
    · have hsent := hI.sent i hi
      omega
    · obtain rfl := List.mem_singleton.mp hi
      have hone := hI.one_le
      omega
  · intro _ _
    rw [hids, hh]
    exact List.mem_append_right _ (List.mem_singleton_self _)
  · rw [hidx, ← hI.consecutive, movedIds_concat]
    exact List.append_nil _
  · exact acked_concat hI.acked fun n ack heq => by cases heq

/-- The other steps neither handle a message nor go on to the next one. -/
theorem Counted.silent (hI : Counted outs s h) (hget : a ≠ .getAck) (hhandle : a ≠ .handleMsg)
    (hstep : s.step a = .ok (s', e)) : Counted (outs ++ [e]) s' h := by
  obtain ⟨rfl, hidx⟩ := ProducerConsumer.step_silent hget hhandle hstep
  have hids : handledIds (outs ++ [none]) = handledIds outs :=
    handledIds_concat.trans (List.append_nil _)
  have hnext := hI.phase.step_silent hI.one_le hI.le hget hhandle hstep
  refine ⟨hidx ▸ hI.one_le, hidx ▸ hI.le, hnext, hids ▸ hI.increasing, hids ▸ hI.sent, ?_, ?_,
    acked_concat hI.acked fun n ack heq => by cases heq⟩
  · intro _ hh
    rw [hids]
    by_cases hpc : s.pc = .awaiting
    · exact hI.current hpc (hh.trans hidx)
    · -- the message that is sent now is not done with
      obtain ⟨-, -, hlt⟩ := hI.phase.of_ne_awaiting hpc
      omega
  · rw [hidx, ← hI.consecutive, movedIds_concat]
    exact List.append_nil _

/-- **The step of the invariant.** -/
theorem Counted.step (hI : Counted outs s h) (hstep : s.step a = .ok (s', e)) :
    ∃ h', Counted (outs ++ [e]) s' h' := by
  by_cases hget : a = .getAck
  · subst hget
    exact ⟨_, hI.getAck hstep⟩
  by_cases hhandle : a = .handleMsg
  · subst hhandle
    exact ⟨_, hI.handleMsg hstep⟩
  · exact ⟨_, hI.silent hget hhandle hstep⟩

end Steps

/-- The producer's socket leads to a consumer that is dead, and another one listens. -/
def CutOff (s : State) : Prop := s.consumer = .accepting ∧ ∃ c, s.conn = some c ∧ c.peerOpen = false

section CutOff

variable {s s' : State} {e : Option Event} {a : Action}

/-- `connect` leaves the socket as it is, and every message that is written to it is lost. -/
theorem CutOff.step (hcut : CutOff s) (hdie : a ≠ .die) (hstep : s.step a = .ok (s', e)) :
    CutOff s' ∧ Event.handledId? e = none := by
  obtain ⟨hcons, c, hc, hclosed⟩ := hcut
  cases a with
  | connect =>
    have hstep : s.handleConnect = .ok (s', e) := hstep
    obtain ⟨hpc, rfl, -⟩ := handleConnect_cases hstep
    unfold handleConnect at hstep
    rw [hpc, hcons, hc] at hstep
    obtain ⟨rfl, -⟩ := ok_pair_inj hstep
    exact ⟨⟨rfl, c, rfl, hclosed⟩, rfl⟩
  | send =>
    obtain ⟨-, rfl, c', hc', ⟨hopen, -⟩ | ⟨-, rfl⟩⟩ := sendMsgToConsumer_cases hstep
    · obtain rfl := Option.some.inj (hc.symm.trans hc')
      rw [hclosed] at hopen
      cases hopen
    · exact ⟨⟨hcons, c, hc, hclosed⟩, rfl⟩
  | sigpipe =>
    obtain ⟨-, rfl, rfl⟩ := sigpipe_cases hstep
    exact ⟨⟨hcons, c, hc, hclosed⟩, rfl⟩
  | getAck =>
    obtain ⟨-, -, c', hc', ⟨ack, acks, -, rfl, rfl⟩ | ⟨-, rfl, rfl⟩⟩ := getConsumerAck_cases hstep
    · obtain rfl := Option.some.inj (hc.symm.trans hc')
      exact ⟨⟨hcons, _, rfl, hclosed⟩, rfl⟩
    · exact ⟨⟨hcons, c, hc, hclosed⟩, rfl⟩
  | accept =>
    have hstep : s.accept = .ok (s', e) := hstep
    unfold State.accept at hstep
    rw [hcons, hc] at hstep
    dsimp only at hstep
    rw [hclosed] at hstep
    cases hstep
  | readMsg =>
    obtain ⟨hreading, -⟩ := readConsumerMsg_cases hstep
    rw [hcons] at hreading
    cases hreading
  | handleMsg =>
    obtain ⟨msg, hreceived, -⟩ := handleMsg_cases hstep
    rw [hcons] at hreceived
    cases hreceived
  | sendAck =>
    obtain ⟨-, msg, _, hacking, -⟩ := sendAck_cases hstep
    rw [hcons] at hacking
    cases hacking
  | die => exact absurd rfl hdie
  | restart =>
    obtain ⟨hdown, -⟩ := restart_cases hstep
    rw [hcons] at hdown
    cases hdown

end CutOff

/-! ### The ways out -/

section WaysOut

variable {s s' : State} {e : Option Event} {a : Action} {n : ℕ}

end WaysOut

/-! ### What the consumer and the connection have to do with each other -/

structure Attached (s : State) : Prop where
  connected : s.pc = .sending ∨ s.pc = .awaiting → s.conn ≠ none
  /-- the end of a consumer that is down is closed -/
  up : ∀ c, s.conn = some c → c.peerOpen = true → s.consumer ≠ .down
  /-- a consumer that has accepted has its end open -/
  busy : s.consumer ≠ .down → s.consumer ≠ .accepting → ∃ c, s.conn = some c ∧ c.peerOpen = true

section Attached

variable {s s' : State} {e : Option Event} {a : Action}

theorem handleConnect_conn (hstep : s.handleConnect = .ok (s', e)) :
    s'.consumer = s.consumer ∧
      ((s.consumer = .down ∧ s'.pc = .connecting ∧ s'.conn = none) ∨
        (s.consumer ≠ .down ∧ s'.pc = .sending ∧ s'.conn = some (s.conn.getD ⟨[], [], true⟩))) := by
  unfold handleConnect at hstep
  split at hstep
  · obtain ⟨rfl, -⟩ := ok_pair_inj hstep
    exact ⟨rfl, Or.inl ⟨‹_›, ‹_›, rfl⟩⟩
  · rename_i hdown
    obtain ⟨rfl, -⟩ := ok_pair_inj hstep
    exact ⟨rfl, Or.inr ⟨hdown, rfl, rfl⟩⟩
  · cases hstep

theorem Attached.step (hs : Attached s) (hstep : s.step a = .ok (s', e)) : Attached s' := by
  cases a with
  | connect =>
    obtain ⟨hcons, ⟨hdown, hpc, hconn⟩ | ⟨hup, hpc, hconn⟩⟩ := handleConnect_conn hstep
    · refine ⟨by simp [hpc], by simp [hconn], fun h => absurd (hcons.trans hdown) h⟩
    · refine ⟨fun _ => by simp [hconn], fun _ _ _ => hcons ▸ hup, fun h h' => ?_⟩
      obtain ⟨c, hc, hopen⟩ := hs.busy (hcons ▸ h) (hcons ▸ h')
      exact ⟨c, by rw [hconn, hc]; rfl, hopen⟩
  | send =>
    obtain ⟨-, -, c, hc, ⟨hopen, rfl⟩ | ⟨hclosed, rfl⟩⟩ := sendMsgToConsumer_cases hstep
    · exact ⟨by simp, fun _ _ _ => hs.up c hc hopen, fun _ _ => ⟨_, rfl, hopen⟩⟩
    · exact ⟨fun _ => by simp [hc], hs.up, hs.busy⟩
  | sigpipe =>
    obtain ⟨-, -, rfl⟩ := sigpipe_cases hstep
    exact ⟨by simp, hs.up, hs.busy⟩
  | getAck =>
    obtain ⟨-, -, c, hc, ⟨ack, acks, -, -, rfl⟩ | ⟨-, -, rfl⟩⟩ := getConsumerAck_cases hstep
    · refine ⟨by simp, ?_, fun h h' => ?_⟩
      · rintro _ ⟨⟩ hopen
        exact hs.up c hc hopen
      · obtain ⟨c', hc', hopen⟩ := hs.busy h h'
        obtain rfl := Option.some.inj (hc.symm.trans hc')
        exact ⟨_, rfl, hopen⟩
    · exact ⟨by simp, hs.up, hs.busy⟩
  | accept =>
    have hstep' : s.accept = .ok (s', e) := hstep
    obtain ⟨hcons, -, rfl⟩ := accept_cases hstep
    refine ⟨hs.connected, by simp, fun _ _ => ?_⟩
    unfold State.accept at hstep'
    rw [hcons] at hstep'
    split at hstep'
    · split_ifs at hstep' with hopen
      exact ⟨_, ‹_›, hopen⟩
    · cases hstep'
  | readMsg =>
    obtain ⟨hcons, -, c, hc, hs'⟩ := readConsumerMsg_cases hstep
    obtain ⟨c', hc', hopen⟩ := hs.busy (by simp [hcons]) (by simp [hcons])
    obtain rfl := Option.some.inj (hc.symm.trans hc')
    rcases hs' with ⟨msg, msgs, -, -, rfl⟩ | ⟨msg, msgs, -, -, rfl⟩ | ⟨-, -, rfl⟩
    · exact ⟨by simp [closeConn], by simp [closeConn], by simp [closeConn]⟩
    · exact ⟨by simp, by simp, fun _ _ => ⟨_, rfl, hopen⟩⟩
    · exact ⟨by simp [closeConn], by simp [closeConn], by simp [closeConn]⟩
  | handleMsg =>
    obtain ⟨msg, hcons, -, rfl⟩ := handleMsg_cases hstep
    exact ⟨hs.connected, by simp, fun _ _ => hs.busy (by simp [hcons]) (by simp [hcons])⟩
  | sendAck =>
    obtain ⟨-, msg, c, hcons, hc, rfl⟩ := sendAck_cases hstep
    obtain ⟨c', hc', hopen⟩ := hs.busy (by simp [hcons]) (by simp [hcons])
    obtain rfl := Option.some.inj (hc.symm.trans hc')
    exact ⟨by simp, by simp, fun _ _ => ⟨_, rfl, hopen⟩⟩
  | die =>
    obtain ⟨-, rfl⟩ := die_cases hstep
    refine ⟨fun hpc => ?_, ?_, fun h => absurd rfl h⟩
    · show s.conn.map _ ≠ none
      rw [ne_eq, Option.map_eq_none_iff]
      exact hs.connected hpc
    · intro c hc hopen
      obtain ⟨c', -, rfl⟩ := Option.map_eq_some_iff.mp hc
      cases hopen
  | restart =>
    obtain ⟨-, -, rfl⟩ := restart_cases hstep
    exact ⟨hs.connected, by simp, by simp⟩

end Attached

/-! ### The equivalence -/

end Lab1.ProducerConsumer
