import Lab1.ProducerConsumer.Tasks
import Mathlib.Data.List.Range

/-!
# Acks and lost messages

After it has sent a message the producer reads an ack and goes on to the next id, whatever it has
read.  When the consumer has died meanwhile, it reads the end of the stream, and the ack that
nothing was read into counts as one.

While every such `read` finds an ack, messages and acks keep in step (`Phase`): what is in flight is
the current message or its ack, and never both.  `neverSkips_iff` says that this is all it takes.
-/

namespace Lab1.ProducerConsumer

open State

/-! ### The property -/

def Event.handledId? : Option Event → Option ℤ
  | some (.handled msg) => some msg.id.toInt
  | _ => none

/-- The ids of the messages handled, by all consumers one after the other. -/
def handledIds (outs : List (Option Event)) : List ℤ := outs.filterMap Event.handledId?

/-- In a run with these events the producer goes on only after the ack for its message, and the ids
handled are `1, 2, 3, …`. -/
structure NeverSkips (outs : List (Option Event)) : Prop where
  moves : ∀ (n : ℕ) ack, some (.moved n ack) ∈ outs → ack.lastMsgId.toInt = (n : ℤ)
  noGap : ∃ k, handledIds outs = (List.range' 1 k).map fun i : ℕ => (i : ℤ)

/-- An ack can be read. -/
def AckThere (s : State) : Prop := ∃ c, s.conn = some c ∧ c.toProducer ≠ []

/-! ### What is in flight -/

/-- The consumer holds no message. -/
def Consumer.Idle : Consumer → Prop
  | .received _ => False
  | .acking _ => False
  | _ => True

/-- The states that a run can be in when `h` messages are handled. -/
inductive Phase (s : State) (h : ℕ) : Prop where
  /-- nothing is in flight -/
  | quiet (hpc : s.pc ≠ .awaiting) (hidle : s.consumer.Idle)
      (hconn : ∀ c, s.conn = some c → c.toConsumer = [] ∧ c.toProducer = [])
      (hh : h + 1 = s.msgIndex)
  /-- the consumer has not read the message -/
  | sent (hpc : s.pc = .awaiting) (hidle : s.consumer.Idle)
      (hconn : s.conn = some ⟨[dataMsg s.msgIndex], [], true⟩) (hh : h + 1 = s.msgIndex)
  /-- the consumer has read the message and not handled it -/
  | received (hpc : s.pc = .awaiting) (hcons : s.consumer = .received (dataMsg s.msgIndex))
      (hconn : s.conn = some ⟨[], [], true⟩) (hh : h + 1 = s.msgIndex)
  /-- the consumer has handled the message -/
  | acking (hpc : s.pc = .awaiting) (hcons : s.consumer = .acking (dataMsg s.msgIndex))
      (hconn : s.conn = some ⟨[], [], true⟩) (hh : h = s.msgIndex)
  /-- the producer has not read the ack -/
  | acked (hpc : s.pc = .awaiting) (hidle : s.consumer.Idle) (o : Bool)
      (hconn : s.conn = some ⟨[], [⟨Int32.ofNat s.msgIndex⟩], o⟩) (hh : h = s.msgIndex)
  /-- no ack will come -/
  | lost (hpc : s.pc = .awaiting) (hidle : s.consumer.Idle)
      (hconn : s.conn = some ⟨[], [], false⟩) (hh : h + 1 = s.msgIndex ∨ h = s.msgIndex)

/-- The invariant of the runs in which every `read` of an ack finds one. -/
structure InStep (outs : List (Option Event)) (s : State) : Prop where
  one_le : 1 ≤ s.msgIndex
  le : s.msgIndex ≤ intMax
  moves : ∀ (n : ℕ) ack, some (.moved n ack) ∈ outs → ack.lastMsgId.toInt = (n : ℤ)
  phase : ∃ h, handledIds outs = ((List.range' 1 h).map fun i : ℕ => (i : ℤ)) ∧ Phase s h

theorem toInt_ofNat {n : ℕ} (hn : n ≤ intMax) : (Int32.ofNat n).toInt = n := by
  have hmax : intMax = 2147483647 := rfl
  exact Int32.toInt_ofNat_of_lt (by omega)

theorem id_dataMsg_ne_zero {n : ℕ} (h1 : 1 ≤ n) (hn : n ≤ intMax) : (dataMsg n).id ≠ 0 := by
  intro hzero
  have hint : (n : ℤ) = 0 := by
    rw [← toInt_ofNat hn, show Int32.ofNat n = 0 from hzero]
    rfl
  omega

/-! ### What the calls do -/

section Calls

variable {s s' : State} {e : Option Event} {h : ℕ}

theorem handleConnect_cases (hstep : s.handleConnect = .ok (s', e)) :
    s.pc = .connecting ∧ e = none ∧ (s' = { s with conn := none } ∨
      s' = { s with conn := some (s.conn.getD ⟨[], [], true⟩), pc := .sending }) := by
  unfold handleConnect at hstep
  split at hstep
  · obtain ⟨rfl, rfl⟩ := ok_pair_inj hstep
    exact ⟨‹_›, rfl, Or.inl rfl⟩
  · obtain ⟨rfl, rfl⟩ := ok_pair_inj hstep
    exact ⟨‹_›, rfl, Or.inr rfl⟩
  · cases hstep

theorem sendMsgToConsumer_cases (hstep : s.sendMsgToConsumer = .ok (s', e)) :
    s.pc = .sending ∧ e = none ∧ ∃ c, s.conn = some c ∧
      ((c.peerOpen = true ∧ s' = { s with
          conn := some { c with toConsumer := c.toConsumer ++ [dataMsg s.msgIndex] }
          pc := .awaiting }) ∨
        (c.peerOpen = false ∧ s' = { s with pc := .awaiting })) := by
  unfold sendMsgToConsumer at hstep
  split at hstep
  · split_ifs at hstep with hopen
    · obtain ⟨rfl, rfl⟩ := ok_pair_inj hstep
      exact ⟨‹_›, rfl, _, ‹_›, Or.inl ⟨hopen, rfl⟩⟩
    · obtain ⟨rfl, rfl⟩ := ok_pair_inj hstep
      exact ⟨‹_›, rfl, _, ‹_›, Or.inr ⟨Bool.eq_false_iff.mpr hopen, rfl⟩⟩
  · cases hstep

theorem sigpipe_cases (hstep : s.sigpipe = .ok (s', e)) :
    s.pc = .sending ∧ e = none ∧ s' = { s with pc := .killed } := by
  unfold sigpipe at hstep
  split at hstep
  · split_ifs at hstep with hopen
    obtain ⟨rfl, rfl⟩ := ok_pair_inj hstep
    exact ⟨‹_›, rfl, rfl⟩
  · cases hstep

/-- The producer goes on in any case. -/
theorem getConsumerAck_cases (hstep : s.getConsumerAck = .ok (s', e)) :
    s.pc = .awaiting ∧ s.msgIndex < intMax ∧ ∃ c, s.conn = some c ∧
      ((∃ ack acks, c.toProducer = ack :: acks ∧ e = some (.moved s.msgIndex ack) ∧ s' = { s with
          conn := some { c with toProducer := acks }
          pc := .connecting
          msgIndex := s.msgIndex + 1 }) ∨
        (c.toProducer = [] ∧ e = some (.moved s.msgIndex {}) ∧
          s' = { s with pc := .connecting, msgIndex := s.msgIndex + 1 })) := by
  unfold getConsumerAck at hstep
  split at hstep
  · split at hstep
    · rename_i hmax
      split at hstep
      · obtain ⟨rfl, rfl⟩ := ok_pair_inj hstep
        exact ⟨‹_›, hmax, _, ‹_›, Or.inl ⟨_, _, ‹_›, rfl, rfl⟩⟩
      · split_ifs at hstep with hopen
        obtain ⟨rfl, rfl⟩ := ok_pair_inj hstep
        exact ⟨‹_›, hmax, _, ‹_›, Or.inr ⟨‹_›, rfl, rfl⟩⟩
    · cases hstep
  · cases hstep

theorem accept_cases (hstep : s.accept = .ok (s', e)) :
    s.consumer = .accepting ∧ e = none ∧ s' = { s with consumer := .reading } := by
  unfold accept at hstep
  split at hstep
  · split_ifs at hstep with hopen
    obtain ⟨rfl, rfl⟩ := ok_pair_inj hstep
    exact ⟨‹_›, rfl, rfl⟩
  · cases hstep

theorem readConsumerMsg_cases (hstep : s.readConsumerMsg = .ok (s', e)) :
    s.consumer = .reading ∧ e = none ∧ ∃ c, s.conn = some c ∧
      ((∃ msg msgs, c.toConsumer = msg :: msgs ∧ msg.id = 0 ∧ s' = s.closeConn c) ∨
        (∃ msg msgs, c.toConsumer = msg :: msgs ∧ msg.id ≠ 0 ∧ s' = { s with
          conn := some { c with toConsumer := msgs }, consumer := .received msg }) ∨
        (c.toConsumer = [] ∧ s.pc = .killed ∧ s' = s.closeConn c)) := by
  unfold readConsumerMsg at hstep
  split at hstep
  · split at hstep
    · split_ifs at hstep with hid
      · obtain ⟨rfl, rfl⟩ := ok_pair_inj hstep
        exact ⟨‹_›, rfl, _, ‹_›, Or.inl ⟨_, _, ‹_›, hid, rfl⟩⟩
      · obtain ⟨rfl, rfl⟩ := ok_pair_inj hstep
        exact ⟨‹_›, rfl, _, ‹_›, Or.inr (Or.inl ⟨_, _, ‹_›, hid, rfl⟩)⟩
    · split_ifs at hstep with hkilled
      obtain ⟨rfl, rfl⟩ := ok_pair_inj hstep
      exact ⟨‹_›, rfl, _, ‹_›, Or.inr (Or.inr ⟨‹_›, hkilled, rfl⟩)⟩
  · cases hstep

theorem handleMsg_cases (hstep : s.handleMsg = .ok (s', e)) :
    ∃ msg, s.consumer = .received msg ∧ e = some (.handled msg) ∧
      s' = { s with consumer := .acking msg } := by
  unfold handleMsg at hstep
  split at hstep
  · obtain ⟨rfl, rfl⟩ := ok_pair_inj hstep
    exact ⟨_, ‹_›, rfl, rfl⟩
  · cases hstep

theorem sendAck_cases (hstep : s.sendAck = .ok (s', e)) :
    e = none ∧ ∃ msg c, s.consumer = .acking msg ∧ s.conn = some c ∧ s' = { s with
      conn := some { c with toProducer := c.toProducer ++ [⟨msg.id⟩] }
      consumer := .reading } := by
  unfold sendAck at hstep
  split at hstep
  · obtain ⟨rfl, rfl⟩ := ok_pair_inj hstep
    exact ⟨rfl, _, _, ‹_›, ‹_›, rfl⟩
  · cases hstep

theorem die_cases (hstep : s.die = .ok (s', e)) :
    e = none ∧ s' = { s with
      conn := s.conn.map fun c => { c with toConsumer := [], peerOpen := false }
      consumer := .down } := by
  unfold die at hstep
  split_ifs at hstep with hdown
  obtain ⟨rfl, rfl⟩ := ok_pair_inj hstep
  exact ⟨rfl, rfl⟩

theorem restart_cases (hstep : s.restart = .ok (s', e)) :
    s.consumer = .down ∧ e = none ∧ s' = { s with consumer := .accepting } := by
  unfold restart at hstep
  split_ifs at hstep with hdown
  obtain ⟨rfl, rfl⟩ := ok_pair_inj hstep
  exact ⟨hdown, rfl, rfl⟩

end Calls

/-! ### One call -/

section Phases

variable {s s' : State} {e : Option Event} {h : ℕ}

theorem Phase.of_ne_awaiting (hphase : Phase s h) (hpc : s.pc ≠ .awaiting) :
    s.consumer.Idle ∧ (∀ c, s.conn = some c → c.toConsumer = [] ∧ c.toProducer = []) ∧
      h + 1 = s.msgIndex := by
  cases hphase with
  | quiet _ hidle hconn hh => exact ⟨hidle, hconn, hh⟩
  | sent hawaiting => exact absurd hawaiting hpc
  | received hawaiting => exact absurd hawaiting hpc
  | acking hawaiting => exact absurd hawaiting hpc
  | acked hawaiting => exact absurd hawaiting hpc
  | lost hawaiting => exact absurd hawaiting hpc

/-- A consumer without a message may turn to anything else that is none. -/
theorem Phase.withConsumer {k : Consumer} (hphase : Phase s h) (hidle : s.consumer.Idle)
    (hk : k.Idle) : Phase { s with consumer := k } h := by
  cases hphase with
  | quiet hpc _ hconn hh => exact .quiet hpc hk hconn hh
  | sent hpc _ hconn hh => exact .sent hpc hk hconn hh
  | received _ hcons => simp [hcons, Consumer.Idle] at hidle
  | acking _ hcons => simp [hcons, Consumer.Idle] at hidle
  | acked hpc _ o hconn hh => exact .acked hpc hk o hconn hh
  | lost hpc _ hconn hh => exact .lost hpc hk hconn hh

theorem Phase.handleConnect (hphase : Phase s h) (hstep : s.handleConnect = .ok (s', e)) :
    Phase s' h := by
  obtain ⟨hpc, -, hs'⟩ := handleConnect_cases hstep
  obtain ⟨hidle, hconn, hh⟩ := hphase.of_ne_awaiting (by simp [hpc])
  rcases hs' with rfl | rfl
  · exact .quiet (by simp [hpc]) hidle (by simp) hh
  · refine .quiet (by simp) hidle ?_ hh
    intro c hc
    cases hold : s.conn with
    | none =>
      rw [hold] at hc
      cases hc
      exact ⟨rfl, rfl⟩
    | some c' =>
      rw [hold] at hc
      cases hc
      exact hconn c' hold

theorem Phase.sendMsgToConsumer (hphase : Phase s h)
    (hstep : s.sendMsgToConsumer = .ok (s', e)) : Phase s' h := by
  obtain ⟨hpc, -, c, hc, hs'⟩ := sendMsgToConsumer_cases hstep
  obtain ⟨hidle, hconn, hh⟩ := hphase.of_ne_awaiting (by simp [hpc])
  obtain ⟨toConsumer, toProducer, peerOpen⟩ := c
  obtain ⟨rfl, rfl⟩ := hconn _ hc
  rcases hs' with ⟨rfl, rfl⟩ | ⟨rfl, rfl⟩
  · exact .sent rfl hidle rfl hh
  · exact .lost rfl hidle hc (Or.inl hh)

theorem Phase.sigpipe (hphase : Phase s h) (hstep : s.sigpipe = .ok (s', e)) : Phase s' h := by
  obtain ⟨hpc, -, rfl⟩ := sigpipe_cases hstep
  obtain ⟨hidle, hconn, hh⟩ := hphase.of_ne_awaiting (by simp [hpc])
  exact .quiet (by simp) hidle hconn hh

/-- An ack that is there is the one for the current message. -/
theorem Phase.of_ackThere (hphase : Phase s h) (hack : AckThere s) :
    s.consumer.Idle ∧ h = s.msgIndex ∧
      ∃ o, s.conn = some ⟨[], [⟨Int32.ofNat s.msgIndex⟩], o⟩ := by
  obtain ⟨c, hc, hne⟩ := hack
  cases hphase with
  | quiet _ _ hconn => exact absurd (hconn c hc).2 hne
  | sent _ _ hconn => simp [← Option.some.inj (hconn.symm.trans hc)] at hne
  | received _ _ hconn => simp [← Option.some.inj (hconn.symm.trans hc)] at hne
  | acking _ _ hconn => simp [← Option.some.inj (hconn.symm.trans hc)] at hne
  | lost _ _ hconn => simp [← Option.some.inj (hconn.symm.trans hc)] at hne
  | acked _ hidle o hconn hh => exact ⟨hidle, hh, o, hconn⟩

theorem Phase.getConsumerAck (hphase : Phase s h) (hack : AckThere s)
    (hstep : s.getConsumerAck = .ok (s', e)) :
    e = some (.moved s.msgIndex ⟨Int32.ofNat s.msgIndex⟩) ∧ s'.msgIndex = s.msgIndex + 1 ∧
      Phase s' h := by
  obtain ⟨hidle, hh, o, hconn⟩ := hphase.of_ackThere hack
  obtain ⟨-, -, c, hc, hs'⟩ := getConsumerAck_cases hstep
  obtain rfl : c = ⟨[], [⟨Int32.ofNat s.msgIndex⟩], o⟩ := Option.some.inj (hc.symm.trans hconn)
  rcases hs' with ⟨ack, acks, hacks, rfl, rfl⟩ | ⟨hnil, -⟩
  · obtain ⟨rfl, rfl⟩ := List.cons.inj hacks
    refine ⟨rfl, rfl, .quiet (by simp) hidle ?_ (by simp [hh])⟩
    intro c hc
    cases hc
    exact ⟨rfl, rfl⟩
  · simp at hnil

theorem Phase.accept (hphase : Phase s h) (hstep : s.accept = .ok (s', e)) : Phase s' h := by
  obtain ⟨hcons, -, rfl⟩ := accept_cases hstep
  exact hphase.withConsumer (by simp [hcons, Consumer.Idle]) trivial

theorem Phase.restart (hphase : Phase s h) (hstep : s.restart = .ok (s', e)) : Phase s' h := by
  obtain ⟨hcons, -, rfl⟩ := restart_cases hstep
  exact hphase.withConsumer (by simp [hcons, Consumer.Idle]) trivial

theorem Phase.readConsumerMsg (hphase : Phase s h) (h1 : 1 ≤ s.msgIndex)
    (hmax : s.msgIndex ≤ intMax)
    (hstep : s.readConsumerMsg = .ok (s', e)) : Phase s' h := by
  obtain ⟨hcons, -, c, hc, hs'⟩ := readConsumerMsg_cases hstep
  cases hphase with
  | quiet hpc _ hconn hh =>
    obtain ⟨hnil, hnil'⟩ := hconn c hc
    rcases hs' with ⟨msg, msgs, hmsgs, -⟩ | ⟨msg, msgs, hmsgs, -⟩ | ⟨-, -, rfl⟩
    · simp [hnil] at hmsgs
    · simp [hnil] at hmsgs
    · refine .quiet hpc trivial ?_ hh
      rintro c' hc'
      cases hc'
      exact ⟨rfl, hnil'⟩
  | sent hpc _ hconn hh =>
    obtain rfl : c = ⟨[dataMsg s.msgIndex], [], true⟩ := Option.some.inj (hc.symm.trans hconn)
    rcases hs' with ⟨msg, msgs, hmsgs, hzero, -⟩ | ⟨msg, msgs, hmsgs, -, rfl⟩ | ⟨hnil, -⟩
    · obtain ⟨rfl, rfl⟩ := List.cons.inj hmsgs
      exact absurd hzero (id_dataMsg_ne_zero h1 hmax)
    · obtain ⟨rfl, rfl⟩ := List.cons.inj hmsgs
      exact .received hpc rfl rfl hh
    · simp at hnil
  | received _ hnot => simp [hcons] at hnot
  | acking _ hnot => simp [hcons] at hnot
  | acked hpc _ o hconn =>
    obtain rfl : c = ⟨[], [⟨Int32.ofNat s.msgIndex⟩], o⟩ := Option.some.inj (hc.symm.trans hconn)
    simp [hpc] at hs'
  | lost hpc _ hconn =>
    obtain rfl : c = ⟨[], [], false⟩ := Option.some.inj (hc.symm.trans hconn)
    simp [hpc] at hs'

theorem Phase.handleMsg (hphase : Phase s h) (hstep : s.handleMsg = .ok (s', e)) :
    e = some (.handled (dataMsg s.msgIndex)) ∧ h + 1 = s.msgIndex ∧ Phase s' (h + 1) := by
  obtain ⟨msg, hcons, rfl, rfl⟩ := handleMsg_cases hstep
  cases hphase with
  | quiet _ hidle => simp [hcons, Consumer.Idle] at hidle
  | sent _ hidle => simp [hcons, Consumer.Idle] at hidle
  | received hpc hmsg hconn hh =>
    obtain rfl : msg = dataMsg s.msgIndex := Consumer.received.inj (hcons.symm.trans hmsg)
    exact ⟨rfl, hh, .acking hpc rfl hconn hh⟩
  | acking _ hmsg => simp [hcons] at hmsg
  | acked _ hidle => simp [hcons, Consumer.Idle] at hidle
  | lost _ hidle => simp [hcons, Consumer.Idle] at hidle

theorem Phase.sendAck (hphase : Phase s h) (hstep : s.sendAck = .ok (s', e)) : Phase s' h := by
  obtain ⟨-, msg, c, hcons, hc, rfl⟩ := sendAck_cases hstep
  cases hphase with
  | quiet _ hidle => simp [hcons, Consumer.Idle] at hidle
  | sent _ hidle => simp [hcons, Consumer.Idle] at hidle
  | received _ hmsg => simp [hcons] at hmsg
  | acking hpc hmsg hconn hh =>
    obtain rfl : msg = dataMsg s.msgIndex := Consumer.acking.inj (hcons.symm.trans hmsg)
    obtain rfl : c = ⟨[], [], true⟩ := Option.some.inj (hc.symm.trans hconn)
    exact .acked hpc trivial true rfl hh
  | acked _ hidle => simp [hcons, Consumer.Idle] at hidle
  | lost _ hidle => simp [hcons, Consumer.Idle] at hidle

/-- What the dying consumer has not read or not acknowledged is lost; its ack is not. -/
theorem Phase.die (hphase : Phase s h) (hstep : s.die = .ok (s', e)) : Phase s' h := by
  obtain ⟨-, rfl⟩ := die_cases hstep
  cases hphase with
  | quiet hpc _ hconn hh =>
    refine .quiet hpc trivial ?_ hh
    intro c hc
    obtain ⟨c', hc', rfl⟩ := Option.map_eq_some_iff.mp hc
    exact ⟨rfl, (hconn c' hc').2⟩
  | sent hpc _ hconn hh => exact .lost hpc trivial (by simp [hconn]) (Or.inl hh)
  | received hpc _ hconn hh => exact .lost hpc trivial (by simp [hconn]) (Or.inl hh)
  | acking hpc _ hconn hh => exact .lost hpc trivial (by simp [hconn]) (Or.inr hh)
  | acked hpc _ o hconn hh => exact .acked hpc trivial false (by simp [hconn]) hh
  | lost hpc _ hconn hh => exact .lost hpc trivial (by simp [hconn]) hh

end Phases

/-! ### Runs -/

section Runs

variable {s s' : State} {e : Option Event} {outs : List (Option Event)} {a : Action}

/-- Only two of the calls have an event, and only one changes the id. -/
theorem step_silent (hget : a ≠ .getAck) (hhandle : a ≠ .handleMsg)
    (hstep : s.step a = .ok (s', e)) : e = none ∧ s'.msgIndex = s.msgIndex := by
  cases a with
  | connect =>
    obtain ⟨-, rfl, rfl | rfl⟩ := handleConnect_cases hstep
    · exact ⟨rfl, rfl⟩
    · exact ⟨rfl, rfl⟩
  | send =>
    obtain ⟨-, rfl, _, -, ⟨-, rfl⟩ | ⟨-, rfl⟩⟩ := sendMsgToConsumer_cases hstep
    · exact ⟨rfl, rfl⟩
    · exact ⟨rfl, rfl⟩
  | sigpipe =>
    obtain ⟨-, rfl, rfl⟩ := sigpipe_cases hstep
    exact ⟨rfl, rfl⟩
  | getAck => exact absurd rfl hget
  | accept =>
    obtain ⟨-, rfl, rfl⟩ := accept_cases hstep
    exact ⟨rfl, rfl⟩
  | readMsg =>
    obtain ⟨-, rfl, c, -, hs'⟩ := readConsumerMsg_cases hstep
    refine ⟨rfl, ?_⟩
    rcases hs' with ⟨_, _, -, -, rfl⟩ | ⟨_, _, -, -, rfl⟩ | ⟨-, -, rfl⟩ <;> rfl
  | handleMsg => exact absurd rfl hhandle
  | sendAck =>
    obtain ⟨rfl, _, _, -, -, rfl⟩ := sendAck_cases hstep
    exact ⟨rfl, rfl⟩
  | die =>
    obtain ⟨rfl, rfl⟩ := die_cases hstep
    exact ⟨rfl, rfl⟩
  | restart =>
    obtain ⟨-, rfl, rfl⟩ := restart_cases hstep
    exact ⟨rfl, rfl⟩

theorem step_handleMsg (hstep : s.step .handleMsg = .ok (s', e)) : s'.msgIndex = s.msgIndex := by
  obtain ⟨msg, -, -, rfl⟩ := handleMsg_cases hstep
  rfl

/-- The silent calls keep the phase. -/
theorem Phase.step_silent {h : ℕ} (hphase : Phase s h) (h1 : 1 ≤ s.msgIndex)
    (hmax : s.msgIndex ≤ intMax) (hget : a ≠ .getAck) (hhandle : a ≠ .handleMsg)
    (hstep : s.step a = .ok (s', e)) : Phase s' h := by
  cases a with
  | connect => exact hphase.handleConnect hstep
  | send => exact hphase.sendMsgToConsumer hstep
  | sigpipe => exact hphase.sigpipe hstep
  | getAck => exact absurd rfl hget
  | accept => exact hphase.accept hstep
  | readMsg => exact hphase.readConsumerMsg h1 hmax hstep
  | handleMsg => exact absurd rfl hhandle
  | sendAck => exact hphase.sendAck hstep
  | die => exact hphase.die hstep
  | restart => exact hphase.restart hstep

theorem mem_moves_concat {n : ℕ} {ack : ProducerAckMsg}
    (hmoves : ∀ (n : ℕ) ack, some (.moved n ack) ∈ outs → ack.lastMsgId.toInt = (n : ℤ))
    (hlast : e = some (.moved n ack) → ack.lastMsgId.toInt = (n : ℤ))
    (hmem : some (.moved n ack) ∈ outs ++ [e]) : ack.lastMsgId.toInt = (n : ℤ) := by
  rcases List.mem_append.mp hmem with hmem | hmem
  · exact hmoves n ack hmem
  · exact hlast (List.mem_singleton.mp hmem).symm

theorem handledIds_concat : handledIds (outs ++ [e]) = handledIds outs ++ handledIds [e] :=
  List.filterMap_append

theorem InStep.start : InStep [] State.start where
  one_le := le_rfl
  le := by decide
  moves := by simp
  phase := ⟨0, rfl, .quiet (by decide) trivial (by simp [State.start]) rfl⟩

/-- **The step of the invariant.** -/
theorem InStep.step (hI : InStep outs s) (hack : a = .getAck → AckThere s)
    (hstep : s.step a = .ok (s', e)) : InStep (outs ++ [e]) s' := by
  obtain ⟨h, hids, hphase⟩ := hI.phase
  by_cases hget : a = .getAck
  · subst hget
    obtain ⟨-, hmax, -⟩ := getConsumerAck_cases hstep
    obtain ⟨rfl, hidx, hnext⟩ := hphase.getConsumerAck (hack rfl) hstep
    refine ⟨?_, ?_, fun n ack => mem_moves_concat hI.moves ?_, h, ?_, hnext⟩
    · omega
    · omega
    · intro hlast
      cases hlast
      exact toInt_ofNat hI.le
    · rw [handledIds_concat, hids]
      exact List.append_nil _
  by_cases hhandle : a = .handleMsg
  · subst hhandle
    have hidx := step_handleMsg hstep
    obtain ⟨rfl, hh, hnext⟩ := hphase.handleMsg hstep
    refine ⟨hidx ▸ hI.one_le, hidx ▸ hI.le, fun n ack => mem_moves_concat hI.moves (by simp),
      h + 1, ?_, hnext⟩
    rw [handledIds_concat, hids, List.range'_1_concat, List.map_append]
    have hid : (dataMsg s.msgIndex).id.toInt = ((1 + h : ℕ) : ℤ) := by
      rw [Nat.add_comm, hh]
      exact toInt_ofNat hI.le
    exact congrArg _ (congrArg (fun i => [i]) hid)
  · obtain ⟨rfl, hidx⟩ := ProducerConsumer.step_silent hget hhandle hstep
    refine ⟨hidx ▸ hI.one_le, hidx ▸ hI.le, fun n ack => mem_moves_concat hI.moves (by simp),
      h, ?_, hphase.step_silent hI.one_le hI.le hget hhandle hstep⟩
    rw [handledIds_concat, hids]
    exact List.append_nil _

theorem msgIndex_le_of_step (hstep : s.step a = .ok (s', e)) : s.msgIndex ≤ s'.msgIndex := by
  by_cases hget : a = .getAck
  · subst hget
    obtain ⟨-, -, c, -, ⟨_, _, -, -, rfl⟩ | ⟨-, -, rfl⟩⟩ := getConsumerAck_cases hstep
    · exact Nat.le_succ _
    · exact Nat.le_succ _
  by_cases hhandle : a = .handleMsg
  · subst hhandle
    exact (step_handleMsg hstep).ge
  · exact (ProducerConsumer.step_silent hget hhandle hstep).2.ge

theorem one_le_msgIndex {acts : List Action}
    (hrun : exec State.step State.start acts = .ok (s, outs)) :
    1 ≤ s.msgIndex :=
  exec_invariant (fun _ s => 1 ≤ s.msgIndex)
    (fun _ _ _ _ _ hpos hstep => hpos.trans (msgIndex_le_of_step hstep)) le_rfl hrun

end Runs

/-! ### The equivalence -/

/-- **What loses messages.**  The producer goes on after the ack for its message only, and the ids
handled have no gap, if and only if there is an ack whenever one is read. -/
theorem neverSkips_iff {acts : List Action} {s : State} {outs : List (Option Event)}
    (hrun : exec State.step State.start acts = .ok (s, outs)) :
    NeverSkips outs ↔ ∀ pre post t outs', acts = pre ++ .getAck :: post →
      exec State.step State.start pre = .ok (t, outs') → AckThere t := by
  constructor
  · intro hskips pre post t outs' hacts hpre
    subst hacts
    obtain ⟨t', before, after, hpre', hpost, rfl⟩ := exec_append_eq_ok.mp hrun
    obtain ⟨rfl, rfl⟩ := ok_pair_inj (hpre.symm.trans hpre')
    obtain ⟨s', e, after', hget, -, rfl⟩ := exec_cons_eq_ok.mp hpost
    obtain ⟨-, -, c, hc, ⟨ack, acks, hacks, -⟩ | ⟨-, rfl, -⟩⟩ := getConsumerAck_cases hget
    · exact ⟨c, hc, by simp [hacks]⟩
    · -- the ack that nothing was read into has the id zero, which no message has
      have hzero := hskips.moves t.msgIndex {} (by simp)
      have hpos := one_le_msgIndex hpre
      have hdefault : ({} : ProducerAckMsg).lastMsgId.toInt = 0 := rfl
      omega
  · intro hack
    have hI := exec_invariant_along (P := fun s a => a = .getAck → AckThere s) InStep
      (fun _ _ _ _ _ hI hP hstep => hI.step hP hstep) InStep.start ?_ hrun
    · obtain ⟨h, hids, -⟩ := hI.phase
      exact ⟨hI.moves, h, hids⟩
    · rintro pre a post t outs' hacts hpre rfl
      exact hack pre post t outs' hacts hpre

/-- The consumer dies with its ack written and not read, and starts again. -/
def deathAfterAck : List Action :=
  [.restart, .connect, .send, .accept, .readMsg, .handleMsg, .sendAck, .die, .getAck,
    .connect, .restart, .connect, .send, .accept, .readMsg, .handleMsg, .sendAck, .getAck]

/-- Its events. -/
def deathAfterAckEvents : List (Option Event) :=
  [none, none, none, none, none, some (.handled (dataMsg 1)), none, none, some (.moved 1 ⟨1⟩),
    none, none, none, none, none, none, some (.handled (dataMsg 2)), none, some (.moved 2 ⟨2⟩)]

theorem neverSkips_deathAfterAck : NeverSkips deathAfterAckEvents ∧
    ∀ pre post t outs', deathAfterAck = pre ++ .getAck :: post →
      exec State.step State.start pre = .ok (t, outs') → AckThere t := by
  have hrun : exec State.step State.start deathAfterAck =
      .ok (⟨.connecting, 3, some ⟨[], [], true⟩, .reading⟩, deathAfterAckEvents) := rfl
  have hskips : NeverSkips deathAfterAckEvents := by
    refine ⟨?_, 2, rfl⟩
    intro n ack hmem
    simp only [deathAfterAckEvents, List.mem_cons, Option.some.injEq, Event.moved.injEq,
      reduceCtorEq,
      List.not_mem_nil, or_false, false_or] at hmem
    rcases hmem with ⟨rfl, rfl⟩ | ⟨rfl, rfl⟩ <;> rfl
  exact ⟨hskips, (neverSkips_iff hrun).mp hskips⟩

/-- The consumer dies with the first message sent and not read, and starts again. -/
def deathBeforeRead : List Action :=
  [.restart, .connect, .send, .die, .getAck,
    .connect, .restart, .connect, .send, .accept, .readMsg, .handleMsg]

/-- Its events. -/
def deathBeforeReadEvents : List (Option Event) :=
  [none, none, none, none, some (.moved 1 {}),
    none, none, none, none, none, none, some (.handled (dataMsg 2))]

/-- The second message is the first one handled. -/
theorem not_neverSkips_deathBeforeRead :
    (∃ s, exec State.step State.start deathBeforeRead = .ok (s, deathBeforeReadEvents)) ∧
      handledIds deathBeforeReadEvents = [2] ∧ ¬NeverSkips deathBeforeReadEvents := by
  refine ⟨⟨_, rfl⟩, rfl, fun hskips => ?_⟩
  have hzero : (0 : ℤ) = 1 := hskips.moves 1 {} (by simp [deathBeforeReadEvents])
  exact absurd hzero (by decide)

end Lab1.ProducerConsumer
