import Lab1.ProducerConsumer.Equiv.Acks

/-!
# Ids and the end of the stream

The consumer takes an id of zero for the end of the stream.  The ids come from a counter of 32 bits:
message number `n` has the id `n` modulo `2^32` (`Numbered`), so it is the message number `2^32`
whose id is zero, and with which the consumer closes the connection (`neverTaken_iff`).
-/

namespace Lab1.ProducerConsumer

open State

/-! ### The property -/

/-- The calls that write a message. -/
def Action.writes : Action → Bool
  | .send => true
  | .sigpipe => true
  | _ => false

/-- In this run no message that is written has the id zero, and a message that the consumer reads
does not pass for the end of the stream. -/
structure NeverTaken (acts : List Action) : Prop where
  written : ∀ pre a post t outs, acts = pre ++ a :: post → a.writes = true →
    exec stepWrapping .start pre = .ok (t, outs) → (dataMsg t.msgIndex).id ≠ 0
  read : ∀ pre post t outs c msg msgs, acts = pre ++ .readMsg :: post →
    exec stepWrapping .start pre = .ok (t, outs) → t.conn = some c → c.toConsumer = msg :: msgs →
      msg.id ≠ 0

/-! ### Numbers -/

theorem ofNat_eq_zero_iff (n : ℕ) : Int32.ofNat n = 0 ↔ n % 4294967296 = 0 := by
  rw [← Int32.toBitVec_inj, Int32.toBitVec_ofNat', ← BitVec.toNat_inj, BitVec.toNat_ofNat]
  rfl

theorem id_dataMsg_ne_zero_of_lt {n : ℕ} (h1 : 1 ≤ n) (hn : n < 4294967296) :
    (dataMsg n).id ≠ 0 := by
  intro hzero
  have hmod := (ofNat_eq_zero_iff n).mp hzero
  rw [Nat.mod_eq_of_lt hn] at hmod
  omega

/-- What `k` writes lead to: the number of the next message, and what may wait to be read. -/
structure Numbered (k : ℕ) (s : State) : Prop where
  msgIndex : s.msgIndex = if s.pc = .connecting ∨ s.pc = .sending then k + 1 else k
  queued : ∀ c, s.conn = some c → ∀ msg ∈ c.toConsumer, ∃ n, 1 ≤ n ∧ n ≤ k ∧ msg = dataMsg n

section Steps

variable {s s' : State} {e : Option Event} {k : ℕ}

theorem getConsumerAckWrapping_cases (hstep : s.getConsumerAckWrapping = .ok (s', e)) :
    s.pc = .awaiting ∧ s'.pc = .connecting ∧ s'.msgIndex = s.msgIndex + 1 ∧
      ∃ c c', s.conn = some c ∧ s'.conn = some c' ∧ c'.toConsumer = c.toConsumer := by
  unfold getConsumerAckWrapping at hstep
  split at hstep
  · rename_i hpc hconn
    split at hstep
    · obtain ⟨rfl, rfl⟩ := ok_pair_inj hstep
      exact ⟨hpc, rfl, rfl, _, _, hconn, rfl, rfl⟩
    · split_ifs at hstep with hopen
      obtain ⟨rfl, rfl⟩ := ok_pair_inj hstep
      exact ⟨hpc, rfl, rfl, _, _, hconn, hconn, rfl⟩
  · cases hstep

/-- The calls of the consumer leave the producer where it is, and add no message. -/
theorem consumer_frame {a : Action} (hstep : s.stepWrapping a = .ok (s', e))
    (ha : a = .accept ∨ a = .readMsg ∨ a = .handleMsg ∨ a = .sendAck ∨ a = .die ∨ a = .restart) :
    s'.pc = s.pc ∧ s'.msgIndex = s.msgIndex ∧
      ∀ c', s'.conn = some c' → ∃ c, s.conn = some c ∧ c'.toConsumer ⊆ c.toConsumer := by
  have hsame : ∀ c', s.conn = some c' → ∃ c, s.conn = some c ∧ c'.toConsumer ⊆ c.toConsumer :=
    fun c' hc' => ⟨c', hc', List.Subset.refl _⟩
  rcases ha with rfl | rfl | rfl | rfl | rfl | rfl
  · obtain ⟨-, -, rfl⟩ := accept_cases hstep
    exact ⟨rfl, rfl, hsame⟩
  · obtain ⟨-, -, c, hc, hs'⟩ := readConsumerMsg_cases hstep
    rcases hs' with ⟨msg, msgs, -, -, rfl⟩ | ⟨msg, msgs, hmsgs, -, rfl⟩ | ⟨-, -, rfl⟩
    · refine ⟨rfl, rfl, ?_⟩
      rintro _ ⟨⟩
      exact ⟨c, hc, List.nil_subset _⟩
    · refine ⟨rfl, rfl, ?_⟩
      rintro _ ⟨⟩
      exact ⟨c, hc, hmsgs ▸ List.subset_cons_self msg msgs⟩
    · refine ⟨rfl, rfl, ?_⟩
      rintro _ ⟨⟩
      exact ⟨c, hc, List.nil_subset _⟩
  · obtain ⟨msg, -, -, rfl⟩ := handleMsg_cases hstep
    exact ⟨rfl, rfl, hsame⟩
  · obtain ⟨-, msg, c, -, hc, rfl⟩ := sendAck_cases hstep
    refine ⟨rfl, rfl, ?_⟩
    rintro _ ⟨⟩
    exact ⟨c, hc, List.Subset.refl _⟩
  · obtain ⟨-, rfl⟩ := die_cases hstep
    refine ⟨rfl, rfl, fun c' hc' => ?_⟩
    obtain ⟨c, hc, rfl⟩ := Option.map_eq_some_iff.mp hc'
    exact ⟨c, hc, List.nil_subset _⟩
  · obtain ⟨-, -, rfl⟩ := restart_cases hstep
    exact ⟨rfl, rfl, hsame⟩

theorem Numbered.consumer {a : Action} (h : Numbered k s) (hstep : s.stepWrapping a = .ok (s', e))
    (ha : a = .accept ∨ a = .readMsg ∨ a = .handleMsg ∨ a = .sendAck ∨ a = .die ∨ a = .restart) :
    Numbered k s' := by
  obtain ⟨hpc, hidx, hconn⟩ := consumer_frame hstep ha
  refine ⟨?_, fun c' hc' msg hmsg => ?_⟩
  · rw [hidx, hpc]
    exact h.msgIndex
  · obtain ⟨c, hc, hsub⟩ := hconn c' hc'
    exact h.queued c hc msg (hsub hmsg)

theorem Numbered.handleConnect (h : Numbered k s) (hstep : s.handleConnect = .ok (s', e)) :
    Numbered k s' := by
  obtain ⟨hpc, -, rfl | rfl⟩ := handleConnect_cases hstep
  · exact ⟨h.msgIndex, nofun⟩
  · refine ⟨?_, ?_⟩
    · have hidx := h.msgIndex
      rw [if_pos (Or.inl hpc)] at hidx
      rw [if_pos (Or.inr rfl)]
      exact hidx
    · rintro _ ⟨⟩ msg hmsg
      rcases hconn : s.conn with _ | c
      · rw [hconn] at hmsg
        cases hmsg
      · rw [hconn] at hmsg
        exact h.queued c hconn msg hmsg

theorem Numbered.sendMsgToConsumer (h : Numbered k s)
    (hstep : s.sendMsgToConsumer = .ok (s', e)) : s.msgIndex = k + 1 ∧ Numbered (k + 1) s' := by
  obtain ⟨hpc, -, c, hc, hs'⟩ := sendMsgToConsumer_cases hstep
  have hidx : s.msgIndex = k + 1 := by
    rw [h.msgIndex, if_pos (Or.inr hpc)]
  have hold : ∀ msg ∈ c.toConsumer, ∃ n, 1 ≤ n ∧ n ≤ k + 1 ∧ msg = dataMsg n := by
    intro msg hmsg
    obtain ⟨n, h1, hn, rfl⟩ := h.queued c hc msg hmsg
    exact ⟨n, h1, Nat.le_succ_of_le hn, rfl⟩
  refine ⟨hidx, ?_⟩
  rcases hs' with ⟨-, rfl⟩ | ⟨-, rfl⟩
  · refine ⟨hidx, ?_⟩
    rintro _ ⟨⟩
    refine List.forall_mem_append.mpr ⟨hold, List.forall_mem_singleton.mpr ?_⟩
    exact ⟨k + 1, Nat.succ_pos k, Nat.le_refl _, congrArg dataMsg hidx⟩
  · refine ⟨hidx, ?_⟩
    intro c' hc'
    obtain rfl : c = c' := Option.some.inj (hc.symm.trans hc')
    exact hold

theorem Numbered.sigpipe (h : Numbered k s) (hstep : s.sigpipe = .ok (s', e)) :
    s.msgIndex = k + 1 ∧ Numbered (k + 1) s' := by
  obtain ⟨hpc, -, rfl⟩ := sigpipe_cases hstep
  have hidx : s.msgIndex = k + 1 := by
    rw [h.msgIndex, if_pos (Or.inr hpc)]
  refine ⟨hidx, hidx, fun c hc msg hmsg => ?_⟩
  obtain ⟨n, h1, hn, rfl⟩ := h.queued c hc msg hmsg
  exact ⟨n, h1, Nat.le_succ_of_le hn, rfl⟩

theorem Numbered.getConsumerAck (h : Numbered k s)
    (hstep : s.getConsumerAckWrapping = .ok (s', e)) : Numbered k s' := by
  obtain ⟨hpc, hpc', hidx, c, c', hc, hc', hsame⟩ := getConsumerAckWrapping_cases hstep
  refine ⟨?_, ?_⟩
  · have hold := h.msgIndex
    rw [hpc, if_neg (by decide)] at hold
    rw [hidx, hold, hpc', if_pos (Or.inl rfl)]
  · intro c'' hc'' msg hmsg
    obtain rfl : c' = c'' := Option.some.inj (hc'.symm.trans hc'')
    rw [hsame] at hmsg
    exact h.queued c hc msg hmsg

/-- A write is the one of the next message. -/
theorem Numbered.msgIndex_of_writes {a : Action} (h : Numbered k s)
    (hstep : s.stepWrapping a = .ok (s', e)) (ha : a.writes = true) : s.msgIndex = k + 1 := by
  cases a with
  | send => exact (h.sendMsgToConsumer hstep).1
  | sigpipe => exact (h.sigpipe hstep).1
  | _ => cases ha

/-- **The step.** -/
theorem Numbered.step {a : Action} (h : Numbered k s) (hstep : s.stepWrapping a = .ok (s', e)) :
    Numbered (k + [a].countP Action.writes) s' := by
  cases a with
  | connect => exact h.handleConnect hstep
  | send => exact (h.sendMsgToConsumer hstep).2
  | sigpipe => exact (h.sigpipe hstep).2
  | getAck => exact h.getConsumerAck hstep
  | accept => exact h.consumer hstep (by simp)
  | readMsg => exact h.consumer hstep (by simp)
  | handleMsg => exact h.consumer hstep (by simp)
  | sendAck => exact h.consumer hstep (by simp)
  | die => exact h.consumer hstep (by simp)
  | restart => exact h.consumer hstep (by simp)

end Steps

/-! ### Runs -/

theorem numbered_run {acts : List Action} {s : State} {outs : List (Option Event)}
    (hrun : exec stepWrapping .start acts = .ok (s, outs)) :
    Numbered (acts.countP Action.writes) s := by
  refine exec_invariant (fun pre s => Numbered (pre.countP Action.writes) s) ?_ ?_ hrun
  · intro pre s a s' e h hstep
    rw [List.countP_append]
    exact h.step hstep
  · exact ⟨rfl, nofun⟩

/-- Where `p` holds of more than `n` members, there is one with `n` of them in front of it. -/
theorem exists_split_countP {α : Type*} (p : α → Bool) {n : ℕ} {as : List α}
    (h : n < as.countP p) :
    ∃ pre a post, as = pre ++ a :: post ∧ p a = true ∧ pre.countP p = n := by
  induction as generalizing n with
  | nil => cases h
  | cons a as ih =>
    rcases ha : p a with _ | _
    · rw [List.countP_cons_of_neg (by simp [ha])] at h
      obtain ⟨pre, b, post, rfl, hb, hpre⟩ := ih h
      exact ⟨a :: pre, b, post, rfl, hb, by rw [List.countP_cons_of_neg (by simp [ha]), hpre]⟩
    · rw [List.countP_cons_of_pos ha] at h
      rcases n with _ | n
      · exact ⟨[], a, as, rfl, ha, rfl⟩
      · obtain ⟨pre, b, post, rfl, hb, hpre⟩ := ih (Nat.lt_of_succ_lt_succ h)
        exact ⟨a :: pre, b, post, rfl, hb, by rw [List.countP_cons_of_pos ha, hpre]⟩

/-- The write behind `pre` is the one of the next message. -/
theorem msgIndex_of_split {pre post : List Action} {a : Action} {s t : State}
    {outs outs' : List (Option Event)}
    (hrun : exec stepWrapping .start (pre ++ a :: post) = .ok (s, outs)) (ha : a.writes = true)
    (hpre : exec stepWrapping .start pre = .ok (t, outs')) :
    t.msgIndex = pre.countP Action.writes + 1 := by
  obtain ⟨t', before, after, hpre', hpost, -⟩ := exec_append_eq_ok.mp hrun
  obtain ⟨rfl, rfl⟩ := ok_pair_inj (hpre.symm.trans hpre')
  obtain ⟨s', e, after', hstep, -, -⟩ := exec_cons_eq_ok.mp hpost
  exact (numbered_run hpre).msgIndex_of_writes hstep ha

/-- **Data messages and the end of the stream.**  In a run no data message is taken for the end of
the stream if and only if fewer than `2^32` messages are written in it. -/
theorem neverTaken_iff {acts : List Action} {s : State} {outs : List (Option Event)}
    (hrun : exec stepWrapping .start acts = .ok (s, outs)) :
    NeverTaken acts ↔ acts.countP Action.writes < 4294967296 := by
  constructor
  · intro hnever
    by_contra hmany
    obtain ⟨pre, a, post, rfl, ha, hcount⟩ :=
      exists_split_countP Action.writes (show 4294967295 < acts.countP Action.writes by omega)
    obtain ⟨t, before, _, hpre, _, _⟩ := exec_append_eq_ok.mp hrun
    have hidx := msgIndex_of_split hrun ha hpre
    refine hnever.written pre a post t before rfl ha hpre ?_
    rw [hidx, hcount]
    exact (ofNat_eq_zero_iff _).mpr rfl
  · intro hfew
    refine ⟨?_, ?_⟩
    · rintro pre a post t outs' rfl ha hpre
      have hidx := msgIndex_of_split hrun ha hpre
      rw [List.countP_append, List.countP_cons_of_pos ha] at hfew
      exact id_dataMsg_ne_zero_of_lt (by omega) (by omega)
    · rintro pre post t outs' c msg msgs rfl hpre hc hmsgs
      obtain ⟨n, h1, hn, rfl⟩ := (numbered_run hpre).queued c hc msg (hmsgs ▸ List.mem_cons_self)
      rw [List.countP_append] at hfew
      exact id_dataMsg_ne_zero_of_lt h1 (by omega)

/-- One message is written and read. -/
theorem neverTaken_one_message :
    (∃ s outs, exec stepWrapping .start [.restart, .connect, .accept, .send, .readMsg]
        = .ok (s, outs)) ∧
      NeverTaken [.restart, .connect, .accept, .send, .readMsg] := by
  have hrun : exec stepWrapping .start [.restart, .connect, .accept, .send, .readMsg]
      = .ok (⟨.awaiting, 1, some ⟨[], [], true⟩, .received (dataMsg 1)⟩,
        [none, none, none, none, none]) := rfl
  exact ⟨⟨_, _, hrun⟩, (neverTaken_iff hrun).mpr (by decide)⟩

/-! ### A long run -/

/-- A message that is written, read, handled and acknowledged. -/
def delivery : List Action := [.send, .readMsg, .handleMsg, .sendAck, .getAck, .connect]

/-- The consumer never dies. -/
def longRun (n : ℕ) : List Action :=
  [.restart, .connect, .accept] ++ ((List.replicate n delivery).flatten ++ [.send, .readMsg])

/-- Before message number `n` is written. -/
def beforeMessage (n : ℕ) : State := ⟨.sending, n, some ⟨[], [], true⟩, .reading⟩

theorem stepWrapping_readMsg (n : ℕ) :
    stepWrapping ⟨.awaiting, n, some ⟨[dataMsg n], [], true⟩, .reading⟩ .readMsg
      = if (dataMsg n).id = 0 then .ok (⟨.awaiting, n, some ⟨[], [], false⟩, .accepting⟩, none)
        else .ok (⟨.awaiting, n, some ⟨[], [], true⟩, .received (dataMsg n)⟩, none) := rfl

theorem exec_delivery {n : ℕ} (hn : (dataMsg n).id ≠ 0) :
    ∃ outs, exec stepWrapping (beforeMessage n) delivery = .ok (beforeMessage (n + 1), outs) := by
  have hread : stepWrapping ⟨.awaiting, n, some ⟨[dataMsg n], [], true⟩, .reading⟩ .readMsg
      = .ok (⟨.awaiting, n, some ⟨[], [], true⟩, .received (dataMsg n)⟩, none) := by
    rw [stepWrapping_readMsg, if_neg hn]
  have hrest : exec stepWrapping ⟨.awaiting, n, some ⟨[], [], true⟩, .received (dataMsg n)⟩
      [.handleMsg, .sendAck, .getAck, .connect] = .ok (beforeMessage (n + 1),
        [some (.handled (dataMsg n)), none, some (.moved n ⟨(dataMsg n).id⟩), none]) := rfl
  exact ⟨_, exec_cons_eq_ok.mpr ⟨_, none, _, rfl,
    exec_cons_eq_ok.mpr ⟨_, none, _, hread, hrest, rfl⟩, rfl⟩⟩

theorem exec_deliveries (m n : ℕ) (hids : ∀ i, n ≤ i → i < n + m → (dataMsg i).id ≠ 0) :
    ∃ outs, exec stepWrapping (beforeMessage n) (List.replicate m delivery).flatten
      = .ok (beforeMessage (n + m), outs) := by
  induction m generalizing n with
  | zero => exact ⟨[], rfl⟩
  | succ m ih =>
    obtain ⟨outs, hfirst⟩ := exec_delivery (hids n (Nat.le_refl n) (by omega))
    obtain ⟨outs', hrest⟩ := ih (n + 1) fun i hi hi' => hids i (by omega) (by omega)
    rw [show n + 1 + m = n + (m + 1) by omega] at hrest
    exact ⟨outs ++ outs', exec_append_eq_ok.mpr ⟨_, outs, outs', hfirst, hrest, rfl⟩⟩

theorem countP_deliveries (m : ℕ) :
    ((List.replicate m delivery).flatten).countP Action.writes = m := by
  induction m with
  | zero => rfl
  | succ m ih =>
    rw [List.replicate_succ, List.flatten_cons, List.countP_append, ih]
    exact Nat.add_comm 1 m

/-- Message number `2^32` is taken for the end of the stream. -/
theorem not_neverTaken_longRun :
    (∃ outs, exec stepWrapping .start (longRun 4294967295)
        = .ok (⟨.awaiting, 4294967296, some ⟨[], [], false⟩, .accepting⟩, outs)) ∧
      ¬NeverTaken (longRun 4294967295) := by
  obtain ⟨outs, hmiddle⟩ := exec_deliveries 4294967295 1 fun i h1 hi =>
    id_dataMsg_ne_zero_of_lt h1 (by omega)
  have hfirst : exec stepWrapping .start [.restart, .connect, .accept]
      = .ok (beforeMessage 1, [none, none, none]) := rfl
  have hlast : exec stepWrapping (beforeMessage (1 + 4294967295)) [.send, .readMsg]
      = .ok (⟨.awaiting, 4294967296, some ⟨[], [], false⟩, .accepting⟩, [none, none]) := by
    have hread : stepWrapping
        ⟨.awaiting, 4294967296, some ⟨[dataMsg 4294967296], [], true⟩, .reading⟩ .readMsg
          = .ok (⟨.awaiting, 4294967296, some ⟨[], [], false⟩, .accepting⟩, none) := by
      have hid : (dataMsg 4294967296).id = 0 := (ofNat_eq_zero_iff 4294967296).mpr rfl
      rw [stepWrapping_readMsg, if_pos hid]
    exact exec_cons_eq_ok.mpr
      ⟨_, none, [none], rfl, exec_singleton_eq_ok.mpr ⟨none, hread, rfl⟩, rfl⟩
  have hrun : exec stepWrapping .start (longRun 4294967295)
      = .ok (⟨.awaiting, 4294967296, some ⟨[], [], false⟩, .accepting⟩,
        [none, none, none] ++ (outs ++ [none, none])) :=
    exec_append_eq_ok.mpr ⟨_, _, _, hfirst,
      exec_append_eq_ok.mpr ⟨_, _, _, hmiddle, hlast, rfl⟩, rfl⟩
  refine ⟨⟨_, hrun⟩, fun hnever => ?_⟩
  have hfew := (neverTaken_iff hrun).mp hnever
  rw [longRun, List.countP_append, List.countP_append, countP_deliveries] at hfew
  exact absurd hfew (by decide)

end Lab1.ProducerConsumer
