import Lab1.Nw.Acceptor

/-!
# Framing

The client writes whole message objects, the acceptor reads a header and then as many bytes as the
header's `m_msg_sz` says.  The constructor makes that field `0` and `init` leaves it as it is, so of
the first message the acceptor reads the header only, and its body is the next thing on the socket.
As no call takes more than one object from the socket, the bytes left over are never made up for:
`agree_iff` says that the two ends agree on the empty list of messages only.
-/

namespace Lab1.Nw

open NwMessage

variable {L : HeaderLayout} {testingMode : Bool}

/-! ### The property -/

/-- The calls of `handle_request`, one for each message, decode exactly the messages that a client
wrote and leave nothing on the socket.  `closed` says whether the client has closed its end. -/
def Agree (L : HeaderLayout) (testingMode closed : Bool) (msgs : List ClientMsg) : Prop :=
  ∀ mem stream, clientRun L (NwMessage.new L mem) msgs = .ok stream →
    ∀ mems : List Mem, mems.length = msgs.length →
      ∃ outs, exec (handleRequest L testingMode) ⟨stream, closed⟩ mems = .ok (⟨[], closed⟩, outs) ∧
        outs.map Handled.decoded = msgs.map fun msg => some (msg.type.code, msg.body)

/-! ### The fields of a message -/

@[simp] theorem getMsgType_setMsgType (t : MsgTypes) (m : NwMessage) :
    getMsgType L (setMsgType L t m) = t.code := by
  apply Mem.word_of_read t.code_lt
  exact Mem.read_write m L.typeOff (wordBytes t.code)

@[simp] theorem getMsgSz_setMsgType (t : MsgTypes) (m : NwMessage) :
    getMsgSz L (setMsgType L t m) = getMsgSz L m := by
  apply Mem.word_congr
  apply Mem.read_write_of_apart
  rw [length_wordBytes]
  have := L.apart
  omega

theorem getMsgSz_setMsgSz {sz : ℕ} (h : sz < 4294967296) (m : NwMessage) :
    getMsgSz L (setMsgSz L sz m) = sz := by
  apply Mem.word_of_read h
  exact Mem.read_write m L.szOff (wordBytes sz)

/-- The body is behind the header. -/
@[simp] theorem getMsgSz_write_body (m : NwMessage) (body : List UInt8) :
    getMsgSz L (m.write L.size body) = getMsgSz L m := by
  apply Mem.word_congr
  apply Mem.read_write_of_apart
  have := L.sz_in
  omega

/-- A message starts with the size `0`. -/
@[simp] theorem getMsgSz_new (mem : Mem) : getMsgSz L (NwMessage.new L mem) = 0 := by
  rw [NwMessage.new, getMsgSz_setMsgType, getMsgSz_setMsgSz (by decide)]

@[simp] theorem length_bytes (m : NwMessage) : (bytes L m).length = L.size + maxMsgSz :=
  Mem.length_read _ _ _

/-- `init` accepts every body that fits; it sets the type and keeps the size. -/
theorem init_eq_ok (m : NwMessage) (msg : ClientMsg) :
    ∃ m', NwMessage.init L m msg.body msg.body.length msg.type = .ok m' ∧
      getMsgType L m' = msg.type.code ∧ getMsgSz L m' = getMsgSz L m := by
  refine ⟨setMsgType L msg.type (m.write L.size msg.body), ?_, getMsgType_setMsgType _ _, ?_⟩
  · -- the body is copied behind the header, then the type is set
    rw [NwMessage.init, require_true (le_refl _), ok_bind, require_true msg.length_le, ok_bind,
      List.take_length]
    rfl
  · rw [getMsgSz_setMsgType, getMsgSz_write_body]

/-- The client writes one object for each message, and all of them carry the size that its object
had at the start. -/
theorem clientRun_eq_ok (m : NwMessage) (msgs : List ClientMsg) :
    ∃ stream, clientRun L m msgs = .ok stream ∧
      stream.length = msgs.length * (L.size + maxMsgSz) ∧
      ∀ msg rest, msgs = msg :: rest → ∃ m' s, stream = bytes L m' ++ s ∧
        getMsgType L m' = msg.type.code ∧ getMsgSz L m' = getMsgSz L m := by
  induction msgs generalizing m with
  | nil =>
    refine ⟨[], rfl, by simp, ?_⟩
    intro msg rest hnil
    exact absurd hnil (List.cons_ne_nil _ _).symm
  | cons msg msgs ih =>
    obtain ⟨m', hinit, htype, hsz⟩ := init_eq_ok (L := L) m msg
    obtain ⟨s, hrun, hlen, -⟩ := ih m'
    refine ⟨bytes L m' ++ s, ?_, ?_, ?_⟩
    · rw [clientRun, hinit, ok_bind, hrun, ok_bind]
      rfl
    · rw [List.length_append, length_bytes, hlen, List.length_cons]
      ring
    · intro msg' rest heq
      rw [List.cons.injEq] at heq
      rw [← heq.1]
      exact ⟨m', s, rfl, htype, hsz⟩

/-! ### What a call reads -/

/-- The header that is read is the one that was written, however much of the body is behind it. -/
theorem word_readHeader (m m' : NwMessage) (k : ℕ) (s : List UInt8) {off : ℕ}
    (hoff : off + 4 ≤ L.size) :
    (m'.write 0 ((m.read 0 (L.size + k) ++ s).take L.size)).word off = m.word off := by
  have htake : (m.read 0 (L.size + k) ++ s).take L.size = m.read 0 L.size := by
    rw [Mem.read_add, List.append_assoc]
    exact List.take_left' (Mem.length_read _ _ _)
  apply Mem.word_congr
  rw [htake]
  have h : (m'.write 0 (m.read 0 L.size)).read (0 + off) 4 = m.read off 4 :=
    Mem.read_write_read m' 0 hoff
  rwa [Nat.zero_add] at h

theorem drainLen_le (n : ℕ) : drainLen n ≤ n := by
  unfold drainLen
  split_ifs
  · exact le_refl n
  · exact Nat.zero_le n

theorem drainLen_of_lt {n : ℕ} (hn : n < 2147483648) : drainLen n = n := if_pos hn

/-- A drain comes to its end where all bytes are there or no more will come. -/
theorem readFdDrain_eq_ok {sock sock' : Sock} {len : ℕ} {bs : List UInt8} :
    readFdDrain sock len = .ok (bs, sock') ↔
      (drainLen len ≤ sock.input.length ∨ sock.closed = true) ∧ bs = sock.takes len ∧
        sock' = { sock with input := sock.input.drop (drainLen len) } := by
  unfold readFdDrain
  split_ifs with h
  · constructor
    · intro hok
      obtain ⟨rfl, rfl⟩ := ok_pair_inj hok
      exact ⟨h, rfl, rfl⟩
    · rintro ⟨-, rfl, rfl⟩
      rfl
  · exact iff_of_false (fun hok => by cases hok) fun hok => h hok.1

theorem readFdDrain_of_le {sock : Sock} {len : ℕ} (h : drainLen len ≤ sock.input.length) :
    readFdDrain sock len
      = .ok (sock.takes len, { sock with input := sock.input.drop (drainLen len) }) :=
  if_pos (Or.inl h)

theorem requireInBody_of_le {n : ℕ} (h : n ≤ maxMsgSz) : requireInBody n = .ok () := if_pos h

theorem requireInBody_eq_ok {n : ℕ} {u : Unit} : requireInBody n = .ok u ↔ n ≤ maxMsgSz := by
  unfold requireInBody
  split_ifs with h <;> simp [h]

/-- What is left of the socket after the body. -/
theorem handleBody_rest {ret : ℤ} {nmsg : NwMessage} {sock sock' : Sock} {h : Handled}
    (hok : handleBody L testingMode ret nmsg sock = .ok (sock', h)) :
    sock.input.length ≤ sock'.input.length + maxMsgSz := by
  obtain ⟨_, hbody, hok⟩ := bind_eq_ok.mp hok
  rw [requireInBody_eq_ok, Sock.takes, List.length_take] at hbody
  obtain ⟨⟨bs, sock''⟩, hdrain, hok⟩ := bind_eq_ok.mp hok
  obtain ⟨-, rfl, rfl⟩ := readFdDrain_eq_ok.mp hdrain
  have hrest : sock'.input = sock.input.drop (drainLen (getMsgSz L nmsg)) := by
    dsimp only at hok
    split_ifs at hok
    · cases hok
      rfl
    · -- printing the body takes nothing from the socket
      obtain ⟨-, -, hok⟩ := bind_eq_ok.mp hok
      cases hok
      rfl
  rw [hrest, List.length_drop]
  omega

/-- A call takes at most one object from the socket. -/
theorem handleRequest_takes {sock sock' : Sock} {mem : Mem} {h : Handled}
    (hok : handleRequest L testingMode sock mem = .ok (sock', h)) :
    sock.input.length ≤ sock'.input.length + (L.size + maxMsgSz) := by
  have hsize : sock.input.length ≤ (sock.input.drop (drainLen L.size)).length + L.size := by
    have := drainLen_le L.size
    rw [List.length_drop]
    omega
  obtain ⟨⟨bs, sock''⟩, hdrain, hok⟩ := bind_eq_ok.mp hok
  obtain ⟨-, rfl, rfl⟩ := readFdDrain_eq_ok.mp hdrain
  dsimp only at hok
  split_ifs at hok
  · have hrest := handleBody_rest hok
    dsimp only at hrest
    omega
  · have hrest := handleBody_rest hok
    dsimp only at hrest
    omega
  · cases hok
    dsimp only
    omega

theorem exec_takes {sock sock' : Sock} {mems : List Mem} {outs : List Handled}
    (hok : exec (handleRequest L testingMode) sock mems = .ok (sock', outs)) :
    sock.input.length ≤ sock'.input.length + mems.length * (L.size + maxMsgSz) := by
  induction mems generalizing sock outs with
  | nil =>
    cases hok
    omega
  | cons mem mems ih =>
    obtain ⟨mid, h, outs', hfirst, hrest, -⟩ := exec_cons_eq_ok.mp hok
    have h₁ := handleRequest_takes hfirst
    have h₂ := ih hrest
    rw [List.length_cons, Nat.succ_mul]
    omega

/-- With the size `0` no body is taken, and the body that is decoded is empty. -/
theorem handleBody_of_sz_zero {nmsg : NwMessage} (hsz : getMsgSz L nmsg = 0) (ret : ℤ)
    (sock : Sock) :
    ∃ h, handleBody L testingMode ret nmsg sock = .ok (sock, h) ∧
      h.decoded = some (getMsgType L nmsg, []) := by
  have hzero : drainLen 0 = 0 := rfl
  have htakes : sock.takes 0 = [] := List.take_zero
  have hdrain : readFdDrain sock 0 = .ok ([], sock) := by
    rw [readFdDrain_of_le (Nat.zero_le _), htakes]
    rfl
  rw [handleBody, hsz, htakes, List.length_nil, requireInBody_of_le (Nat.zero_le _), ok_bind,
    hdrain, ok_bind]
  simp only [Mem.write_nil, hsz, requireInBody_of_le (Nat.zero_le _), ok_bind]
  rcases testingMode with _ | _
  · exact ⟨_, rfl, rfl⟩
  · exact ⟨_, rfl, rfl⟩

/-- Of an object whose size field is `0`, only the header is taken. -/
theorem handleRequest_of_sz_zero (testingMode closed : Bool) {m : NwMessage} {t : MsgTypes}
    {s : List UInt8} (htype : getMsgType L m = t.code) (ht : t ≠ .INV) (hsz : getMsgSz L m = 0)
    (mem : Mem) :
    ∃ h, handleRequest L testingMode ⟨bytes L m ++ s, closed⟩ mem =
        .ok (⟨(bytes L m ++ s).drop L.size, closed⟩, h) ∧ h.decoded = some (t.code, []) := by
  have hdrain : drainLen L.size = L.size := drainLen_of_lt L.size_lt
  have htype' : getMsgType L ((NwMessage.new L mem).write 0 ((bytes L m ++ s).take L.size)) =
      t.code := (word_readHeader m _ maxMsgSz s L.type_in).trans htype
  have hsz' : getMsgSz L ((NwMessage.new L mem).write 0 ((bytes L m ++ s).take L.size)) = 0 :=
    (word_readHeader m _ maxMsgSz s L.sz_in).trans hsz
  have hthere : drainLen L.size ≤ (bytes L m ++ s).length := by
    rw [hdrain, List.length_append, length_bytes]
    omega
  have hread : readFdDrain ⟨bytes L m ++ s, closed⟩ L.size
      = .ok (_, ⟨(bytes L m ++ s).drop (drainLen L.size), closed⟩) := readFdDrain_of_le hthere
  rw [handleRequest, hread, ok_bind]
  simp only [Sock.takes, hdrain]
  rw [htype', ← htype']
  rcases t with _ | _ | _
  · rw [htype', if_neg (by decide), if_pos rfl, ← htype']
    exact handleBody_of_sz_zero hsz' 0 _
  · rw [htype', if_pos rfl, ← htype']
    exact handleBody_of_sz_zero hsz' (-1) _
  · exact absurd rfl ht

/-! ### The two ends do not agree -/

/-- After the last call, bytes are left on the socket. -/
theorem not_agree_cons (closed : Bool) (msg : ClientMsg) (msgs : List ClientMsg) :
    ¬Agree L testingMode closed (msg :: msgs) := by
  intro hagree
  let mem : Mem := fun _ => 0
  obtain ⟨stream, hrun, hlen, hfirst⟩ := clientRun_eq_ok (NwMessage.new L mem) (msg :: msgs)
  obtain ⟨m, s, hstream, htype, hsz⟩ := hfirst msg msgs rfl
  obtain ⟨outs, hexec, -⟩ := hagree mem stream hrun (mem :: msgs.map fun _ => mem) (by simp)
  obtain ⟨mid, h, outs', hcall, hrest, -⟩ := exec_cons_eq_ok.mp hexec
  -- the first call stops behind the header, ...
  rw [getMsgSz_new] at hsz
  obtain ⟨h', hcall', -⟩ :=
    handleRequest_of_sz_zero testingMode closed (s := s) htype msg.type_ne hsz mem
  rw [← hstream, hcall] at hcall'
  cases hcall'
  -- ... and the others take at most one object each
  have htakes := exec_takes hrest
  simp only [List.length_drop, hlen, List.length_map, List.length_cons, List.length_nil,
    Nat.succ_mul, maxMsgSz] at htakes
  omega

/-- **Client and acceptor agree on the framing of no message at all.** -/
theorem agree_iff (closed : Bool) (msgs : List ClientMsg) :
    Agree L testingMode closed msgs ↔ msgs = [] := by
  constructor
  · intro hagree
    rcases msgs with _ | ⟨msg, msgs⟩
    · rfl
    · exact absurd hagree (not_agree_cons closed msg msgs)
  · rintro rfl mem stream hrun mems hmems
    rw [List.length_nil, List.length_eq_zero_iff] at hmems
    cases hrun
    rw [hmems]
    exact ⟨[], rfl, rfl⟩

/-- One message `hi`, from a client on 64-bit Linux, whether or not it has left then. -/
theorem not_agree_hi :
    ¬Agree .lp64 false true [⟨[104, 105], .REG, by decide, by decide⟩] ∧
      ¬Agree .lp64 false false [⟨[104, 105], .REG, by decide, by decide⟩] :=
  ⟨not_agree_cons _ _ _, not_agree_cons _ _ _⟩

end Lab1.Nw
