import Lab1.Nw.Equiv.EventLoop
import Lab1.Nw.RequestCalls
import Lab1.Shr.Equiv.Drain

/-!
# A request, however it is split

`handle_request` is made of drains, and every `read` and `write` of a drain moves what the system
likes.  Where the request stays inside the body of its message, this makes no difference: a request
that returns has read and written what one with whole drains does (`handleRequestCalls_refines`).

But `handle_request` believes the `m_msg_sz` of the header that it has read: the drain of the body
takes it for a number of bytes, the loop that prints the body for a bound.  A number from `2^31` on
is a negative `int` for the drain, which then reads nothing, and still a bound for the loop.
`bodyInBounds_iff` says for which streams no split makes the request leave the body.
-/

namespace Lab1.Nw

open NwMessage Shr

variable {L : HeaderLayout} {testingMode : Bool} {io : Io} {choices : List IoChoice}

/-! ### The property -/

/-- However the reads split the stream, the request stays inside the body of its message.  (A read
returns `0` at the end of the stream only.) -/
def BodyInBounds (L : HeaderLayout) (testingMode : Bool) (io : Io) : Prop :=
  ∀ choices, .upTo 0 ∉ choices → ∃ r, handleRequestCalls L testingMode io choices = .ok r

/-- The message with the header that was received. -/
def received (L : HeaderLayout) (io : Io) : NwMessage :=
  (NwMessage.new L io.mem).write 0 (io.input.take L.size)

/-- The size of the message `m` is at most that of the body; in testing mode it is enough that no
more bytes than that are read of `input`. -/
def SizeFits (L : HeaderLayout) (testingMode : Bool) (m : NwMessage) (input : List UInt8) : Prop :=
  getMsgSz L m ≤ maxMsgSz ∨ (testingMode = true ∧
    (2147483648 ≤ getMsgSz L m ∨ input.length ≤ maxMsgSz))

/-- A message of a type that is handled has a size that fits. -/
def FitsBody (L : HeaderLayout) (testingMode : Bool) (io : Io) : Prop :=
  getMsgType L (received L io) = MsgTypes.TRM.code ∨
      getMsgType L (received L io) = MsgTypes.REG.code →
    SizeFits L testingMode (received L io) (io.input.drop L.size)

/-- What is there after `result`, where the request returned `ret` and left `io'`: the client has
closed its end, so no drain waits for more than there is. -/
def ReturnsAs (io : Io) (result : Except Stop (Sock × Handled)) (ret : ℤ) (io' : Io) : Prop :=
  ∃ handled, result = .ok (⟨io'.input, true⟩, handled) ∧ handled.ret = ret ∧
    io'.output = io.output ++ handled.written

/-- A request that returns does so with `Post`.  It exits with `3`, and only where a call has
failed, and after `n` calls it does not wait. -/
def EndsWith (Post : ℤ → Io → Prop) (choices : List IoChoice) (n : ℕ) : RequestEnd → Prop
  | .returned ret io => Post ret io
  | .exited code => code = 3 ∧ .fail ∈ choices
  | .waiting => choices.length < n

section EndsWith

variable {Post Post' : ℤ → Io → Prop} {n : ℕ} {r : RequestEnd}

theorem EndsWith.imp (h : EndsWith Post choices n r)
    (himp : ∀ ret io', Post ret io' → Post' ret io') : EndsWith Post' choices n r := by
  cases r with
  | returned ret io' => exact himp ret io' h
  | exited code => exact h
  | waiting => exact h

/-- Behind `m` calls at most. -/
theorem EndsWith.behind {used : List IoChoice} {m : ℕ} (h : EndsWith Post choices n r)
    (hused : used.length ≤ m) : EndsWith Post (used ++ choices) (m + n) r := by
  cases r with
  | returned ret io' => exact h
  | exited code => exact ⟨h.1, List.mem_append_right _ h.2⟩
  | waiting =>
    have hfew : choices.length < n := h
    show (used ++ choices).length < m + n
    rw [List.length_append]
    omega

end EndsWith

/-! ### Drains -/

section Drains

variable {act : Act} {buff : Buff} {len n : ℕ} {Post : ℤ → Io → Prop}

/-- A drain with what follows it, where that ends well after all the bytes are moved. -/
theorem afterDrain_endsWith (rest : Io → List IoChoice → Except Fault RequestEnd)
    (helem : buff.elem = 1) (hfits : ∀ q ≤ len, io.Has act q → q ≤ buff.size)
    (hhonest : .upTo 0 ∉ choices)
    (hrest : ∀ unused, unused <:+ choices → ∃ r,
      rest (io.moved act buff.start len) unused = .ok r ∧ EndsWith Post unused n r) :
    ∃ r, afterDrain (drain act buff len io choices) rest = .ok r ∧
      EndsWith Post choices (len + 1 + n) r := by
  rcases drain_cases buff helem hfits choices with
    ⟨v, used, unused, hrun, rfl, hend⟩ | ⟨v, hrun, hwait, hlt, hpos⟩
  · rcases hexit : v.exitCode with _ | code
    · have hhonest' : .upTo 0 ∉ used := fun hzero => hhonest (List.mem_append_left _ hzero)
      obtain ⟨r, hr, hpost⟩ := hrest unused (List.suffix_append used unused)
      refine ⟨r, ?_, hpost.behind hend.length_le⟩
      simp only [afterDrain, hrun, hexit]
      rw [hend.complete hhonest' hexit, hr]
    · refine ⟨.exited code, by simp only [afterDrain, hrun, hexit], ?_, ?_⟩
      · exact exitCode_eq_some hexit
      · by_contra hfail
        rw [hend.no_exit fun hmem => hfail (List.mem_append_left _ hmem)] at hexit
        cases hexit
  · refine ⟨.waiting, by simp only [afterDrain, hrun], ?_⟩
    have hfew := hwait.length_lt hlt hpos
    show choices.length < len + 1 + n
    omega

/-- A drain of a negative number of bytes. -/
theorem drain_of_neg (act : Act) (buff : Buff) {len : ℤ} (hlen : len < 0) (io : Io)
    (choices : List IoChoice) :
    drain act buff len io choices = .ok (.finished ⟨0, 0, io, []⟩ choices) :=
  drive_of_inl (if_neg (by show ¬(0 : ℤ) + 0 < len; omega))

theorem afterDrain_of_neg (act : Act) (buff : Buff) {len : ℤ} (hlen : len < 0) (io : Io)
    (choices : List IoChoice) (rest : Io → List IoChoice → Except Fault RequestEnd) :
    afterDrain (drain act buff len io choices) rest = rest io choices := by
  rw [drain_of_neg act buff hlen]
  rfl

/-- A first call that reads more than the buffer holds. -/
theorem drain_overrun {k : ℕ} (hover : buff.size < min k (min len io.input.length)) :
    drain .read buff len io (.upTo k :: choices) = .error .outOfBounds := by
  have hnext : drainNext len ⟨0, 0, io, []⟩ = .inr ⟨0, 0, io, []⟩ :=
    if_pos (by show (0 : ℤ) + 0 < len; omega)
  have hturn := drainCall_eq .read buff len (v := ⟨0, 0, io, []⟩) (p := 0) rfl (.upTo k)
  have hcall : Act.call buff io (buff.start + 0 * buff.elem) (len - 0) .read (.upTo k)
      = .error .outOfBounds := by
    rw [Act.call, require_false]
    · rfl
    · simp only [Nat.zero_mul, Nat.add_zero, Nat.sub_zero]
      omega
  rw [hcall, error_bind] at hturn
  exact drive_cons_of_error hnext hturn

/-- The whole message is written. -/
theorem writeMessage_endsWith (L : HeaderLayout) (ret : ℤ) (io : Io)
    (hhonest : .upTo 0 ∉ choices) : ∃ r, writeMessage L ret io choices = .ok r ∧
      EndsWith
        (fun ret' io' => ret' = ret ∧ io' = { io with output := io.output ++ bytes L io.mem })
        choices (sizeofNwMessage L + 1) r := by
  have hend : ∃ r, writeMessage L ret io choices = .ok r ∧
      EndsWith
        (fun ret' io' => ret' = ret ∧ io' = { io with output := io.output ++ bytes L io.mem })
        choices (sizeofNwMessage L + 1 + 0) r :=
    afterDrain_endsWith (fun io _ => .ok (.returned ret io)) rfl (fun _ hq _ => hq) hhonest
      fun _ _ => ⟨_, rfl, rfl, rfl⟩
  exact hend

end Drains

/-! ### The body -/

section Body

/-- What is there after the header is read. -/
def afterHeader (L : HeaderLayout) (io : Io) : Io :=
  ⟨received L io, io.input.drop L.size, io.output⟩

/-- What the body is written over is not the size. -/
theorem getMsgSz_moved (io : Io) (p : ℕ) :
    getMsgSz L (io.moved .read L.size p).mem = getMsgSz L io.mem := getMsgSz_write_body _ _

theorem intOfUInt32_of_lt {n : ℕ} (hn : n < 2147483648) : intOfUInt32 n = n := if_pos hn

theorem intOfUInt32_neg {n : ℕ} (hn : 2147483648 ≤ n) (hlt : n < 4294967296) :
    intOfUInt32 n < 0 := by
  rw [intOfUInt32, if_neg (by omega)]
  omega

/-- What there is of the body fits into it. -/
theorem SizeFits.le {m : NwMessage} {input : List UInt8}
    (hfit : SizeFits L testingMode m input) {q : ℕ} (hq : q ≤ drainLen (getMsgSz L m))
    (hlen : q ≤ input.length) : q ≤ maxMsgSz := by
  rcases Nat.lt_or_ge (getMsgSz L m) 2147483648 with hlt | hge
  · rw [drainLen_of_lt hlt] at hq
    rcases hfit with hsz | ⟨_, hge | hshort⟩ <;> omega
  · have hzero : drainLen (getMsgSz L m) = 0 := if_neg (Nat.not_lt.mpr hge)
    omega

/-- The drain of the body, for which a size from `2^31` on is negative. -/
theorem bodyDrain_endsWith {Post : ℤ → Io → Prop} {n : ℕ}
    {rest : Io → List IoChoice → Except Fault RequestEnd} (hsz : getMsgSz L io.mem < 4294967296)
    (hfit : SizeFits L testingMode io.mem io.input) (hhonest : .upTo 0 ∉ choices)
    (hrest : ∀ unused, unused <:+ choices → ∃ r,
      rest (io.moved .read L.size (drainLen (getMsgSz L io.mem))) unused = .ok r ∧
        EndsWith Post unused n r) :
    ∃ r, afterDrain (drain .read ⟨L.size, maxMsgSz, 1⟩ (intOfUInt32 (getMsgSz L io.mem)) io choices)
        rest = .ok r ∧ EndsWith Post choices (drainLen (getMsgSz L io.mem) + 1 + n) r := by
  rcases Nat.lt_or_ge (getMsgSz L io.mem) 2147483648 with hlt | hge
  · have hle : ∀ q ≤ drainLen (getMsgSz L io.mem), io.Has .read q → q ≤ maxMsgSz :=
      fun q hq hhas => hfit.le hq hhas
    rw [intOfUInt32_of_lt hlt]
    rw [drainLen_of_lt hlt] at hrest hle ⊢
    exact afterDrain_endsWith rest rfl hle hhonest hrest
  · -- the drain makes no call
    have hzero : drainLen (getMsgSz L io.mem) = 0 := if_neg (Nat.not_lt.mpr hge)
    obtain ⟨r, hr, hpost⟩ := hrest choices (List.suffix_refl _)
    rw [hzero, moved_zero] at hr
    rw [afterDrain_of_neg .read _ (intOfUInt32_neg hge hsz)]
    have hbehind : ([] : List IoChoice).length ≤ drainLen (getMsgSz L io.mem) + 1 := Nat.zero_le _
    exact ⟨r, hr, hpost.behind hbehind⟩

theorem readFdDrain_closed (input : List UInt8) (len : ℕ) :
    readFdDrain ⟨input, true⟩ len
      = .ok (input.take (drainLen len), ⟨input.drop (drainLen len), true⟩) :=
  readFdDrain_eq_ok.mpr ⟨Or.inr rfl, rfl, rfl⟩

/-- The cases `TRM` and `REG` read and write what `handleBody` does. -/
theorem handleBodyCalls_endsWith (ret : ℤ) (io : Io) (hsz : getMsgSz L io.mem < 4294967296)
    (hfit : SizeFits L testingMode io.mem io.input) (hhonest : .upTo 0 ∉ choices) :
    ∃ r, handleBodyCalls L testingMode ret io choices = .ok r ∧
      EndsWith (ReturnsAs io (handleBody L testingMode ret io.mem ⟨io.input, true⟩)) choices
        (drainLen (getMsgSz L io.mem) + 1 + (sizeofNwMessage L + 1)) r := by
  refine bodyDrain_endsWith hsz hfit hhonest fun unused hunused => ?_
  have hhonest' : .upTo 0 ∉ unused := fun hzero => hhonest (hunused.mem hzero)
  have htaken : (io.input.take (drainLen (getMsgSz L io.mem))).length ≤ maxMsgSz := by
    rw [List.length_take]
    exact hfit.le (Nat.min_le_left _ _) (Nat.min_le_right _ _)
  -- what comes back from writing the message `m` after the body
  have hwrite : ∀ (m : NwMessage) (body printed : List UInt8),
      handleBody L testingMode ret io.mem ⟨io.input, true⟩
        = .ok (⟨io.input.drop (drainLen (getMsgSz L io.mem)), true⟩,
          ⟨ret, some (getMsgType L io.mem, body), printed, bytes L m⟩) →
      ∃ r, writeMessage L ret ⟨m, io.input.drop (drainLen (getMsgSz L io.mem)), io.output⟩ unused
          = .ok r ∧
        EndsWith (ReturnsAs io (handleBody L testingMode ret io.mem ⟨io.input, true⟩)) unused
          (sizeofNwMessage L + 1) r := by
    intro m body printed hok
    obtain ⟨r, hr, hpost⟩ := writeMessage_endsWith L ret
      ⟨m, io.input.drop (drainLen (getMsgSz L io.mem)), io.output⟩ hhonest'
    refine ⟨r, hr, hpost.imp fun ret' io' hio => ?_⟩
    obtain ⟨rfl, rfl⟩ := hio
    refine ⟨_, hok, rfl, ?_⟩
    dsimp only
  cases testingMode with
  | true =>
    refine hwrite _ (io.input.take (drainLen (getMsgSz L io.mem))) [] ?_
    rw [handleBody, Sock.takes, requireInBody_of_le htaken, ok_bind, readFdDrain_closed, ok_bind]
    rfl
  | false =>
    -- the body is printed before the answer is written
    have hle : getMsgSz L io.mem ≤ maxMsgSz := hfit.resolve_right fun h => Bool.false_ne_true h.1
    rw [if_neg Bool.false_ne_true, getMsgSz_moved, require_true hle, ok_bind]
    refine hwrite _ (io.input.take (drainLen (getMsgSz L io.mem)))
      ((io.mem.write L.size (io.input.take (drainLen (getMsgSz L io.mem)))).read L.size
        (getMsgSz L io.mem)) ?_
    rw [handleBody, Sock.takes, requireInBody_of_le htaken, ok_bind, readFdDrain_closed, ok_bind]
    dsimp only
    rw [if_neg Bool.false_ne_true, getMsgSz_write_body, requireInBody_of_le hle, ok_bind]
    rfl

theorem afterBody_not_ok (ret : ℤ) (hover : maxMsgSz < getMsgSz L io.mem)
    (choices : List IoChoice) (r : RequestEnd) :
    (if false = true then writeMessage L ret io choices else do
      require .outOfBounds (getMsgSz L io.mem ≤ maxMsgSz)
      writeMessage L ret { io with mem := setMsgType L .TRM io.mem } choices) ≠ .ok r := by
  rw [if_neg Bool.false_ne_true, require_false (Nat.not_le.mpr hover)]
  exact nofun

/-- Otherwise reads of more than `maxMsgSz` bytes, if there are enough of them, lead out of the
body. -/
theorem handleBodyCalls_not_ok (io : Io) (ret : ℤ) (hsz : getMsgSz L io.mem < 4294967296)
    (hfit : ¬SizeFits L testingMode io.mem io.input) {k : ℕ} (hk : maxMsgSz < k)
    (hbig : ∀ c ∈ choices, c = .upTo k) (hmany : getMsgSz L io.mem < choices.length)
    (r : RequestEnd) :
    handleBodyCalls L testingMode ret io choices ≠ .ok r := by
  unfold SizeFits at hfit
  push Not at hfit
  obtain ⟨hover, htesting⟩ := hfit
  rcases Nat.lt_or_ge (getMsgSz L io.mem) 2147483648 with hlt | hge
  · rw [handleBodyCalls, intOfUInt32_of_lt hlt]
    rcases Nat.lt_or_ge maxMsgSz io.input.length with hlong | hshort
    · -- the first read stores too much
      obtain ⟨c, cs, rfl⟩ := List.exists_cons_of_length_pos (Nat.zero_lt_of_lt hmany)
      obtain rfl := hbig c List.mem_cons_self
      rw [drain_overrun (by show maxMsgSz < _; omega)]
      exact nofun
    · have hfits : ∀ q ≤ getMsgSz L io.mem, io.Has .read q → q ≤ maxMsgSz :=
        fun q _ hhas => le_trans hhas hshort
      have hmode : testingMode = false := by
        rw [← Bool.not_eq_true]
        exact fun h => absurd (htesting h).2 (Nat.not_lt.mpr hshort)
      rcases drain_cases ⟨L.size, maxMsgSz, 1⟩ rfl hfits choices with
        ⟨v, used, unused, hrun, rfl, hend⟩ | ⟨v, -, hwait, hlt', hpos⟩
      · have hexit : v.exitCode = none :=
          hend.no_exit fun hfail => by cases hbig _ (List.mem_append_left _ hfail)
        have hsame : getMsgSz L v.io.mem = getMsgSz L io.mem := by
          rw [hend.io_eq]
          exact getMsgSz_moved io _
        simp only [hrun, afterDrain, hexit, hmode]
        exact afterBody_not_ok ret (hsame ▸ hover) unused r
      · have hfew := hwait.length_lt hlt' hpos
        omega
  · have hmode : testingMode = false := by
      rw [← Bool.not_eq_true]
      exact fun h => absurd (htesting h).1 (Nat.not_lt.mpr hge)
    rw [handleBodyCalls, afterDrain_of_neg .read _ (intOfUInt32_neg hge hsz), hmode]
    exact afterBody_not_ok ret hover choices r

end Body

/-! ### Requests -/

theorem word_lt (m : Mem) (a : ℕ) : m.word a < 4294967296 := by
  have h0 := (m a).toNat_lt
  have h1 := (m (a + 1)).toNat_lt
  have h2 := (m (a + 2)).toNat_lt
  have h3 := (m (a + 3)).toNat_lt
  unfold Mem.word
  omega

theorem handleRequest_closed (L : HeaderLayout) (testingMode : Bool) (io : Io) :
    handleRequest L testingMode ⟨io.input, true⟩ io.mem =
      if getMsgType L (received L io) = MsgTypes.TRM.code then
        handleBody L testingMode (-1) (received L io) ⟨io.input.drop L.size, true⟩
      else if getMsgType L (received L io) = MsgTypes.REG.code then
        handleBody L testingMode 0 (received L io) ⟨io.input.drop L.size, true⟩
      else .ok (⟨io.input.drop L.size, true⟩, ⟨-1, none, [], []⟩) := by
  rw [handleRequest, readFdDrain_closed, drainLen_of_lt L.size_lt]
  rfl

/-- More calls than these a request does not need. -/
def callsOf (L : HeaderLayout) (io : Io) : ℕ :=
  L.size + 1 + (drainLen (getMsgSz L (received L io)) + 1 + (sizeofNwMessage L + 1))

/-- Where the header fits, a request ends as one with whole drains. -/
theorem handleRequestCalls_endsWith (hfit : FitsBody L testingMode io)
    (hhonest : .upTo 0 ∉ choices) :
    ∃ r, handleRequestCalls L testingMode io choices = .ok r ∧
      EndsWith (ReturnsAs io (handleRequest L testingMode ⟨io.input, true⟩ io.mem)) choices
        (callsOf L io) r := by
  refine afterDrain_endsWith _ rfl (fun _ hq _ => hq) hhonest fun unused hunused => ?_
  have hhonest' : .upTo 0 ∉ unused := fun hzero => hhonest (hunused.mem hzero)
  have hsz := word_lt (received L io) L.szOff
  rw [handleRequest_closed]
  show ∃ r, (if getMsgType L (received L io) = MsgTypes.TRM.code then
      handleBodyCalls L testingMode (-1) (afterHeader L io) unused
    else if getMsgType L (received L io) = MsgTypes.REG.code then
      handleBodyCalls L testingMode 0 (afterHeader L io) unused
    else .ok (.returned (-1) (afterHeader L io))) = .ok r ∧ _
  split_ifs with htrm hreg
  · exact handleBodyCalls_endsWith (-1) (afterHeader L io) hsz (hfit (Or.inl htrm)) hhonest'
  · exact handleBodyCalls_endsWith 0 (afterHeader L io) hsz (hfit (Or.inr hreg)) hhonest'
  · exact ⟨_, rfl, _, rfl, rfl, (List.append_nil _).symm⟩

/-- **A request, however it is split.**  Where its header fits, a request stays in the body of its
message.  If it returns, it returns what a request with whole drains does, which leaves the same
bytes on the socket and writes the same bytes.  It exits only where a call fails, and after
`callsOf` calls it does not wait for more. -/
theorem handleRequestCalls_refines (hfit : FitsBody L testingMode io)
    (hhonest : .upTo 0 ∉ choices) :
    ∃ r, handleRequestCalls L testingMode io choices = .ok r ∧
      (∀ ret io', r = .returned ret io' →
        ReturnsAs io (handleRequest L testingMode ⟨io.input, true⟩ io.mem) ret io') ∧
      (∀ code, r = .exited code → code = 3 ∧ .fail ∈ choices) ∧
      (r = .waiting → choices.length < callsOf L io) := by
  obtain ⟨r, hr, hpost⟩ := handleRequestCalls_endsWith hfit hhonest
  refine ⟨r, hr, ?_, ?_, ?_⟩
  · rintro ret io' rfl
    exact hpost
  · rintro code rfl
    exact hpost
  · rintro rfl
    exact hpost

/-- A message of type `REG` with the body `hi`, and one byte of the next message. -/
def hiStream : Io :=
  ⟨fun _ => 0, [0, 0, 0, 0, 0, 0, 0, 0, 0, 0, 0, 0, 2, 0, 0, 0, 0x68, 0x69, 7], []⟩

/-- With calls that move at most seven bytes each, the request returns `0`, and the next message is
still there. -/
theorem handleRequestCalls_refines_hiStream :
    ∃ io', handleRequestCalls .lp64 false hiStream (List.replicate 1100 (.upTo 7))
        = .ok (.returned 0 io') ∧ io'.input = [7] := by
  have hcalls : ∀ c ∈ List.replicate 1100 (IoChoice.upTo 7), c = .upTo 7 :=
    fun c hc => List.eq_of_mem_replicate hc
  have hsz : getMsgSz .lp64 (received .lp64 hiStream) = 2 := rfl
  have hfit : FitsBody .lp64 false hiStream := fun _ => Or.inl (by rw [hsz]; decide)
  have hhonest : .upTo 0 ∉ List.replicate 1100 (IoChoice.upTo 7) :=
    fun hzero => by cases hcalls _ hzero
  obtain ⟨r, hr, hreturned, hexited, hwaiting⟩ := handleRequestCalls_refines hfit hhonest
  rcases r with ⟨ret, io'⟩ | code | _
  · obtain ⟨handled, hok, hret, -⟩ := hreturned ret io' rfl
    have hall : ∃ h, handleRequest .lp64 false ⟨hiStream.input, true⟩ hiStream.mem
        = .ok (⟨[7], true⟩, h) ∧ h.ret = 0 := ⟨_, rfl, rfl⟩
    obtain ⟨h, hok', hzero⟩ := hall
    obtain ⟨hsock, rfl⟩ := ok_pair_inj (hok.symm.trans hok')
    rw [← hret, hzero] at hr
    exact ⟨io', hr, congrArg Sock.input hsock⟩
  · cases hcalls _ (hexited code rfl).2
  · have hfew := hwaiting rfl
    rw [List.length_replicate, callsOf, hsz] at hfew
    exact absurd hfew (by decide)

/-! ### The size in a header -/

theorem FitsBody.isOk (h : FitsBody L testingMode io) : BodyInBounds L testingMode io := by
  intro choices hhonest
  obtain ⟨r, hr, -⟩ := handleRequestCalls_endsWith h hhonest
  exact ⟨r, hr⟩

theorem fitsBody_of_inBounds (h : BodyInBounds L testingMode io) : FitsBody L testingMode io := by
  intro htype
  by_contra hfit
  -- reads of any size, more of them than are needed
  let n := L.size + getMsgSz L (received L io) + maxMsgSz + 2
  have hbig : ∀ c ∈ List.replicate n (IoChoice.upTo n), c = .upTo n :=
    fun c hc => List.eq_of_mem_replicate hc
  have nozero : .upTo 0 ∉ List.replicate n (IoChoice.upTo n) := by
    intro hzero
    have hn : 0 = n := IoChoice.upTo.inj (hbig _ hzero)
    omega
  have hlength : (List.replicate n (IoChoice.upTo n)).length = n := List.length_replicate
  obtain ⟨r, hr⟩ := h (List.replicate n (.upTo n)) nozero
  rw [handleRequestCalls] at hr
  have hheader : ∀ q ≤ L.size, Io.Has { io with mem := NwMessage.new L io.mem } .read q →
      q ≤ L.size := fun _ hq _ => hq
  rcases drain_cases ⟨0, L.size, 1⟩ rfl hheader (List.replicate n (.upTo n)) with
    ⟨v, used, unused, hrun, hused, hend⟩ | ⟨v, -, hwait, hlt, hpos⟩
  · have hle := hend.length_le
    rw [hused, List.length_append] at hlength
    have hmany : getMsgSz L (received L io) < unused.length := by omega
    have hcalls : ∀ ret, handleBodyCalls L testingMode ret (afterHeader L io) unused ≠ .ok r :=
      fun ret => handleBodyCalls_not_ok (afterHeader L io) ret (word_lt (received L io) _) hfit
        (show maxMsgSz < n by omega) (fun c hc => hbig c (hused ▸ List.mem_append_right _ hc))
        hmany r
    have hexit : v.exitCode = none :=
      hend.no_exit fun hfail => by cases hbig _ (hused ▸ List.mem_append_left _ hfail)
    have hio : v.io = afterHeader L io :=
      hend.complete (fun hzero => nozero (hused ▸ List.mem_append_left _ hzero)) hexit
    simp only [hrun, afterDrain, hexit, hio] at hr
    split_ifs at hr with htrm hreg
    · exact hcalls _ hr
    · exact hcalls _ hr
    · exact htype.elim htrm hreg
  · have hfew := hwait.length_lt hlt hpos
    omega

/-- **The size in a header.**  No split of the stream makes the request leave the body of its
message if and only if the header is of another type, or its size is at most that of the body, or,
in testing mode, no more bytes are read than that. -/
theorem bodyInBounds_iff (L : HeaderLayout) (testingMode : Bool) (io : Io) :
    BodyInBounds L testingMode io ↔ FitsBody L testingMode io :=
  ⟨fitsBody_of_inBounds, FitsBody.isOk⟩

/-- A header of type `REG` with the size `1280`, and that many bytes behind it. -/
def longMessage : Io :=
  ⟨fun _ => 0, [0, 0, 0, 0, 0, 0, 0, 0, 0, 0, 0, 0, 0, 5, 0, 0] ++ List.replicate 1280 0, []⟩

/-- The server prints more than the body, and in testing mode it stores more. -/
theorem not_bodyInBounds_longMessage :
    ¬BodyInBounds .lp64 false longMessage ∧ ¬BodyInBounds .lp64Testing true longMessage := by
  have hmax : maxMsgSz = 1024 := rfl
  constructor
  · have hsz : getMsgSz .lp64 (received .lp64 longMessage) = 1280 := rfl
    intro h
    have hfit := fitsBody_of_inBounds h (Or.inr rfl)
    rw [SizeFits, hsz, hmax] at hfit
    simp at hfit
  · have hsz : getMsgSz .lp64Testing (received .lp64Testing longMessage) = 1280 := rfl
    have hrest : (longMessage.input.drop HeaderLayout.lp64Testing.size).length = 1272 :=
      List.length_replicate
    intro h
    have hfit := fitsBody_of_inBounds h (Or.inr rfl)
    rw [SizeFits, hsz, hrest, hmax] at hfit
    simp at hfit

end Lab1.Nw
