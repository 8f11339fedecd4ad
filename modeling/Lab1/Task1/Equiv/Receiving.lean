import Lab1.Task1.Wire

/-!
# One receive loop

A receive loop is at every moment what it is after a certain number of bytes (`AtByte`): the first
bytes of the stream are in the object, and the two counters say how many there are and how many are
missing.  `Gives` says how many there are after given calls, and `loopCase` in which ways the calls
can go; from the two follows what a loop comes to (`recvLoop_end`).
-/

namespace Lab1.Task1.Wire

open Shr (IoChoice)

/-- A call of `recv` that gives some bytes. -/
def Positive (choice : IoChoice) : Prop := ∃ k, 0 < k ∧ choice = .upTo k

/-! ### One call -/

/-- The variables of a receive loop after `q` of `size` bytes. -/
structure AtByte (fresh : Mem) (stream : List UInt8) (size q : ℕ) (v : RecvVars) : Prop where
  totalRecvied : v.totalRecvied.toNat = q
  leftToRecv : v.leftToRecv.toNat + q = size
  input : v.input = stream.drop q
  buffer : v.buffer = fresh.write 0 (stream.take q)
  le : q ≤ stream.length

section Call

variable {asked : UInt32 → UInt32} {fresh : Mem} {stream : List UInt8} {size q : ℕ} {v : RecvVars}

theorem AtByte.read (h : AtByte fresh stream size q v) : v.buffer.read 0 q = stream.take q := by
  have hlen : (stream.take q).length = q := List.length_take_of_le h.le
  have hread := fresh.read_write 0 (stream.take q)
  rwa [hlen, ← h.buffer] at hread

/-- Before the last byte there is something to ask for. -/
theorem AtByte.leftToRecv_ne_zero (h : AtByte fresh stream size q v) (hlt : q < size) :
    v.leftToRecv ≠ 0 := by
  have hleft := h.leftToRecv
  intro h0
  rw [h0] at hleft
  have hzero : (0 : UInt32).toNat = 0 := rfl
  omega

theorem recvNext_of_lt (h : AtByte fresh stream size q v) (hlt : q < size) :
    recvNext v = .inr v := if_pos (h.leftToRecv_ne_zero hlt)

theorem recvNext_complete (h : AtByte fresh stream size size v) :
    recvNext v = .inl (.complete v) := by
  have hleft := h.leftToRecv
  refine if_neg (not_not_intro (UInt32.toNat_inj.mp ?_))
  show v.leftToRecv.toNat = 0
  omega

/-- The variables after `r` more bytes. -/
theorem AtByte.add (hsize : size < 4294967296) (h : AtByte fresh stream size q v) {r : ℕ}
    (hr : q + r ≤ size) (hstream : q + r ≤ stream.length) :
    AtByte fresh stream size (q + r) {
      leftToRecv := v.leftToRecv - UInt32.ofNat r
      totalRecvied := v.totalRecvied + UInt32.ofNat r
      buffer := v.buffer.write v.totalRecvied.toNat ((stream.drop q).take r)
      input := v.input.drop r } := by
  have hleft := h.leftToRecv
  have hr32 : (UInt32.ofNat r).toNat = r :=
    UInt32.toNat_ofNat_of_lt' (show r < 4294967296 by omega)
  have hsub : UInt32.ofNat r ≤ v.leftToRecv := by
    rw [UInt32.le_iff_toNat_le, hr32]
    omega
  have hwritten : (stream.take q).length = q := List.length_take_of_le h.le
  -- the two counters, the rest of the stream, the object
  refine ⟨?_, ?_, ?_, ?_, hstream⟩
  · rw [UInt32.toNat_add, hr32, h.totalRecvied]
    omega
  · rw [UInt32.toNat_sub_of_le _ _ hsub, hr32]
    omega
  · rw [h.input, List.drop_drop]
  · rw [h.totalRecvied, h.buffer, List.take_add, Mem.write_append, hwritten, Nat.zero_add]

/-- What a call gives: it takes the variables to a later byte, or it gives none. -/
theorem recvCall_eq (hasked : ∀ n, n ≠ 0 → 0 < asked n ∧ asked n ≤ n) (hsize : size < 4294967296)
    (h : AtByte fresh stream size q v) (hlt : q < size) (k : ℕ) :
    ∃ r, r = min (min k (asked v.leftToRecv).toNat) (stream.length - q) ∧ q + r ≤ size ∧
      (r = 0 ∧ recvCall asked size v (.upTo k) = .ok (.inl (.disconnected v)) ∨
        0 < r ∧ ∃ v', recvCall asked size v (.upTo k) = .ok (.inr v') ∧
          AtByte fresh stream size (q + r) v') := by
  have hle := h.le
  have htotal := h.totalRecvied
  have hleft := h.leftToRecv
  have hasked : (asked v.leftToRecv).toNat ≤ v.leftToRecv.toNat :=
    (hasked _ (h.leftToRecv_ne_zero hlt)).2
  obtain ⟨r, hr⟩ : ∃ r, r = min (min k (asked v.leftToRecv).toNat) (stream.length - q) := ⟨_, rfl⟩
  have htake : v.input.take (min k (asked v.leftToRecv).toNat) = (stream.drop q).take r := by
    rw [h.input, List.take_eq_take_iff, List.length_drop]
    omega
  have hlen : ((stream.drop q).take r).length = r := by
    rw [List.length_take, List.length_drop]
    omega
  have hr32 : (UInt32.ofNat r).toNat = r :=
    UInt32.toNat_ofNat_of_lt' (show r < 4294967296 by omega)
  refine ⟨r, hr, by omega, ?_⟩
  rw [recvCall]
  dsimp only
  rw [htake, hlen, require_true (by omega), ok_bind]
  by_cases h0 : r = 0
  · have hstop : UInt32.ofNat r ≤ 0 := by
      rw [h0]
      decide
    rw [if_pos hstop]
    exact Or.inl ⟨h0, rfl⟩
  · have hgo : ¬UInt32.ofNat r ≤ 0 := by
      rw [UInt32.le_iff_toNat_le, hr32]
      show ¬r ≤ 0
      omega
    rw [if_neg hgo]
    exact Or.inr ⟨by omega, _, rfl, h.add hsize (by omega) (by omega)⟩

end Call

/-- The two sizes that are asked for. -/
theorem asked_header (n : UInt32) (h : n ≠ 0) : 0 < n ∧ n ≤ n :=
  ⟨UInt32.pos_iff_ne_zero.mpr h, UInt32.le_refl n⟩

theorem asked_data (n : UInt32) (h : n ≠ 0) :
    0 < min n maximumPackageBufferSize ∧ min n maximumPackageBufferSize ≤ n := by
  have hmin : min n maximumPackageBufferSize
      = if n ≤ maximumPackageBufferSize then n else maximumPackageBufferSize := rfl
  rw [hmin]
  split_ifs with hle
  · exact asked_header n h
  · exact ⟨by decide, UInt32.le_of_lt (UInt32.not_le.mp hle)⟩

/-! ### All calls -/

/-- After these calls, all of which gave something, `q` bytes of an object of `size` bytes are
there.  A call asks for `asked` of what is missing. -/
inductive Gives (asked : UInt32 → UInt32) (stream : List UInt8) (size : ℕ) :
    List IoChoice → ℕ → Prop
  | start : Gives asked stream size [] 0
  | call {cs : List IoChoice} {q k : ℕ} (h : Gives asked stream size cs q) (hlt : q < size)
      (hk : 0 < k) (hmore : q < stream.length) :
      Gives asked stream size (cs ++ [.upTo k])
        (q + min (min k (asked (UInt32.ofNat (size - q))).toNat) (stream.length - q))

section Loop

variable {asked : UInt32 → UInt32} {fresh : Mem} {stream : List UInt8} {size : UInt32}
  {cs rest choices : List IoChoice} {q k : ℕ} {v : RecvVars}

/-- A loop after calls that gave something. -/
def Resumes (asked : UInt32 → UInt32) (fresh : Mem) (stream : List UInt8) (size : UInt32)
    (cs : List IoChoice) (v : RecvVars) : Prop :=
  ∀ rest, recvLoop asked size fresh stream (cs ++ rest)
    = drive recvNext (recvCall asked size.toNat) rest v

theorem Gives.resumes (hasked : ∀ n, n ≠ 0 → 0 < asked n ∧ asked n ≤ n) (fresh : Mem)
    (h : Gives asked stream size.toNat cs q) :
    ∃ v, AtByte fresh stream size.toNat q v ∧ q ≤ size.toNat ∧
      Resumes asked fresh stream size cs v := by
  induction h with
  | start =>
    exact ⟨⟨size, 0, fresh, stream⟩, ⟨rfl, rfl, rfl, (Mem.write_nil fresh 0).symm, Nat.zero_le _⟩,
      Nat.zero_le _, fun _ => rfl⟩
  | @call cs q k _ hlt hk hmore ih =>
    obtain ⟨v, hat, -, hresumes⟩ := ih
    have hleft : v.leftToRecv = UInt32.ofNat (size.toNat - q) := by
      have hnat := hat.leftToRecv
      rw [← UInt32.ofNat_toNat (x := v.leftToRecv)]
      congr 1
      omega
    obtain ⟨r, hr, hfits, hcall⟩ := recvCall_eq hasked size.toNat_lt hat hlt k
    have hpos : 0 < (asked v.leftToRecv).toNat := (hasked _ (hat.leftToRecv_ne_zero hlt)).1
    obtain ⟨-, v', hcall, hat'⟩ := hcall.resolve_left fun h => by omega
    rw [← hleft, ← hr]
    refine ⟨v', hat', hfits, fun rest => ?_⟩
    rw [List.append_assoc, hresumes, List.singleton_append,
      drive_cons_of_inr (recvNext_of_lt hat hlt) hcall]

theorem Gives.positive {n : ℕ} (h : Gives asked stream n cs q) : ∀ c ∈ cs, Positive c := by
  induction h with
  | start => exact nofun
  | call _ _ hk _ ih =>
    exact List.forall_mem_append.mpr ⟨ih, List.forall_mem_singleton.mpr ⟨_, hk, rfl⟩⟩

theorem Gives.length_le (hasked : ∀ n, n ≠ 0 → 0 < asked n ∧ asked n ≤ n)
    (h : Gives asked stream size.toNat cs q) : cs.length ≤ q := by
  induction h with
  | start => exact Nat.le_refl 0
  | @call cs q k _ hlt hk hmore ih =>
    have hsize := size.toNat_lt
    have hne : UInt32.ofNat (size.toNat - q) ≠ 0 := by
      intro hzero
      have hnat : (UInt32.ofNat (size.toNat - q)).toNat = size.toNat - q :=
        UInt32.toNat_ofNat_of_lt' (show size.toNat - q < 4294967296 by omega)
      rw [hzero] at hnat
      exact Nat.sub_ne_zero_of_lt hlt hnat.symm
    have hpos : 0 < (asked (UInt32.ofNat (size.toNat - q))).toNat := (hasked _ hne).1
    rw [List.length_append, List.length_singleton]
    omega

theorem Gives.eq_zero_of_nil {n : ℕ} (h : Gives asked stream n cs q) (hnil : cs = []) : q = 0 := by
  cases h with
  | start => rfl
  | call => exact absurd hnil (List.append_ne_nil_of_right_ne_nil _ (List.cons_ne_nil _ _))

/-! What the loop returns. -/

theorem Resumes.complete (hat : AtByte fresh stream size.toNat size.toNat v)
    (h : Resumes asked fresh stream size cs v) (rest : List IoChoice) :
    recvLoop asked size fresh stream (cs ++ rest) = .ok (.finished (.complete v) rest) := by
  rw [h, drive_of_inl (recvNext_complete hat)]

theorem Resumes.disconnected (hasked : ∀ n, n ≠ 0 → 0 < asked n ∧ asked n ≤ n)
    (hat : AtByte fresh stream size.toNat q v) (h : Resumes asked fresh stream size cs v)
    (hlt : q < size.toNat) (hnone : k = 0 ∨ q = stream.length) (rest : List IoChoice) :
    recvLoop asked size fresh stream (cs ++ .upTo k :: rest)
      = .ok (.finished (.disconnected v) rest) := by
  obtain ⟨r, hr, -, hcall⟩ := recvCall_eq hasked size.toNat_lt hat hlt k
  obtain ⟨-, hcall⟩ := hcall.resolve_right fun h => by omega
  rw [h, drive_cons_of_inl (recvNext_of_lt hat hlt) hcall]

theorem Resumes.thrown (hat : AtByte fresh stream size.toNat q v)
    (h : Resumes asked fresh stream size cs v) (hlt : q < size.toNat) (rest : List IoChoice) :
    recvLoop asked size fresh stream (cs ++ .fail :: rest) = .ok (.finished (.thrown v) rest) := by
  rw [h, drive_cons_of_inl (recvNext_of_lt hat hlt) rfl]

theorem Resumes.waiting (hat : AtByte fresh stream size.toNat q v)
    (h : Resumes asked fresh stream size cs v) (hlt : q < size.toNat) :
    recvLoop asked size fresh stream cs = .ok (.waiting v) := by
  have hnil := h []
  rw [List.append_nil] at hnil
  rw [hnil, drive_nil_of_inr (recvNext_of_lt hat hlt)]

/-- The ways in which the calls can go. -/
inductive LoopCase (asked : UInt32 → UInt32) (stream : List UInt8) (size : ℕ)
    (choices : List IoChoice) : Prop
  | complete {cs rest : List IoChoice} (hchoices : choices = cs ++ rest)
      (h : Gives asked stream size cs size)
  | disconnected {cs rest : List IoChoice} {k q : ℕ} (hchoices : choices = cs ++ .upTo k :: rest)
      (h : Gives asked stream size cs q) (hlt : q < size) (hnone : k = 0 ∨ q = stream.length)
  | thrown {cs rest : List IoChoice} {q : ℕ} (hchoices : choices = cs ++ .fail :: rest)
      (h : Gives asked stream size cs q) (hlt : q < size)
  | waiting {q : ℕ} (h : Gives asked stream size choices q) (hlt : q < size)

theorem Gives.loopCase (hasked : ∀ n, n ≠ 0 → 0 < asked n ∧ asked n ≤ n)
    (h : Gives asked stream size.toNat cs q) (rest : List IoChoice) :
    LoopCase asked stream size.toNat (cs ++ rest) := by
  induction rest generalizing cs q with
  | nil =>
    obtain ⟨_, _, hq, -⟩ := h.resumes hasked fun _ => 0
    rcases Nat.lt_or_eq_of_le hq with hlt | rfl
    · rw [List.append_nil]
      exact .waiting h hlt
    · exact .complete rfl h
  | cons c rest ih =>
    obtain ⟨_, hat, hq, -⟩ := h.resumes hasked fun _ => 0
    have hle := hat.le
    rcases Nat.lt_or_eq_of_le hq with hlt | rfl
    · rcases c with _ | k
      · exact .thrown rfl h hlt
      · by_cases hnone : k = 0 ∨ q = stream.length
        · exact .disconnected rfl h hlt hnone
        · have hnext := ih (h.call hlt (k := k) (by omega) (by omega))
          rwa [List.append_assoc, List.singleton_append] at hnext
    · exact .complete rfl h

theorem loopCase (hasked : ∀ n, n ≠ 0 → 0 < asked n ∧ asked n ≤ n) (stream : List UInt8)
    (size : UInt32) (choices : List IoChoice) : LoopCase asked stream size.toNat choices :=
  Gives.loopCase hasked .start choices

end Loop

/-! ### The end of a loop -/

/-- What a receive loop comes to.  A loop that is complete, or is waiting, has used as many calls as
it has bytes at most, and all of them have given some. -/
inductive LoopEnd (fresh : Mem) (stream : List UInt8) (size : ℕ) (choices : List IoChoice) :
    Driven RecvVars IoChoice RecvEnd → Prop
  | complete {v : RecvVars} {used unused : List IoChoice} (h : AtByte fresh stream size size v)
      (hused : choices = used ++ unused) (hpos : ∀ c ∈ used, Positive c)
      (hle : used.length ≤ size) (hnone : used = [] → size = 0) :
      LoopEnd fresh stream size choices (.finished (.complete v) unused)
  | disconnected {q : ℕ} {v : RecvVars} {unused : List IoChoice}
      (h : AtByte fresh stream size q v) (hlt : q < size)
      (hzero : .upTo 0 ∈ choices ∨ q = stream.length) :
      LoopEnd fresh stream size choices (.finished (.disconnected v) unused)
  | thrown {q : ℕ} {v : RecvVars} {unused : List IoChoice} (h : AtByte fresh stream size q v)
      (hlt : q < size) (hfail : .fail ∈ choices) :
      LoopEnd fresh stream size choices (.finished (.thrown v) unused)
  | waiting {q : ℕ} {v : RecvVars} (h : AtByte fresh stream size q v) (hlt : q < size)
      (hpos : ∀ c ∈ choices, Positive c) (hle : choices.length ≤ q) :
      LoopEnd fresh stream size choices (.waiting v)

/-- **A receive loop**, whatever the sizes that it asks for. -/
theorem recvLoop_end {asked : UInt32 → UInt32}
    (hasked : ∀ n, n ≠ 0 → 0 < asked n ∧ asked n ≤ n) (size : UInt32)
    (fresh : Mem) (stream : List UInt8) (choices : List IoChoice) :
    ∃ d, recvLoop asked size fresh stream choices = .ok d ∧
      LoopEnd fresh stream size.toNat choices d := by
  cases loopCase hasked stream size choices with
  | complete hchoices h =>
    subst hchoices
    obtain ⟨v, hat, -, hresumes⟩ := h.resumes hasked fresh
    exact ⟨_, hresumes.complete hat _,
      .complete hat rfl h.positive (h.length_le hasked) h.eq_zero_of_nil⟩
  | @disconnected cs rest k q hchoices h hlt hnone =>
    subst hchoices
    obtain ⟨v, hat, -, hresumes⟩ := h.resumes hasked fresh
    refine ⟨_, hresumes.disconnected hasked hat hlt hnone _, .disconnected hat hlt ?_⟩
    refine hnone.imp_left ?_
    rintro rfl
    exact List.mem_append_right cs List.mem_cons_self
  | @thrown cs rest q hchoices h hlt =>
    subst hchoices
    obtain ⟨v, hat, -, hresumes⟩ := h.resumes hasked fresh
    exact ⟨_, hresumes.thrown hat hlt _,
      .thrown hat hlt (List.mem_append_right cs List.mem_cons_self)⟩
  | waiting h hlt =>
    obtain ⟨v, hat, -, hresumes⟩ := h.resumes hasked fresh
    exact ⟨_, hresumes.waiting hat hlt, .waiting hat hlt h.positive (h.length_le hasked)⟩

end Lab1.Task1.Wire
