import Lab1.Task1.Wire
import Mathlib.Data.List.Infix

/-!
# What a send loop puts on the wire

`CommunicatingSocket::send` does not return how many bytes were taken, and the loops go on as if all
of them were.  Call number `i` offers the bytes from `1024 * i` on (`Sending`), whatever the calls
before it have taken, so the package is on the wire in full if and only if no call takes less than
it is offered (`sendsExactly_iff`).
-/

namespace Lab1.Task1.Wire

open Shr (IoChoice)

/-! ### The property -/

/-- A package on the wire: the header in network order, and the message. -/
def packed (flags : UInt32) (msg : Serialized) : List UInt8 :=
  netBytes msg.bytes.length ++ netBytes flags.toNat ++ msg.bytes

/-- The loop ends, and exactly `bytes` are on the wire. -/
def SendsExactly (run : Except Fault (List UInt8 ⊕ SendLoopVars)) (bytes : List UInt8) : Prop :=
  ∃ v, run = .ok (.inr v) ∧ v.output = bytes

/-- Every call of `send` that offers some of the `total` bytes takes all that it offers. -/
def TakesAll (total : ℕ) (choice : ℕ → IoChoice) : Prop :=
  ∀ i, 1024 * i < total → ∃ k, choice i = .upTo k ∧ min 1024 (total - 1024 * i) ≤ k

/-! ### The loop -/

/-- The variables after `i` calls. -/
structure Sending (total i : ℕ) (v : SendLoopVars) : Prop where
  left : v.sentBufferSizeLeft.toNat = total - 1024 * i
  totalSent : 1024 * i < total → v.totalSent.toNat = 1024 * i
  calls : v.calls = i

section Loop

variable {sentBuffer : Mem} {choice : ℕ → IoChoice} {total i : ℕ} {v : SendLoopVars}

theorem toNat_min_maximum (n : UInt32) :
    (min n maximumPackageBufferSize).toNat = min 1024 n.toNat := by
  have hmin : min n maximumPackageBufferSize
      = if n ≤ maximumPackageBufferSize then n else maximumPackageBufferSize := rfl
  have hmax : maximumPackageBufferSize.toNat = 1024 := rfl
  rw [hmin]
  split_ifs with hle
  · rw [UInt32.le_iff_toNat_le, hmax] at hle
    omega
  · rw [UInt32.le_iff_toNat_le, hmax] at hle
    omega

theorem sendTurn_fail (h : Sending total i v) (hchoice : choice i = .fail) :
    sendTurn sentBuffer choice v = .ok (.inl v.output) := by
  rw [sendTurn, h.calls, hchoice]
  rfl

/-- A turn goes on by 1024 bytes, or to the end, however many bytes are taken. -/
theorem sendTurn_upTo (sentBuffer : Mem) (htotal : total < 4294967296) (h : Sending total i v)
    (hlt : 1024 * i < total) {k : ℕ} (hchoice : choice i = .upTo k) :
    ∃ v', sendTurn sentBuffer choice v = .ok (.inr v') ∧ Sending total (i + 1) v' ∧
      v'.output = v.output ++ sentBuffer.read (1024 * i) (min k (min 1024 (total - 1024 * i))) := by
  have hleft := h.left
  have hlt32 := v.sentBufferSizeLeft.toNat_lt
  have hsent32 := v.totalSent.toNat_lt
  have hsent := h.totalSent hlt
  have hsize := toNat_min_maximum v.sentBufferSizeLeft
  rw [hleft] at hsize
  have hle : min v.sentBufferSizeLeft maximumPackageBufferSize ≤ v.sentBufferSizeLeft := by
    rw [UInt32.le_iff_toNat_le, hsize, hleft]
    omega
  have hturn : sendTurn sentBuffer choice v = .ok (.inr
      ⟨v.sentBufferSizeLeft - min v.sentBufferSizeLeft maximumPackageBufferSize,
        v.totalSent + min v.sentBufferSizeLeft maximumPackageBufferSize,
        v.output ++ (sentBuffer.read v.totalSent.toNat
          (min v.sentBufferSizeLeft maximumPackageBufferSize).toNat).take k,
        v.calls + 1⟩) := by
    rw [sendTurn, h.calls, hchoice]
    rfl
  refine ⟨_, hturn, ⟨?_, fun hnext => ?_, ?_⟩, ?_⟩
  · show (v.sentBufferSizeLeft - min v.sentBufferSizeLeft maximumPackageBufferSize).toNat = _
    rw [UInt32.toNat_sub_of_le _ _ hle, hsize, hleft]
    omega
  · show (v.totalSent + min v.sentBufferSizeLeft maximumPackageBufferSize).toNat = _
    rw [UInt32.toNat_add, hsent, hsize]
    omega
  · show v.calls + 1 = i + 1
    rw [h.calls]
  · show v.output ++ (sentBuffer.read _ _).take k = _
    have htake : (sentBuffer.read (1024 * i) (min 1024 (total - 1024 * i))).take k
        = (sentBuffer.read (1024 * i) (min 1024 (total - 1024 * i))).take
          (min k (min 1024 (total - 1024 * i))) := by
      rw [List.take_eq_take_iff, Mem.length_read, Nat.min_assoc, Nat.min_self]
    rw [hsent, hsize, htake, Mem.take_read _ _ (Nat.min_le_right _ _)]

/-- What a call is offered, and what is offered later. -/
theorem read_offered (sentBuffer : Mem) (total i : ℕ) :
    sentBuffer.read (1024 * i) (min 1024 (total - 1024 * i))
        ++ sentBuffer.read (1024 * (i + 1)) (total - 1024 * (i + 1))
      = sentBuffer.read (1024 * i) (total - 1024 * i) := by
  rcases Nat.le_total (total - 1024 * i) 1024 with hle | hle
  · have hnone : total - 1024 * (i + 1) = 0 := by omega
    rw [Nat.min_eq_right hle, hnone, Mem.read_zero, List.append_nil]
  · have hsum : total - 1024 * i = 1024 + (total - 1024 * (i + 1)) := by omega
    rw [Nat.min_eq_left hle, hsum, Mem.read_add, Nat.mul_succ]

/-- There is more to send. -/
def sendCond (v : SendLoopVars) : Bool := decide (0 < v.sentBufferSizeLeft)

theorem sendCond_eq (h : Sending total i v) : sendCond v = decide (1024 * i < total) := by
  have hleft := h.left
  rw [sendCond, decide_eq_decide, UInt32.lt_iff_toNat_lt]
  show 0 < v.sentBufferSizeLeft.toNat ↔ _
  omega

/-- The calls from `i` on take what they are offered. -/
def TakesFrom (total i : ℕ) (choice : ℕ → IoChoice) : Prop :=
  ∀ j, i ≤ j → 1024 * j < total → ∃ k, choice j = .upTo k ∧ min 1024 (total - 1024 * j) ≤ k

theorem TakesFrom.succ (h : TakesFrom total i choice) : TakesFrom total (i + 1) choice :=
  fun j hj => h j (Nat.le_of_succ_le hj)

theorem TakesFrom.of_succ {k : ℕ} (hchoice : choice i = .upTo k)
    (hk : min 1024 (total - 1024 * i) ≤ k) (h : TakesFrom total (i + 1) choice) :
    TakesFrom total i choice := by
  intro j hj hlt
  rcases Nat.lt_or_eq_of_le hj with hlt' | rfl
  · exact h j hlt' hlt
  · exact ⟨k, hchoice, hk⟩

/-- Where the calls take what they are offered, the rest of the buffer is sent. -/
theorem whileLoop_sendTurn_of_takes (sentBuffer : Mem) (htotal : total < 4294967296) {fuel : ℕ}
    (hfuel : total - 1024 * i < fuel) (h : Sending total i v) (htakes : TakesFrom total i choice) :
    ∃ v', whileLoop sendCond (sendTurn sentBuffer choice) fuel v = .ok (.inr v') ∧
      v'.output = v.output ++ sentBuffer.read (1024 * i) (total - 1024 * i) := by
  induction fuel generalizing i v with
  | zero => omega
  | succ fuel ih =>
    have hcond := sendCond_eq h
    by_cases hlt : 1024 * i < total
    · rw [decide_eq_true hlt] at hcond
      obtain ⟨k, hchoice, hk⟩ := htakes i (Nat.le_refl i) hlt
      obtain ⟨v₁, hturn, h₁, hout₁⟩ := sendTurn_upTo sentBuffer htotal h hlt hchoice
      obtain ⟨v', hrun, hout⟩ := ih (by omega) h₁ htakes.succ
      refine ⟨v', (whileLoop_of_inr hcond hturn).trans hrun, ?_⟩
      rw [hout, hout₁, Nat.min_eq_right hk, List.append_assoc]
      exact congrArg (v.output ++ ·) (read_offered sentBuffer total i)
    · rw [decide_eq_false hlt] at hcond
      refine ⟨v, whileLoop_of_not hcond, ?_⟩
      have hnone : total - 1024 * i = 0 := by omega
      rw [hnone, Mem.read_zero, List.append_nil]

/-- The loop sends no more than the rest of the buffer, and all of it only where the calls take what
they are offered. -/
theorem whileLoop_sendTurn_le (htotal : total < 4294967296) {fuel : ℕ} (h : Sending total i v)
    {v' : SendLoopVars}
    (hrun : whileLoop sendCond (sendTurn sentBuffer choice) fuel v = .ok (.inr v')) :
    v'.output.length ≤ v.output.length + (total - 1024 * i) ∧
      (v'.output.length = v.output.length + (total - 1024 * i) → TakesFrom total i choice) := by
  induction fuel generalizing i v with
  | zero => cases hrun
  | succ fuel ih =>
    have hcond := sendCond_eq h
    by_cases hlt : 1024 * i < total
    · rw [decide_eq_true hlt] at hcond
      rcases hchoice : choice i with _ | k
      · rw [whileLoop_of_inl hcond (sendTurn_fail h hchoice)] at hrun
        cases hrun
      · obtain ⟨v₁, hturn, h₁, hout₁⟩ :=
          sendTurn_upTo sentBuffer htotal h hlt hchoice
        rw [whileLoop_of_inr hcond hturn] at hrun
        obtain ⟨hle, htakes⟩ := ih h₁ hrun
        rw [hout₁, List.length_append, Mem.length_read] at hle htakes
        refine ⟨by omega, fun hlen => ?_⟩
        exact TakesFrom.of_succ hchoice (by omega) (htakes (by omega))
    · rw [decide_eq_false hlt] at hcond
      rw [whileLoop_of_not hcond] at hrun
      cases hrun
      refine ⟨Nat.le_add_right _ _, fun _ j hj hlt' => ?_⟩
      omega

/-- What a loop sends of the buffer. -/
theorem sendsExactly_sendLoop (sentBuffer : Mem) (size : UInt32) (choice : ℕ → IoChoice) :
    SendsExactly (sendLoop sentBuffer size choice) (sentBuffer.read 0 size.toNat) ↔
      TakesAll size.toNat choice := by
  have hstart : Sending size.toNat 0 ⟨size, 0, [], 0⟩ := ⟨rfl, fun _ => rfl, rfl⟩
  have hfrom : TakesFrom size.toNat 0 choice ↔ TakesAll size.toNat choice :=
    ⟨fun h i => h i (Nat.zero_le i), fun h i _ => h i⟩
  rw [← hfrom]
  constructor
  · rintro ⟨v, hrun, hout⟩
    obtain ⟨_, htakes⟩ := whileLoop_sendTurn_le size.toNat_lt hstart hrun
    apply htakes
    rw [hout, Mem.length_read]
    exact (Nat.zero_add _).symm
  · intro htakes
    obtain ⟨v, hrun, hout⟩ := whileLoop_sendTurn_of_takes sentBuffer
      size.toNat_lt (Nat.lt_succ_self _) hstart htakes
    exact ⟨v, hrun, hout⟩

end Loop

/-! ### The packages -/

theorem Serialized.toNat_total (msg : Serialized) :
    (sizeofPackageHeader + UInt32.ofNat msg.bytes.length).toNat = 8 + msg.bytes.length := by
  have hlt := msg.length_lt
  have hsize : (UInt32.ofNat msg.bytes.length).toNat = msg.bytes.length :=
    UInt32.toNat_ofNat_of_lt' (show msg.bytes.length < 4294967296 by omega)
  have hheader : sizeofPackageHeader.toNat = 8 := rfl
  rw [UInt32.toNat_add, hsize, hheader]
  omega

/-- The buffer holds the package. -/
theorem read_packSentBuffer (fresh : Mem) (msg : Serialized) (flags : UInt32) :
    (packSentBuffer fresh msg flags).read 0 (8 + msg.bytes.length) = packed flags msg := by
  have hbody : sizeofPackageHeader.toNat = 8 := rfl
  have hlen : (packed flags msg).length = 8 + msg.bytes.length := by
    rw [packed, List.length_append]
    rfl
  rw [← hlen, packed, Mem.read_append_iff, Mem.read_append_iff]
  refine ⟨⟨?_, ?_⟩, ?_⟩
  · -- the size, which the flags do not cover
    rw [packSentBuffer, Mem.read_write_of_apart _ _ (Or.inl (Nat.le_refl 4))]
    exact Mem.read_write _ 0 _
  · exact Mem.read_write _ 4 _
  · show (packSentBuffer fresh msg flags).read 8 msg.bytes.length = msg.bytes
    rw [packSentBuffer, Mem.read_write_of_apart _ _ (Or.inr (Nat.le_refl 8)),
      Mem.read_write_of_apart _ _ (Or.inr (by show 0 + 4 ≤ 8; decide)), hbody]
    exact Mem.read_write _ 8 _

/-- **The send loops** put the package on the wire, exactly and in order, if and only if every call
of `send` takes all the bytes that it is offered. -/
theorem sendsExactly_iff (fresh : Mem) (msg : Serialized) (flags : UInt32)
    (choice : ℕ → IoChoice) :
    (SendsExactly (sendBulk fresh msg flags choice) (packed flags msg) ↔
      TakesAll (8 + msg.bytes.length) choice) ∧
    (SendsExactly (sendQuery fresh msg choice) (packed protocolProtobuf msg) ↔
      TakesAll (8 + msg.bytes.length) choice) := by
  have hloop : ∀ flags, SendsExactly (sendBulk fresh msg flags choice) (packed flags msg) ↔
      TakesAll (8 + msg.bytes.length) choice := by
    intro flags
    rw [← read_packSentBuffer fresh, ← msg.toNat_total]
    exact sendsExactly_sendLoop _ _ choice
  exact ⟨hloop flags, hloop protocolProtobuf⟩

/-! ### One byte a call -/

/-- The system takes a single byte of whatever it is offered. -/
def oneByte : ℕ → IoChoice := fun _ => .upTo 1

/-- A message without a byte. -/
def emptyMessage : Serialized := ⟨[], by decide⟩

/-- The loops offer the eight bytes of the header once, and count them as sent. -/
theorem not_sendsExactly_oneByte :
    (∀ i, ∃ k, 0 < k ∧ oneByte i = .upTo k) ∧
      ¬SendsExactly (sendBulk (fun _ => 0) emptyMessage protocolProtobuf oneByte)
        (packed protocolProtobuf emptyMessage) ∧
      ¬SendsExactly (sendQuery (fun _ => 0) emptyMessage oneByte)
        (packed protocolProtobuf emptyMessage) := by
  have hloop : ¬SendsExactly (sendBulk (fun _ => 0) emptyMessage protocolProtobuf oneByte)
      (packed protocolProtobuf emptyMessage) := by
    have hrun : sendBulk (fun _ => 0) emptyMessage protocolProtobuf oneByte
        = .ok (.inr ⟨0, 8, [0], 1⟩) := rfl
    rintro ⟨v, hv, hout⟩
    rw [hrun] at hv
    cases hv
    exact absurd hout (by decide)
  exact ⟨fun _ => ⟨1, Nat.one_pos, rfl⟩, hloop, hloop⟩

end Lab1.Task1.Wire
