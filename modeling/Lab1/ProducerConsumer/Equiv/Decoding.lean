import Lab1.Library.Frames
import Lab1.ProducerConsumer.Tasks

/-!
# Messages and `read` calls

`readFromSocket` takes what one `read` call returns for a message.  The bytes that are missing stay
zero, and the next call goes on in the middle of the message: a stream socket may cut its bytes
anywhere.

`decodesExactly_iff` says which cuts do no harm: only the one into whole messages.
-/

namespace Lab1.ProducerConsumer

open Frames

/-- From `read` calls with these results the messages `msgs` are handled, and the producer is taken
to be gone at the end of the stream. -/
def DecodesExactly (msgs : List ConsumerDataMsg) (reads : List (List UInt8)) : Prop :=
  handleNewConnection reads = (msgs, [])

/-! ### One message -/

@[simp] theorem length_intBytes (i : Int32) : (intBytes i).length = 4 := rfl

theorem length_bytes (msg : ConsumerDataMsg) : msg.bytes.length = sizeofConsumerDataMsg := by
  simp [ConsumerDataMsg.bytes, sizeofConsumerDataMsg]

theorem intAt_of_read {m : Mem} {a : ℕ} {i : Int32} (h : m.read a 4 = intBytes i) :
    intAt m a = i := by
  rw [intAt, Mem.word_of_read i.toUInt32.toNat_lt h, UInt32.ofNat_toNat]

/-- The object is read as it was written. -/
theorem readFromSocket_bytes (msg : ConsumerDataMsg) : readFromSocket msg.bytes = msg := by
  have hread : (Mem.ofList msg.bytes).read 0 (intBytes msg.type ++
      (intBytes msg.id ++ msg.data2.toList)).length
      = intBytes msg.type ++ (intBytes msg.id ++ msg.data2.toList) :=
    (Mem.read_ofList (Nat.le_refl _)).trans List.take_length
  rw [Mem.read_append_iff, Mem.read_append_iff] at hread
  obtain ⟨htype, hid, hdata⟩ := hread
  have htype : intAt (Mem.ofList msg.bytes) 0 = msg.type := intAt_of_read htype
  have hid : intAt (Mem.ofList msg.bytes) 4 = msg.id := intAt_of_read hid
  have hdata : (Vector.ofFn fun i : Fin 1024 => Mem.ofList msg.bytes (8 + i)) = msg.data2 := by
    apply Vector.ext
    intro i hi
    have hget := List.getElem_of_eq hdata (i := i) (by simp [hi])
    rw [Mem.getElem_read, Vector.getElem_toList] at hget
    rw [Vector.getElem_ofFn]
    exact hget
  show ConsumerDataMsg.mk _ _ _ = msg
  rw [htype, hid, hdata]

/-- At the end of the stream the producer is taken to be gone. -/
example : (readFromSocket []).id = 0 := by decide

/-! ### The loop -/

theorem handleNewConnection_cons {amount : List UInt8} {reads : List (List UInt8)}
    (h : (readFromSocket amount).id ≠ 0) :
    handleNewConnection (amount :: reads) =
      (readFromSocket amount :: (handleNewConnection reads).1, (handleNewConnection reads).2) :=
  if_neg h

/-- Whole messages are handled one after the other. -/
theorem handleNewConnection_bytes {msgs : List ConsumerDataMsg} (hids : ∀ msg ∈ msgs, msg.id ≠ 0) :
    DecodesExactly msgs (msgs.map ConsumerDataMsg.bytes) := by
  induction msgs with
  | nil => rfl
  | cons msg msgs ih =>
    have hids := List.forall_mem_cons.mp hids
    have hrest : handleNewConnection (msgs.map ConsumerDataMsg.bytes) = (msgs, []) := ih hids.2
    unfold DecodesExactly
    rw [List.map_cons, handleNewConnection_cons (by rw [readFromSocket_bytes]; exact hids.1),
      readFromSocket_bytes, hrest]

/-- Every call gives a message, or else is the last. -/
theorem DecodesExactly.length_eq {msgs : List ConsumerDataMsg} {reads : List (List UInt8)}
    (h : DecodesExactly msgs reads) : reads.length = msgs.length := by
  induction reads generalizing msgs with
  | nil =>
    obtain rfl : [] = msgs := congrArg Prod.fst h
    rfl
  | cons amount reads ih =>
    unfold DecodesExactly at h
    by_cases hid : (readFromSocket amount).id = 0
    · -- the producer is taken to be gone before the end
      rw [handleNewConnection, if_pos hid] at h
      exact absurd (congrArg Prod.snd h) (List.cons_ne_nil _ _)
    · rw [handleNewConnection_cons hid] at h
      obtain ⟨rfl, hleft⟩ := Prod.mk.inj h
      rw [List.length_cons, List.length_cons, ih (Prod.ext rfl hleft)]

/-- **Decoding and the cuts of the stream.**  For messages with non-zero ids, whose bytes come in
pieces of at most the size asked for, the messages handled are those that were written, and the
producer is taken to be gone at the end of the stream only, if and only if every piece is of the
full size. -/
theorem decodesExactly_iff {msgs : List ConsumerDataMsg} (hids : ∀ msg ∈ msgs, msg.id ≠ 0)
    {reads : List (List UInt8)} (hstream : reads.flatten = msgs.flatMap ConsumerDataMsg.bytes)
    (hreads : ∀ amount ∈ reads, amount ≠ [] ∧ amount.length ≤ sizeofConsumerDataMsg) :
    DecodesExactly msgs reads ↔ ∀ amount ∈ reads, amount.length = sizeofConsumerDataMsg := by
  have hn : 0 < sizeofConsumerDataMsg := by decide
  have hframes : ∀ frame ∈ msgs.map ConsumerDataMsg.bytes,
      frame.length = sizeofConsumerDataMsg := by
    intro frame hframe
    obtain ⟨msg, _, rfl⟩ := List.mem_map.mp hframe
    exact length_bytes msg
  have hflat : reads.flatten = (msgs.map ConsumerDataMsg.bytes).flatten := hstream
  constructor
  · intro h
    rw [forall_length_eq_iff hn (fun amount hamount => (hreads amount hamount).2) hframes hflat,
      h.length_eq, List.length_map]
  · intro hfull
    rw [eq_of_flatten_eq hn hfull hframes hflat]
    exact handleNewConnection_bytes hids

/-- The first messages of a producer, each read at once. -/
theorem decodesExactly_first :
    DecodesExactly ([1, 2, 3].map dataMsg) (([1, 2, 3].map dataMsg).map ConsumerDataMsg.bytes) := by
  have hread : ∀ amount ∈ ([1, 2, 3].map dataMsg).map ConsumerDataMsg.bytes,
      amount.length = sizeofConsumerDataMsg := by
    intro amount hamount
    obtain ⟨msg, _, rfl⟩ := List.mem_map.mp hamount
    exact length_bytes msg
  refine (decodesExactly_iff (by decide) List.flatMap_def.symm ?_).mpr hread
  intro amount hamount
  refine ⟨List.ne_nil_of_length_pos ?_, (hread amount hamount).le⟩
  rw [hread amount hamount]
  decide

/-- The same message in two pieces, the first of four bytes. -/
theorem not_decodesExactly_cut :
    [(dataMsg 1).bytes.take 4, (dataMsg 1).bytes.drop 4].flatten
        = [dataMsg 1].flatMap ConsumerDataMsg.bytes ∧
      ¬DecodesExactly [dataMsg 1] [(dataMsg 1).bytes.take 4, (dataMsg 1).bytes.drop 4] := by
  refine ⟨by simp, fun h => ?_⟩
  have hlen : 2 = 1 := h.length_eq
  exact absurd hlen (by decide)

end Lab1.ProducerConsumer
