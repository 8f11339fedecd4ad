import Lab1.Task1.Equiv.Answers
import Lab1.Task1.Equiv.Reassembly
import Lab1.Task1.Equiv.Sending

/-!
# Answers over the wire

The model of the data stream sends and receives packages; `Wire` sends and receives bytes.  When the
system takes all that it is offered, an answer goes out as the bytes of its packages, and when it
gives some bytes in every call, the receiver gets the messages of an answer that ends, one after the
other, and leaves nothing (`handleProtoBuffRecv_wire`).
-/

namespace Lab1.Task1.Wire

open Shr (IoChoice)

variable {T : Type} (serialize : Respond T → Serialized)

/-- A package as it goes over the wire. -/
def wire (p : Package T) : WirePackage :=
  ⟨p.flags, (serialize p.msg).bytes, (serialize p.msg).length_lt⟩

/-! ### A stream that is not cut off -/

section Whole

variable {M : Type} {parseFromArray : List UInt8 → Option M} {more : UInt32 → Bool}
  {choices : List IoChoice} {ps read left front : List WirePackage} {last : WirePackage}

theorem eq_nil_or_subset (h : read ++ left = front ++ [last]) : left = [] ∨ read ⊆ front := by
  rcases List.eq_nil_or_concat left with rfl | ⟨left, p, rfl⟩
  · exact Or.inl rfl
  · rw [List.concat_eq_append, ← List.append_assoc] at h
    obtain ⟨hfront, _⟩ := List.append_inj' h rfl
    rw [← hfront]
    exact Or.inr (List.subset_append_left read left)

/-- Where a stream that is not cut off is interrupted, there is more to come. -/
theorem Interrupted.lt {input : List UInt8} {m : ℕ}
    (h : Interrupted parseFromArray more (streamOf (read ++ left)) read left input m)
    (hps : read ++ left = front ++ [last]) (hlast : more last.packageFlags = false) :
    (streamOf read).length + m < (streamOf (read ++ left)).length := by
  have hwithin := h.within
  rcases left with _ | ⟨p, left⟩
  · -- the last package does not go on
    rw [List.append_nil] at hps
    have hmem : last ∈ read := hps ▸ List.mem_append_right _ (List.mem_singleton_self last)
    have hcont := (h.continues last hmem).1
    rw [hlast] at hcont
    cases hcont
  · have hwithin : m < p.bytes.length := hwithin
    rw [length_streamOf_append, length_streamOf_cons]
    omega

/-- Packages that come in as a whole, the last of which is not to be continued, are all received. -/
theorem Reassembles.whole {r : Reception M} (h : Reassembles parseFromArray more
      (streamOf (read ++ left)) choices read left r) (hps : read ++ left = front ++ [last])
    (hfront : ∀ q ∈ front, more q.packageFlags = true) (hlast : more last.packageFlags = false)
    (hparse : ∀ q ∈ read ++ left, (parseFromArray q.payload).isSome = true)
    (hpos : ∀ c ∈ choices, Positive c)
    (hcalls : (streamOf (read ++ left)).length < choices.length) :
    r.stop = .done ∧ left = [] := by
  have hstop := h.stop
  rcases hr : r.stop with _ | _ | _ | _ | ⟨v, size⟩
  · rw [hr] at hstop
    obtain ⟨_, _, front', p, rfl, _, hp, _⟩ := hstop
    refine ⟨rfl, (eq_nil_or_subset hps).resolve_right fun hsub => ?_⟩
    have hmem := hsub (List.mem_append_right _ (List.mem_singleton_self p))
    rw [hfront p hmem] at hp
    cases hp
  · rw [hr] at hstop
    obtain ⟨_, _, front', p, rfl, _, hp⟩ := hstop
    have hsome := hparse p (List.mem_append_left _ (List.mem_append_right _
      (List.mem_singleton_self p)))
    rw [hp] at hsome
    cases hsome
  · rw [hr] at hstop
    obtain ⟨m, hm, hzero | hend⟩ := hstop
    · obtain ⟨k, hk, heq⟩ := hpos _ hzero
      cases heq
      omega
    · exact absurd hend (Nat.ne_of_lt (hm.lt hps hlast))
  · rw [hr] at hstop
    obtain ⟨m, _, hfail⟩ := hstop
    obtain ⟨k, _, heq⟩ := hpos _ hfail
    cases heq
  · rw [hr] at hstop
    obtain ⟨m, hm, _, hle, _⟩ := hstop
    have hlt := hm.lt hps hlast
    omega

end Whole

/-! ### An answer -/

variable {serialize} {parseFromArray : List UInt8 → Option (Respond T)}

/-- The messages of packages that the parser reads back. -/
theorem filterMap_payload {ps : List (Package T)}
    (hparse : ∀ p ∈ ps, parseFromArray (serialize p.msg).bytes = some p.msg) :
    ((ps.map (wire serialize)).map WirePackage.payload).filterMap parseFromArray
      = ps.map Package.msg := by
  induction ps with
  | nil => rfl
  | cons p ps ih =>
    obtain ⟨hp, hps⟩ := List.forall_mem_cons.mp hparse
    have hpayload : parseFromArray (wire serialize p).payload = some p.msg := hp
    rw [List.map_cons, List.map_cons, List.filterMap_cons_some hpayload, ih hps, List.map_cons]

/-- **Receiving an answer**, byte by byte: the messages are those of its packages. -/
theorem handleProtoBuffRecv_wire (fresh : Mem) {ps : List (Package T)} (hterm : Terminated ps)
    (hparse : ∀ p ∈ ps, parseFromArray (serialize p.msg).bytes = some p.msg)
    {choices : List IoChoice} (hpos : ∀ c ∈ choices, Positive c)
    (hcalls : (streamOf (ps.map (wire serialize))).length < choices.length) :
    ∃ r, handleProtoBuffRecv parseFromArray fresh (streamOf (ps.map (wire serialize))) choices
        = .ok r ∧
      r.stop = .done ∧ r.messages = ps.map Package.msg ∧ r.input = [] := by
  obtain ⟨r, read, left, hrun, hps, hr⟩ := handleProtoBuffRecv_reassembles parseFromArray fresh
    (List.prefix_refl (streamOf (ps.map (wire serialize)))) choices
  have hsome : ∀ q ∈ ps.map (wire serialize), (parseFromArray q.payload).isSome = true := by
    intro q hq
    obtain ⟨p, hp, rfl⟩ := List.mem_map.mp hq
    have hpayload : parseFromArray (wire serialize p).payload = some p.msg := hparse p hp
    rw [hpayload]
    rfl
  obtain ⟨front, last, rfl, hfront, hlast⟩ := hterm
  have hcont : ∀ q ∈ front.map (wire serialize), isCont q.packageFlags = true := by
    intro q hq
    obtain ⟨p, hp, rfl⟩ := List.mem_map.mp hq
    exact hfront p hp
  have hsplit : read ++ left = front.map (wire serialize) ++ [wire serialize last] := by
    rw [← hps, List.map_append]
    rfl
  have hgiven := hr.given
  have hmessages := hr.messages
  rw [hps] at hr hcalls hsome
  obtain ⟨hdone, rfl⟩ := hr.whole hsplit hcont hlast hsome hpos hcalls
  rw [List.append_nil] at hps hr
  refine ⟨r, hrun, hdone, ?_, ?_⟩
  · rw [hmessages, hgiven, ← hps]
    exact filterMap_payload hparse
  · have hstop := hr.stop
    rw [hdone] at hstop
    obtain ⟨_, hinput, _⟩ := hstop
    rw [hinput, List.drop_length]

/-- Receiving an answer, package by package: its messages are consumed one after the other. -/
theorem received_eq_consumed (dflt : Defaults) {ps : List (Package T)} (hterm : Terminated ps) :
    Task1.handleProtoBuffRecv dflt ps = (ps.map Package.msg).mapM (consume dflt) >>= fun outs =>
      .ok ⟨outs.flatten, false, []⟩ := by
  obtain ⟨front, last, rfl, hfront, hlast⟩ := hterm
  induction front with
  | nil =>
    rw [List.nil_append, List.map_singleton, Task1.handleProtoBuffRecv, List.mapM_cons, hlast]
    rcases consume dflt last.msg with f | out
    · rfl
    · show Except.ok (⟨out, false, []⟩ : Received T) = .ok ⟨[out].flatten, false, []⟩
      rw [List.flatten_singleton]
  | cons p front ih =>
    obtain ⟨hp, hfront⟩ := List.forall_mem_cons.mp hfront
    rw [List.cons_append, List.map_cons, Task1.handleProtoBuffRecv, List.mapM_cons, hp]
    simp only [↓reduceIte, ih hfront]
    rcases consume dflt p.msg with f | out
    · rfl
    · rcases ((front ++ [last]).map Package.msg).mapM (consume dflt) with f | outs
      · rfl
      · rfl

/-- The model of the packages is what the bytes come to: the client prints the same. -/
theorem handleProtoBuffRecv_refines (dflt : Defaults) (fresh : Mem) {ps : List (Package T)}
    (hterm : Terminated ps)
    (hparse : ∀ p ∈ ps, parseFromArray (serialize p.msg).bytes = some p.msg)
    {choices : List IoChoice} (hpos : ∀ c ∈ choices, Positive c)
    (hcalls : (streamOf (ps.map (wire serialize))).length < choices.length) :
    ∃ r, handleProtoBuffRecv parseFromArray fresh (streamOf (ps.map (wire serialize))) choices
        = .ok r ∧ r.stop = .done ∧ r.input = [] ∧
      Task1.handleProtoBuffRecv dflt ps = r.messages.mapM (consume dflt) >>= fun outs =>
        .ok ⟨outs.flatten, false, []⟩ := by
  obtain ⟨r, hrun, hdone, hmessages, hinput⟩ :=
    handleProtoBuffRecv_wire fresh hterm hparse hpos hcalls
  refine ⟨r, hrun, hdone, hinput, ?_⟩
  rw [hmessages]
  exact received_eq_consumed dflt hterm

end Lab1.Task1.Wire
