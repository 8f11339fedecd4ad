import Lab1.Task1.Equiv.Receiving
import Mathlib.Data.List.Infix

/-!
# Packages are reassembled

The bytes of some packages come in up to any byte, and a call of `recv` gives any number of the
bytes it asks for.  By what one receive loop comes to (`recvLoop_end`), a package is received in
full or is cut off inside of it (`recvPackage_cons`), and from package to package the receivers add
what they receive to what they have.
-/

namespace Lab1.Task1.Wire

open Shr (IoChoice)

/-! ### The property -/

/-- A package as it comes in. -/
structure WirePackage where
  packageFlags : UInt32
  payload : List UInt8
  length_lt : payload.length < 2147483648

def WirePackage.header (p : WirePackage) : PackageHeader :=
  ⟨UInt32.ofNat p.payload.length, p.packageFlags⟩

/-- Header and payload, the header in network order. -/
def WirePackage.bytes (p : WirePackage) : List UInt8 :=
  netBytes p.payload.length ++ netBytes p.packageFlags.toNat ++ p.payload

/-- The bytes of some packages. -/
def streamOf (ps : List WirePackage) : List UInt8 := ps.flatMap WirePackage.bytes

/-- `m` bytes are less than the first of the packages that are left. -/
def Within (m : ℕ) : List WirePackage → Prop
  | [] => m = 0
  | p :: _ => m < p.bytes.length

/-- After `m` bytes of a package: of the `size` bytes of an object, the header or the data,
`received` are there. -/
def InObject (m : ℕ) : List WirePackage → ℕ → ℕ → Prop
  | [], size, received => size = 8 ∧ received = m
  | p :: _, size, received =>
    m < 8 ∧ size = 8 ∧ received = m ∨ 8 ≤ m ∧ size = p.payload.length ∧ received = m - 8

/-- The package is received, and the loop goes on to the next one. -/
def Continues {M : Type} (parseFromArray : List UInt8 → Option M) (more : UInt32 → Bool)
    (p : WirePackage) : Prop :=
  more p.packageFlags = true ∧ (parseFromArray p.payload).isSome = true

section Property

variable {M : Type} (parseFromArray : List UInt8 → Option M) (more : UInt32 → Bool)
  (stream : List UInt8) (choices : List IoChoice)

/-- The packages `read` are the last ones that are wanted, and no byte behind them is received. -/
def Ended (read : List WirePackage) (input : List UInt8) (last : WirePackage → Prop) : Prop :=
  (streamOf read).length ≤ stream.length ∧ input = stream.drop (streamOf read).length ∧
    ∃ front p, read = front ++ [p] ∧ (∀ q ∈ front, Continues parseFromArray more q) ∧ last p

/-- Behind the packages `read`, `m` bytes of the next one are received. -/
structure Interrupted (read left : List WirePackage) (input : List UInt8) (m : ℕ) : Prop where
  continues : ∀ q ∈ read, Continues parseFromArray more q
  within : Within m left
  le : (streamOf read).length + m ≤ stream.length
  input_eq : input = stream.drop ((streamOf read).length + m)

/-- What a run over the packages `read ++ left` should come to, when `read` are those that are
complete: the parser is given the payload of each of them. -/
structure Reassembles (read left : List WirePackage) (r : Reception M) : Prop where
  given : r.given = read.map WirePackage.payload
  messages : r.messages = r.given.filterMap parseFromArray
  stop : match r.stop with
    | .done => Ended parseFromArray more stream read r.input fun p =>
        more p.packageFlags = false ∧ (parseFromArray p.payload).isSome = true
    | .parseFailure => Ended parseFromArray more stream read r.input fun p =>
        parseFromArray p.payload = none
    | .disconnected => ∃ m, Interrupted parseFromArray more stream read left r.input m ∧
        (.upTo 0 ∈ choices ∨ (streamOf read).length + m = stream.length)
    | .thrown => ∃ m, Interrupted parseFromArray more stream read left r.input m ∧ .fail ∈ choices
    | .waiting v size => ∃ m, Interrupted parseFromArray more stream read left r.input m ∧
        (∀ c ∈ choices, Positive c) ∧ choices.length ≤ (streamOf read).length + m ∧
        v.leftToRecv.toNat + v.totalRecvied.toNat = size.toNat ∧
        InObject m left size.toNat v.totalRecvied.toNat

end Property

/-! ### One package -/

/-- What the receive loops come to in front of, or inside, the first of the packages. -/
inductive Cut (stream : List UInt8) (choices : List IoChoice) (ps : List WirePackage) :
    PackageEnd → Prop
  | disconnected {m : ℕ} (hwithin : Within m ps) (hle : m ≤ stream.length)
      (hzero : .upTo 0 ∈ choices ∨ m = stream.length) :
      Cut stream choices ps (.disconnected (stream.drop m))
  | thrown {m : ℕ} (hwithin : Within m ps) (hle : m ≤ stream.length) (hfail : .fail ∈ choices) :
      Cut stream choices ps (.thrown (stream.drop m))
  | waiting {m : ℕ} {v : RecvVars} {size : UInt32} (hwithin : Within m ps)
      (hle : m ≤ stream.length) (hinput : v.input = stream.drop m)
      (hpos : ∀ c ∈ choices, Positive c) (hcalls : choices.length ≤ m)
      (hcounters : v.leftToRecv.toNat + v.totalRecvied.toNat = size.toNat)
      (hobject : InObject m ps size.toNat v.totalRecvied.toNat) :
      Cut stream choices ps (.waiting v size)

theorem WirePackage.length_bytes (p : WirePackage) : p.bytes.length = 8 + p.payload.length := by
  rw [WirePackage.bytes, List.length_append]
  rfl

/-- The header of a package, and the payload. -/
theorem WirePackage.take_bytes (p : WirePackage) :
    p.bytes.take 8 = netBytes p.payload.length ++ netBytes p.packageFlags.toNat :=
  List.take_left' rfl

theorem WirePackage.drop_bytes (p : WirePackage) : p.bytes.drop 8 = p.payload :=
  List.drop_left' rfl

theorem WirePackage.toNat_packageSize (p : WirePackage) :
    p.header.packageSize.toNat = p.payload.length := by
  have hlt := p.length_lt
  exact UInt32.toNat_ofNat_of_lt' (show p.payload.length < 4294967296 by omega)

/-- The header that is read back. -/
theorem convNtohl_bytes {buffer : Mem} {p : WirePackage} (h : buffer.read 0 8 = p.bytes.take 8) :
    convNtohl buffer = p.header := by
  have hlt := p.length_lt
  have hlen : (netBytes p.payload.length ++ netBytes p.packageFlags.toNat).length = 8 := rfl
  rw [p.take_bytes, ← hlen, Mem.read_append_iff] at h
  have hsize : buffer.read 0 4 = netBytes p.payload.length := h.1
  have hflags : buffer.read 4 4 = netBytes p.packageFlags.toNat := h.2
  rw [convNtohl, Mem.netWord_of_read (by omega) hsize,
    Mem.netWord_of_read p.packageFlags.toNat_lt hflags, UInt32.ofNat_toNat]
  rfl

@[simp] theorem afterRecv_complete (size : UInt32) (v : RecvVars) (unused : List IoChoice)
    (rest : RecvVars → List IoChoice → Except Fault PackageEnd) :
    afterRecv size (.ok (.finished (.complete v) unused)) rest = rest v unused := rfl

/-- A receive loop for the object that begins at byte `o` of a package: it is complete, or the
package is cut off inside the object. -/
theorem LoopEnd.cases (stream : List UInt8) (o : ℕ) (used : List IoChoice) {fresh : Mem}
    {size : UInt32} {choices : List IoChoice} {ps : List WirePackage}
    {d : Driven RecvVars IoChoice RecvEnd}
    (h : LoopEnd fresh (stream.drop o) size.toNat choices d) (ho : o ≤ stream.length)
    (hinside : ∀ q < size.toNat, o + q ≤ stream.length →
      Within (o + q) ps ∧ InObject (o + q) ps size.toNat q)
    (hpos : ∀ c ∈ used, Positive c) (hle : used.length ≤ o)
    (rest : RecvVars → List IoChoice → Except Fault PackageEnd) :
    (∃ v used' unused, d = .finished (.complete v) unused ∧
      AtByte fresh (stream.drop o) size.toNat size.toNat v ∧ choices = used' ++ unused ∧
      (∀ c ∈ used', Positive c) ∧ used'.length ≤ size.toNat ∧ (used' = [] → size.toNat = 0)) ∨
      ∃ e, afterRecv size (.ok d) rest = .ok e ∧ Cut stream (used ++ choices) ps e := by
  have hread : ∀ q v, AtByte fresh (stream.drop o) size.toNat q v →
      o + q ≤ stream.length ∧ v.input = stream.drop (o + q) := by
    intro q v hat
    have hq := hat.le
    rw [List.length_drop] at hq
    exact ⟨by omega, by rw [hat.input, List.drop_drop]⟩
  cases h with
  | complete hat hused hpos' hle' hnone =>
    exact Or.inl ⟨_, _, _, rfl, hat, hused, hpos', hle', hnone⟩
  | @disconnected q v _ hat hlt hzero =>
    obtain ⟨hq, hinput⟩ := hread q v hat
    refine Or.inr ⟨_, rfl, ?_⟩
    rw [hinput]
    refine .disconnected (hinside q hlt hq).1 hq ?_
    rcases hzero with hmem | hend
    · exact Or.inl (List.mem_append_right used hmem)
    · rw [List.length_drop] at hend
      exact Or.inr (by omega)
  | @thrown q v _ hat hlt hfail =>
    obtain ⟨hq, hinput⟩ := hread q v hat
    refine Or.inr ⟨_, rfl, ?_⟩
    rw [hinput]
    exact .thrown (hinside q hlt hq).1 hq (List.mem_append_right used hfail)
  | @waiting q v hat hlt hpos' hle' =>
    obtain ⟨hq, hinput⟩ := hread q v hat
    obtain ⟨hwithin, hobject⟩ := hinside q hlt hq
    refine Or.inr ⟨_, rfl, .waiting hwithin hq hinput (List.forall_mem_append.mpr ⟨hpos, hpos'⟩)
      ?_ ?_ ?_⟩
    · rw [List.length_append]
      omega
    · rw [hat.totalRecvied]
      exact hat.leftToRecv
    · rw [hat.totalRecvied]
      exact hobject

/-- Where there is no package, there is nothing to be received. -/
theorem recvPackage_nil (fresh : Mem) (choices : List IoChoice) :
    ∃ e, recvPackage fresh [] choices = .ok e ∧ Cut [] choices [] e := by
  obtain ⟨d, hrun, hend⟩ := recvLoop_end asked_header sizeofPackageHeader fresh [] choices
  have hinside : ∀ q < sizeofPackageHeader.toNat, 0 + q ≤ ([] : List UInt8).length →
      Within (0 + q) [] ∧ InObject (0 + q) [] sizeofPackageHeader.toNat q := by
    intro q _ hq
    obtain rfl : q = 0 := by simpa using hq
    exact ⟨rfl, rfl, rfl⟩
  rw [recvPackage, recvHeader, hrun]
  rcases LoopEnd.cases [] 0 [] hend (Nat.le_refl 0) hinside nofun (Nat.le_refl 0) _
    with ⟨v, _, _, _, hat, _⟩ | h
  · have hle := hat.le
    cases hle
  · exact h

section Cons

variable {stream : List UInt8} {p : WirePackage} {ps : List WirePackage}

/-- What has come in of the first package. -/
theorem take_eq_take_bytes (hstream : stream <+: streamOf (p :: ps)) {n : ℕ}
    (hn : n ≤ p.bytes.length) (hle : n ≤ stream.length) : stream.take n = p.bytes.take n := by
  obtain ⟨cut, hcut⟩ := hstream
  rw [← List.take_append_of_le_length hle, hcut]
  exact List.take_append_of_le_length hn

/-- The data of a package whose header is there, after the calls `used`. -/
theorem recvData_cons (fresh : Mem) {used : List IoChoice} (choices : List IoChoice)
    (hstream : stream <+: streamOf (p :: ps)) (h8 : 8 ≤ stream.length)
    (hpos : ∀ c ∈ used, Positive c) (hle : used.length ≤ 8)
    (rest : RecvVars → List IoChoice → Except Fault PackageEnd) :
    (∃ v used' unused, recvData p.header fresh (stream.drop 8) choices
        = .ok (.finished (.complete v) unused) ∧
      v.buffer.read 0 v.totalRecvied.toNat = p.payload ∧ p.bytes.length ≤ stream.length ∧
      v.input = stream.drop p.bytes.length ∧ choices = used' ++ unused ∧
      (∀ c ∈ used', Positive c) ∧ used'.length ≤ p.payload.length) ∨
      ∃ e, afterRecv p.header.packageSize (recvData p.header fresh (stream.drop 8) choices) rest
        = .ok e ∧ Cut stream (used ++ choices) (p :: ps) e := by
  have hbytes := p.length_bytes
  have hsize := p.toNat_packageSize
  obtain ⟨d, hrun, hend⟩ :=
    recvLoop_end asked_data p.header.packageSize fresh (stream.drop 8) choices
  have hinside : ∀ q < p.header.packageSize.toNat, 8 + q ≤ stream.length →
      Within (8 + q) (p :: ps) ∧ InObject (8 + q) (p :: ps) p.header.packageSize.toNat q := by
    intro q hq _
    rw [hsize] at hq ⊢
    exact ⟨show 8 + q < p.bytes.length by omega, Or.inr ⟨by omega, rfl, by omega⟩⟩
  rw [recvData, hrun]
  rcases LoopEnd.cases stream 8 used hend h8 hinside hpos hle rest
    with ⟨v, used', unused, rfl, hat, rfl, hpos', hle', -⟩ | h
  · rw [hsize] at hat hle'
    have hlen : p.bytes.length ≤ stream.length := by
      have hle := hat.le
      rw [List.length_drop] at hle
      omega
    have hpayload : (stream.drop 8).take p.payload.length = p.payload := by
      rw [List.take_drop, ← hbytes, take_eq_take_bytes hstream (Nat.le_refl _) hlen,
        List.take_length, p.drop_bytes]
    refine Or.inl ⟨v, used', unused, rfl, ?_, hlen, ?_, rfl, hpos', hle'⟩
    · rw [hat.totalRecvied, hat.read, hpayload]
    · rw [hat.input, List.drop_drop, hbytes]
  · exact Or.inr h

/-- A package that comes in, maybe not all of it. -/
theorem recvPackage_cons (fresh : Mem) (choices : List IoChoice)
    (hstream : stream <+: streamOf (p :: ps)) :
    (∃ used unused, recvPackage fresh stream choices
        = .ok (.parse p.header p.payload (stream.drop p.bytes.length) unused) ∧
      p.bytes.length ≤ stream.length ∧ choices = used ++ unused ∧ used ≠ [] ∧
      (∀ c ∈ used, Positive c) ∧ used.length ≤ p.bytes.length) ∨
      ∃ e, recvPackage fresh stream choices = .ok e ∧ Cut stream choices (p :: ps) e := by
  have hbytes := p.length_bytes
  obtain ⟨d, hrun, hend⟩ := recvLoop_end asked_header sizeofPackageHeader fresh stream choices
  have hinside : ∀ q < sizeofPackageHeader.toNat, 0 + q ≤ stream.length →
      Within (0 + q) (p :: ps) ∧ InObject (0 + q) (p :: ps) sizeofPackageHeader.toNat q := by
    intro q hq _
    have hq : q < 8 := hq
    rw [Nat.zero_add]
    exact ⟨show q < p.bytes.length by omega, Or.inl ⟨hq, rfl, rfl⟩⟩
  rw [recvPackage, recvHeader, hrun]
  rcases LoopEnd.cases stream 0 [] hend (Nat.zero_le _) hinside nofun (Nat.le_refl 0) _
    with ⟨v, used, unused, rfl, hat, rfl, hpos, hle, hnone⟩ | h
  · -- the header is there
    have hat : AtByte fresh stream 8 8 v := hat
    have hle : used.length ≤ 8 := hle
    have hheader : convNtohl v.buffer = p.header :=
      convNtohl_bytes (hat.read.trans (take_eq_take_bytes hstream (by omega) hat.le))
    simp only [afterRecv_complete, hheader, hat.input]
    rcases recvData_cons fresh unused hstream hat.le hpos hle _
      with ⟨v', used', unused', hdata, hread, hlen, hinput, rfl, hpos', hle'⟩ | h
    · -- the data is there
      have hsome : used ++ used' ≠ [] := by
        intro hnil
        exact absurd (hnone (List.append_eq_nil_iff.mp hnil).1) (by decide)
      refine Or.inl ⟨used ++ used', unused', ?_, hlen, (List.append_assoc _ _ _).symm, hsome,
        List.forall_mem_append.mpr ⟨hpos, hpos'⟩, ?_⟩
      · rw [hdata, afterRecv_complete, hread, hinput]
      · rw [List.length_append]
        omega
    · exact Or.inr h
  · exact Or.inr h

end Cons

/-! ### Package after package -/

section Packages

variable {M : Type} {parseFromArray : List UInt8 → Option M} {more : UInt32 → Bool}
  {stream : List UInt8} {choices : List IoChoice} {ps : List WirePackage}

/-- What is left of the stream when a package is cut off, and why receiving ends. -/
def PackageEnd.stop : PackageEnd → List UInt8 × RecvStop
  | .parse _ _ input _ => (input, .done)
  | .disconnected input => (input, .disconnected)
  | .thrown input => (input, .thrown)
  | .waiting v size => (v.input, .waiting v size)

theorem Cut.reassembles {e : PackageEnd} (h : Cut stream choices ps e) :
    Reassembles parseFromArray more stream choices [] ps ⟨[], [], e.stop.1, e.stop.2⟩ := by
  have hzero : ∀ m, (streamOf []).length + m = m := Nat.zero_add
  refine ⟨rfl, rfl, ?_⟩
  cases h with
  | @disconnected m hwithin hle hstop =>
    refine ⟨m, ⟨nofun, hwithin, ?_, ?_⟩, ?_⟩
    · rwa [hzero]
    · rw [hzero]
      rfl
    · rwa [hzero]
  | @thrown m hwithin hle hfail =>
    refine ⟨m, ⟨nofun, hwithin, ?_, ?_⟩, hfail⟩
    · rwa [hzero]
    · rw [hzero]
      rfl
  | @waiting m v size hwithin hle hinput hpos hcalls hcounters hobject =>
    refine ⟨m, ⟨nofun, hwithin, ?_, ?_⟩, hpos, ?_, hcounters, hobject⟩
    · rwa [hzero]
    · rw [hzero]
      exact hinput
    · rwa [hzero]

/-- A package that is received in full, and is the last one. -/
theorem Reassembles.last {p : WirePackage} (hlen : p.bytes.length ≤ stream.length) {m : M}
    (hparse : parseFromArray p.payload = some m) (hmore : more p.packageFlags = false) :
    Reassembles parseFromArray more stream choices [p] ps
      ⟨[p.payload], [m], stream.drop p.bytes.length, .done⟩ := by
  have hbytes : streamOf [p] = p.bytes := List.append_nil _
  refine ⟨rfl, ?_, ?_, ?_, [], p, rfl, nofun, hmore, ?_⟩
  · show [m] = [p.payload].filterMap parseFromArray
    rw [List.filterMap_cons_some hparse, List.filterMap_nil]
  · rwa [hbytes]
  · rw [hbytes]
  · rw [hparse]
    rfl

/-- A package whose data the parser does not take. -/
theorem Reassembles.refused {p : WirePackage} (hlen : p.bytes.length ≤ stream.length)
    (hparse : parseFromArray p.payload = none) :
    Reassembles parseFromArray more stream choices [p] ps
      ⟨[p.payload], [], stream.drop p.bytes.length, .parseFailure⟩ := by
  have hbytes : streamOf [p] = p.bytes := List.append_nil _
  refine ⟨rfl, ?_, ?_, ?_, [], p, rfl, nofun, hparse⟩
  · show [] = [p.payload].filterMap parseFromArray
    rw [List.filterMap_cons_none hparse, List.filterMap_nil]
  · rwa [hbytes]
  · rw [hbytes]

section Front

variable {p : WirePackage} {read left : List WirePackage} {r : Reception M}
  {input : List UInt8}

theorem length_streamOf_cons (p : WirePackage) (ps : List WirePackage) :
    (streamOf (p :: ps)).length = p.bytes.length + (streamOf ps).length := by
  rw [streamOf, List.flatMap_cons, List.length_append]
  rfl

theorem length_streamOf_append (ps qs : List WirePackage) :
    (streamOf (ps ++ qs)).length = (streamOf ps).length + (streamOf qs).length := by
  rw [streamOf, List.flatMap_append, List.length_append]
  rfl

theorem Ended.cons (hlen : p.bytes.length ≤ stream.length)
    (hp : Continues parseFromArray more p) {last : WirePackage → Prop}
    (h : Ended parseFromArray more (stream.drop p.bytes.length) read input last) :
    Ended parseFromArray more stream (p :: read) input last := by
  obtain ⟨hle, hrest, front, q, rfl, hfront, hlast⟩ := h
  rw [List.length_drop] at hle
  refine ⟨?_, ?_, p :: front, q, rfl, List.forall_mem_cons.mpr ⟨hp, hfront⟩, hlast⟩
  · rw [length_streamOf_cons]
    omega
  · rw [hrest, List.drop_drop, length_streamOf_cons]

theorem Interrupted.cons (hlen : p.bytes.length ≤ stream.length)
    (hp : Continues parseFromArray more p) {m : ℕ}
    (h : Interrupted parseFromArray more (stream.drop p.bytes.length) read left input m) :
    Interrupted parseFromArray more stream (p :: read) left input m := by
  have hle := h.le
  rw [List.length_drop] at hle
  refine ⟨List.forall_mem_cons.mpr ⟨hp, h.continues⟩, h.within, ?_, ?_⟩
  · rw [length_streamOf_cons]
    omega
  · rw [h.input_eq, List.drop_drop, length_streamOf_cons, Nat.add_assoc]

/-- A package in front of the others. -/
theorem Reassembles.cons {used unused : List IoChoice} (hlen : p.bytes.length ≤ stream.length)
    (hpos : ∀ c ∈ used, Positive c) (hused : used.length ≤ p.bytes.length) {m : M}
    (hparse : parseFromArray p.payload = some m) (hmore : more p.packageFlags = true)
    (h : Reassembles parseFromArray more (stream.drop p.bytes.length) unused read left r) :
    Reassembles parseFromArray more stream (used ++ unused) (p :: read) left
      ⟨p.payload :: r.given, m :: r.messages, r.input, r.stop⟩ := by
  have hp : Continues parseFromArray more p := ⟨hmore, by rw [hparse]; rfl⟩
  have hlength := length_streamOf_cons p read
  have hend : ∀ m', (streamOf read).length + m' = (stream.drop p.bytes.length).length →
      (streamOf (p :: read)).length + m' = stream.length := by
    intro m' hm'
    rw [List.length_drop] at hm'
    omega
  obtain ⟨hgiven, hmessages, hstop⟩ := h
  refine ⟨?_, ?_, ?_⟩
  · rw [hgiven]
    rfl
  · show m :: r.messages = (p.payload :: r.given).filterMap parseFromArray
    rw [List.filterMap_cons_some hparse, hmessages]
  rcases r with ⟨given, messages, input, _ | _ | _ | _ | ⟨v, size⟩⟩
  · exact Ended.cons hlen hp hstop
  · exact Ended.cons hlen hp hstop
  · obtain ⟨m', hcut, hzero⟩ := hstop
    refine ⟨m', hcut.cons hlen hp, ?_⟩
    rcases hzero with hmem | heof
    · exact Or.inl (List.mem_append_right used hmem)
    · exact Or.inr (hend m' heof)
  · obtain ⟨m', hcut, hfail⟩ := hstop
    exact ⟨m', hcut.cons hlen hp, List.mem_append_right used hfail⟩
  · obtain ⟨m', hcut, hpos', hcalls, hcounters, hobject⟩ := hstop
    refine ⟨m', hcut.cons hlen hp, List.forall_mem_append.mpr ⟨hpos, hpos'⟩, ?_, hcounters, hobject⟩
    rw [List.length_append]
    omega

end Front

/-! ### The two receivers -/

/-- `executeTask` receives a single package. -/
theorem executeTask_reassembles (parseFromArray : List UInt8 → Option M) (fresh : Mem)
    (hstream : stream <+: streamOf ps) (choices : List IoChoice) :
    ∃ r read left, executeTask parseFromArray fresh stream choices = .ok r ∧ ps = read ++ left ∧
      Reassembles parseFromArray (fun _ => false) stream choices read left r := by
  have hcut : ∀ e, recvPackage fresh stream choices = .ok e → Cut stream choices ps e →
      ∃ r read left, executeTask parseFromArray fresh stream choices = .ok r ∧ ps = read ++ left ∧
        Reassembles parseFromArray (fun _ => false) stream choices read left r := by
    intro e he hcut
    refine ⟨⟨[], [], e.stop.1, e.stop.2⟩, [], ps, ?_, rfl, hcut.reassembles⟩
    rw [executeTask, he, ok_bind]
    cases hcut
    · rfl
    · rfl
    · rfl
  rcases ps with _ | ⟨p, ps⟩
  · obtain rfl : stream = [] := List.prefix_nil.mp hstream
    obtain ⟨e, he, hend⟩ := recvPackage_nil fresh choices
    exact hcut e he hend
  · rcases recvPackage_cons fresh choices hstream with
      ⟨used, unused, hrecv, hlen, _, _, _, _⟩ | ⟨e, he, hend⟩
    · rcases hparse : parseFromArray p.payload with _ | m
      · refine ⟨_, [p], ps, ?_, rfl, Reassembles.refused hlen hparse⟩
        rw [executeTask, hrecv, ok_bind]
        simp only [hparse]
        rfl
      · refine ⟨_, [p], ps, ?_, rfl, Reassembles.last hlen hparse rfl⟩
        rw [executeTask, hrecv, ok_bind]
        simp only [hparse]
        rfl
    · exact hcut e he hend

/-- The condition under which `handleProtoBuffRecv` goes on. -/
def isCont (flags : UInt32) : Bool := flags &&& msgCont != 0

/-- What the loop over the packages comes to. -/
def receptionOf : Reception M ⊕ ReceptionVars M → Reception M
  | .inl r => r
  | .inr s => ⟨s.given, s.messages, s.input, .done⟩

theorem packageTurn_of_cut {fresh : Mem} {s : ReceptionVars M} {e : PackageEnd}
    (hrecv : recvPackage fresh s.input s.choices = .ok e) (hcut : Cut s.input s.choices ps e) :
    packageTurn parseFromArray fresh s
      = .ok (.inl ⟨s.given, s.messages, e.stop.1, e.stop.2⟩) := by
  rw [packageTurn, hrecv, ok_bind]
  cases hcut
  · rfl
  · rfl
  · rfl

theorem packageTurn_of_none {fresh : Mem} {s : ReceptionVars M} {header : PackageHeader}
    {bytes input : List UInt8} {unused : List IoChoice}
    (hrecv : recvPackage fresh s.input s.choices = .ok (.parse header bytes input unused))
    (hparse : parseFromArray bytes = none) :
    packageTurn parseFromArray fresh s
      = .ok (.inl ⟨s.given ++ [bytes], s.messages, input, .parseFailure⟩) := by
  rw [packageTurn, hrecv, ok_bind]
  simp only [hparse]
  rfl

theorem packageTurn_of_some {fresh : Mem} {s : ReceptionVars M} {header : PackageHeader}
    {bytes input : List UInt8} {unused : List IoChoice} {m : M}
    (hrecv : recvPackage fresh s.input s.choices = .ok (.parse header bytes input unused))
    (hparse : parseFromArray bytes = some m) :
    packageTurn parseFromArray fresh s = .ok (.inr ⟨s.given ++ [bytes], s.messages ++ [m], input,
      unused, isCont header.packageFlags⟩) := by
  rw [packageTurn, hrecv, ok_bind]
  simp only [hparse]
  rfl

/-- The loop over the packages adds what it receives to what it has. -/
def Receives (parseFromArray : List UInt8 → Option M) (fresh : Mem) (ps : List WirePackage)
    (stream : List UInt8) (choices : List IoChoice) (fuel : ℕ) : Prop :=
  ∀ given messages, ∃ x r read left,
    whileLoop ReceptionVars.cont (packageTurn parseFromArray fresh) fuel
        ⟨given, messages, stream, choices, true⟩ = .ok x ∧
      receptionOf x = ⟨given ++ r.given, messages ++ r.messages, r.input, r.stop⟩ ∧
      ps = read ++ left ∧ Reassembles parseFromArray isCont stream choices read left r

theorem receives_of_cut {fresh : Mem} {e : PackageEnd}
    (hrecv : recvPackage fresh stream choices = .ok e) (hcut : Cut stream choices ps e) (fuel : ℕ) :
    Receives parseFromArray fresh ps stream choices (fuel + 1) := by
  intro given messages
  refine ⟨_, _, [], ps, whileLoop_of_inl rfl (packageTurn_of_cut hrecv hcut), ?_, rfl,
    hcut.reassembles⟩
  rw [List.append_nil, List.append_nil]
  rfl

theorem receives_cons {fresh : Mem} {p : WirePackage} {used unused : List IoChoice} {fuel : ℕ}
    (hrecv : recvPackage fresh stream (used ++ unused)
      = .ok (.parse p.header p.payload (stream.drop p.bytes.length) unused))
    (hlen : p.bytes.length ≤ stream.length) (hpos : ∀ c ∈ used, Positive c)
    (hused : used.length ≤ p.bytes.length)
    (hrest : Receives parseFromArray fresh ps (stream.drop p.bytes.length) unused (fuel + 1)) :
    Receives parseFromArray fresh (p :: ps) stream (used ++ unused) (fuel + 2) := by
  intro given messages
  rcases hparse : parseFromArray p.payload with _ | m
  · refine ⟨_, _, [p], ps, whileLoop_of_inl rfl (packageTurn_of_none hrecv hparse), ?_, rfl,
      Reassembles.refused hlen hparse⟩
    rw [List.append_nil]
    rfl
  have hturn :=
    packageTurn_of_some (s := ⟨given, messages, stream, used ++ unused, true⟩) hrecv hparse
  rw [whileLoop_of_inr rfl hturn]
  rcases hmore : isCont p.packageFlags with _ | _
  · -- the last package
    refine ⟨_, _, [p], ps, whileLoop_of_not hmore, ?_, rfl, Reassembles.last hlen hparse hmore⟩
    rfl
  · obtain ⟨x, r, read, left, hrun, hx, rfl, hr⟩ := hrest (given ++ [p.payload]) (messages ++ [m])
    have hcont : isCont p.header.packageFlags = true := hmore
    rw [hcont]
    refine ⟨x, _, p :: read, left, hrun, ?_, rfl, hr.cons hlen hpos hused hparse hmore⟩
    rw [hx, List.append_assoc, List.append_assoc]
    rfl

theorem receives (parseFromArray : List UInt8 → Option M) (fresh : Mem)
    (hstream : stream <+: streamOf ps) {fuel : ℕ} (hfuel : choices.length < fuel) :
    Receives parseFromArray fresh ps stream choices fuel := by
  obtain ⟨fuel, rfl⟩ : ∃ n, fuel = n + 1 := ⟨fuel - 1, by omega⟩
  induction ps generalizing stream choices fuel with
  | nil =>
    obtain rfl : stream = [] := List.prefix_nil.mp hstream
    obtain ⟨e, hrecv, hcut⟩ := recvPackage_nil fresh choices
    exact receives_of_cut hrecv hcut fuel
  | cons p ps ih =>
    rcases recvPackage_cons fresh choices hstream with
      ⟨used, unused, hrecv, hlen, rfl, hsome, hpos, hused⟩ | ⟨e, hrecv, hcut⟩
    · -- the package has taken a call at least
      have hcalls := List.length_pos_iff.mpr hsome
      rw [List.length_append] at hfuel
      obtain ⟨fuel, rfl⟩ : ∃ n, fuel = n + 1 := ⟨fuel - 1, by omega⟩
      have htail : stream.drop p.bytes.length <+: streamOf ps := by
        have hdrop := hstream.drop p.bytes.length
        rwa [streamOf, List.flatMap_cons, List.drop_left] at hdrop
      exact receives_cons hrecv hlen hpos hused (ih htail fuel (by omega))
    · exact receives_of_cut hrecv hcut fuel

/-- `handleProtoBuffRecv` receives packages up to the first one that is not to be continued. -/
theorem handleProtoBuffRecv_reassembles (parseFromArray : List UInt8 → Option M) (fresh : Mem)
    (hstream : stream <+: streamOf ps) (choices : List IoChoice) :
    ∃ r read left, handleProtoBuffRecv parseFromArray fresh stream choices = .ok r ∧
      ps = read ++ left ∧ Reassembles parseFromArray isCont stream choices read left r := by
  obtain ⟨x, r, read, left, hrun, hx, hps, hr⟩ :=
    receives parseFromArray fresh hstream (Nat.lt_succ_self choices.length) [] []
  refine ⟨r, read, left, ?_, hps, hr⟩
  rw [handleProtoBuffRecv, hrun, ok_bind]
  rcases x with r' | s
  · exact congrArg Except.ok hx
  · exact congrArg Except.ok hx

end Packages

/-- **Packages are reassembled.**  The bytes of any packages may come in up to any byte, and every
call of `recv` may give any number of the bytes that it asks for: both receivers give the parser the
payloads of the packages that are complete, and nothing of one that is not. -/
theorem packages_reassembled {M : Type} (parseFromArray : List UInt8 → Option M) (fresh : Mem)
    (ps : List WirePackage) (n : ℕ) (choices : List IoChoice) :
    (∃ r read left, executeTask parseFromArray fresh ((streamOf ps).take n) choices = .ok r ∧
      ps = read ++ left ∧
      Reassembles parseFromArray (fun _ => false) ((streamOf ps).take n) choices read left r) ∧
    ∃ r read left, handleProtoBuffRecv parseFromArray fresh ((streamOf ps).take n) choices = .ok r ∧
      ps = read ++ left ∧
      Reassembles parseFromArray isCont ((streamOf ps).take n) choices read left r :=
  ⟨executeTask_reassembles parseFromArray fresh (List.take_prefix n _) choices,
    handleProtoBuffRecv_reassembles parseFromArray fresh (List.take_prefix n _) choices⟩

end Lab1.Task1.Wire
