import Lab1.Shr.Equiv.Drain
import Lab1.Shr.TypedUses

/-!
# Short transfers of an object

`BUFF+tot_tmp` is the byte `tot_tmp` of the object only where `BUFF` points to bytes.  At a pointer
to the object, the second call is given an address behind it: `survivesShort_iff` says that a drain
moves the object if and only if the first call moves all of it.
-/

namespace Lab1.Shr

/-! ### The property -/

/-- Where the calls move `counts` bytes, one after the other, exactly the object is moved. -/
def SurvivesShort (use : TypedUse) (counts : List ℕ) : Prop :=
  ∀ io : Io, io.Has use.act use.size →
    ∃ v, use.drain io (counts.map .upTo) = .ok (.finished v []) ∧
      v.io = io.moved use.act 0 use.size

/-! ### A call -/

theorem exists_has (act : Act) (p : ℕ) : ∃ io : Io, io.Has act p := by
  refine ⟨⟨fun _ => 0, List.replicate p 0, []⟩, ?_⟩
  cases act with
  | read => exact Nat.le_of_eq List.length_replicate.symm
  | write => trivial

theorem Io.Has.mono {io : Io} {act : Act} {p q : ℕ} (h : io.Has act q) (hpq : p ≤ q) :
    io.Has act p := by
  cases act with
  | read => exact hpq.trans h
  | write => trivial

/-- What is left after `p` bytes. -/
theorem Io.Has.moved {io : Io} {act : Act} {p q : ℕ} (h : io.Has act (p + q)) (start : ℕ) :
    (io.moved act start p).Has act q := by
  cases act with
  | read =>
    have hlen : p + q ≤ io.input.length := h
    show q ≤ (io.input.drop p).length
    rw [List.length_drop]
    omega
  | write => trivial

section Call

variable {act : Act} {buff : Buff} {io : Io} {addr n k : ℕ}

/-- A call that moves the `k` bytes at `addr`, if they lie in the object. -/
theorem call_upTo (hk : k ≤ n) (hhas : io.Has act k) (haddr : buff.start ≤ addr) :
    act.call buff io addr n (.upTo k) = if addr + k ≤ buff.start + buff.size
      then .ok (io.moved act addr k, (k : ℤ)) else .error .outOfBounds := by
  have hamount : min k n = k := Nat.min_eq_left hk
  cases act with
  | read =>
    have hinput : k ≤ io.input.length := hhas
    have hamount : min k (min n io.input.length) = k := by omega
    rw [Act.call, hamount]
    split_ifs with hin
    · rw [require_true ⟨haddr, hin⟩]
      rfl
    · rw [require_false fun h => hin h.2]
      rfl
  | write =>
    rw [Act.call, hamount]
    split_ifs with hin
    · rw [require_true ⟨haddr, hin⟩]
      rfl
    · rw [require_false fun h => hin h.2]
      rfl

/-- A turn with such a call. -/
theorem drainCall_upTo (buff : Buff) (len : ℕ) {p : ℕ} {v : DrainVars} (htot : v.totTmp = p)
    (hpos : 0 < k) (hk : k ≤ len - p) (hhas : v.io.Has act k) :
    drainCall act buff len v (.upTo k) =
      if buff.start + p * buff.elem + k ≤ buff.start + buff.size
      then .ok (.inr ⟨k, p, v.io.moved act (buff.start + p * buff.elem) k, v.results ++ [(k : ℤ)]⟩)
      else .error .outOfBounds := by
  rw [drainCall_eq act buff len htot, call_upTo hk hhas (Nat.le_add_right _ _)]
  split_ifs with hin
  · rw [ok_bind, if_pos (Int.natCast_pos.mpr hpos)]
  · rfl

end Call

/-! ### The equivalence -/

section Uses

variable (use : TypedUse) (io : Io)

theorem TypedUse.size_pos : 0 < use.size := by
  cases use with
  | writeMsg L => exact Nat.lt_of_lt_of_le (by decide) (Nat.le_add_left Nw.maxMsgSz L.size)
  | readMsg L => exact Nat.lt_of_lt_of_le (by decide) (Nat.le_add_left Nw.maxMsgSz L.size)
  | writeId => exact Nat.succ_pos 3

/-- The first call is given the object itself. -/
theorem TypedUse.drain_first {c : ℕ} (hpos : 0 < c) (hc : c ≤ use.size) (hhas : io.Has use.act c)
    (choices : List IoChoice) : use.drain io (.upTo c :: choices)
      = drive (drainNext use.size) (drainCall use.act ⟨0, use.size, use.size⟩ use.size) choices
        ⟨c, 0, io.moved use.act 0 c, [(c : ℤ)]⟩ := by
  have hnext : drainNext use.size ⟨0, 0, io, []⟩ = .inr ⟨0, 0, io, []⟩ :=
    if_pos (Int.natCast_pos.mpr use.size_pos)
  have hturn := drainCall_upTo ⟨0, use.size, use.size⟩ use.size (v := ⟨0, 0, io, []⟩) (p := 0) rfl
    hpos hc hhas
  have hzero : 0 + 0 * use.size = 0 := by omega
  rw [hzero, Nat.zero_add, Nat.zero_add, if_pos hc] at hturn
  exact drive_cons_of_inr hnext hturn

theorem TypedUse.drain_whole (hhas : io.Has use.act use.size) :
    use.drain io [.upTo use.size] = .ok (.finished
      ⟨use.size, use.size, io.moved use.act 0 use.size, [(use.size : ℤ)]⟩ []) := by
  rw [use.drain_first io use.size_pos le_rfl hhas]
  apply drive_of_inl
  unfold drainNext
  rw [if_neg (by simp)]
  simp

/-- After a first call that moves only a part of the object, the second is given an address behind
the object. -/
theorem TypedUse.drain_short {c c' : ℕ} (hc : 0 < c) (hc' : 0 < c') (hle : c + c' ≤ use.size)
    (hhas : io.Has use.act (c + c')) (choices : List IoChoice) :
    use.drain io (.upTo c :: .upTo c' :: choices) = .error .outOfBounds := by
  have hnext : drainNext use.size ⟨c, 0, io.moved use.act 0 c, [(c : ℤ)]⟩
      = .inr ⟨c, c, io.moved use.act 0 c, [(c : ℤ)]⟩ := by
    unfold drainNext
    rw [if_pos (by show (0 : ℤ) + c < use.size; omega)]
    simp
  have hturn := drainCall_upTo ⟨0, use.size, use.size⟩ use.size
    (v := ⟨c, c, io.moved use.act 0 c, [(c : ℤ)]⟩) rfl hc' (by omega) (hhas.moved 0)
  have hbehind : use.size ≤ c * use.size := Nat.le_mul_of_pos_left use.size hc
  rw [if_neg (by show ¬0 + c * use.size + c' ≤ 0 + use.size; omega)] at hturn
  rw [use.drain_first io hc (by omega) (hhas.mono (Nat.le_add_right c c'))]
  exact drive_cons_of_error hnext hturn

end Uses

/-- **Short transfers.**  An object is moved as it should be if and only if the first call moves
all of it. -/
theorem survivesShort_iff (use : TypedUse) {counts : List ℕ} (hpos : ∀ c ∈ counts, 0 < c)
    (hsum : counts.sum = use.size) : SurvivesShort use counts ↔ counts.length = 1 := by
  have hsize := use.size_pos
  constructor
  · intro h
    match counts with
    | [] =>
      rw [List.sum_nil] at hsum
      omega
    | [c] => rfl
    | c :: c' :: rest =>
      rw [List.sum_cons, List.sum_cons] at hsum
      obtain ⟨io, hio⟩ := exists_has use.act use.size
      obtain ⟨v, hrun, -⟩ := h io hio
      have hshort := use.drain_short io (hpos c (by simp)) (hpos c' (by simp)) (by omega)
        (hio.mono (by omega)) (rest.map .upTo)
      cases hshort.symm.trans hrun
  · intro hlen io hhas
    obtain ⟨c, rfl⟩ := List.length_eq_one_iff.mp hlen
    obtain rfl : c = use.size := hsum
    exact ⟨_, use.drain_whole io hhas, rfl⟩

/-- A message object that the socket takes at once. -/
theorem survivesShort_at_once : SurvivesShort (.writeMsg .lp64) [1040] :=
  (survivesShort_iff (.writeMsg .lp64) (by decide) rfl).mpr rfl

/-- A message object, one byte in the first call and the others in the second. -/
theorem not_survivesShort_msg : ¬SurvivesShort (.writeMsg .lp64) [1, 1039] := by
  intro h
  obtain ⟨v, hrun, -⟩ := h ⟨fun _ => 0, [], []⟩ trivial
  have hle : 1 + 1039 ≤ (TypedUse.writeMsg .lp64).size := le_rfl
  have hshort := (TypedUse.writeMsg .lp64).drain_short ⟨fun _ => 0, [], []⟩ (by decide)
    (by decide) hle trivial []
  cases hshort.symm.trans hrun

end Lab1.Shr
