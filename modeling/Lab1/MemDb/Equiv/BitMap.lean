import Lab1.MemDb.Equiv.DataStructs

/-!
# `BitMap` as a set of bit numbers

A bit number is on if the last call that concerns it switched it on.  The assertions admit the
numbers up to `0x31`, the word has 32 bits, and so the numbers from 33 on share their bits with
those from 1 on.  After a run of calls, `is_on` goes by the last call that touched the bit
(`isOn_of_exec`), and is right unless this was a call for the other number which leaves the bit the
other way (`behavesAsSet_iff`).
-/

namespace Lab1.MemDb.BitMap

/-! ### The property -/

/-- The bit of the word that the number means. -/
def Num.bitPos (k : Num) : ℕ := pos k.toUInt32.toNat

def Call.isBitOn : Call → Bool
  | .bitOn _ => true
  | .bitOff _ => false
  | .init => false

/-- The call is one for the bit number `b`, or for all. -/
def Call.concerns (b : Num) : Call → Bool
  | .bitOn k => decide (k = b)
  | .bitOff k => decide (k = b)
  | .init => true

/-- The call writes the bit of the word that `b` means. -/
def Call.touches (b : Num) : Call → Bool
  | .bitOn k => decide (k.bitPos = b.bitPos)
  | .bitOff k => decide (k.bitPos = b.bitPos)
  | .init => true

/-- The last of the calls that is of the kind `p`. -/
def lastCall (p : Call → Bool) (calls : List Call) : Option Call := calls.reverse.find? p

/-- The last call that concerns `b` was `bit_on(b)`. -/
def shouldBeOn (b : Num) (calls : List Call) : Bool :=
  decide (lastCall (Call.concerns b) calls = some (.bitOn b))

/-- After the calls, `is_on(b)` is what it should be. -/
def BehavesAsSet (b : Num) (calls : List Call) : Prop :=
  ∃ m outs, exec call init calls = .ok (m, outs) ∧
    m.isOn b.toUInt32 = .ok (shouldBeOn b calls)

/-- The last call that touched the bit of `b` was one that concerns `b`, or left the bit as it
should be. -/
def Undisturbed (b : Num) (calls : List Call) : Prop :=
  ∀ c, lastCall (Call.touches b) calls = some c →
    c.concerns b = true ∨ c.isBitOn = shouldBeOn b calls

/-! ### The last call of a kind -/

theorem lastCall_concat_of_pos {p : Call → Bool} {c : Call} (h : p c = true) (calls : List Call) :
    lastCall p (calls ++ [c]) = some c := by
  rw [lastCall, List.reverse_concat, List.find?_cons_of_pos h]

theorem lastCall_concat_of_neg {p : Call → Bool} {c : Call} (h : ¬p c = true) (calls : List Call) :
    lastCall p (calls ++ [c]) = lastCall p calls := by
  rw [lastCall, List.reverse_concat, List.find?_cons_of_neg h]
  rfl

/-- The last call of a kind is the last one of a narrower kind that it belongs to. -/
theorem lastCall_of_imp {p q : Call → Bool} {calls : List Call} {c : Call}
    (hpq : ∀ c, p c = true → q c = true) (h : lastCall q calls = some c) (hc : p c = true) :
    lastCall p calls = some c := by
  obtain ⟨_, later, earlier, hcalls, hlater⟩ := List.find?_eq_some_iff_append.mp h
  refine List.find?_eq_some_iff_append.mpr ⟨hc, later, earlier, hcalls, fun d hd => ?_⟩
  have hnot := hlater d hd
  rw [Bool.not_eq_true'] at hnot ⊢
  exact Bool.eq_false_of_not_eq_true fun hp => Bool.eq_false_iff.mp hnot (hpq d hp)

theorem lastCall_eq_none_of_imp {p q : Call → Bool} {calls : List Call}
    (hpq : ∀ c, p c = true → q c = true) (h : lastCall q calls = none) :
    lastCall p calls = none :=
  List.find?_eq_none.mpr fun c hc hp => List.find?_eq_none.mp h c hc (hpq c hp)

theorem Call.touches_of_concerns {b : Num} (c : Call) (h : c.concerns b = true) :
    c.touches b = true := by
  cases c with
  | bitOn k => exact decide_eq_true (congrArg Num.bitPos (of_decide_eq_true h))
  | bitOff k => exact decide_eq_true (congrArg Num.bitPos (of_decide_eq_true h))
  | init => rfl

/-- Of the calls that concern `b`, only `bit_on(b)` switches on. -/
theorem Call.isBitOn_eq {b : Num} {c : Call} (h : c.concerns b = true) :
    c.isBitOn = decide (c = .bitOn b) := by
  cases c with
  | bitOn k =>
    obtain rfl : k = b := of_decide_eq_true h
    exact (decide_eq_true rfl).symm
  | bitOff k => exact (decide_eq_false nofun).symm
  | init => exact (decide_eq_false nofun).symm

/-! ### The word -/

theorem Num.bitPos_lt (k : Num) : k.bitPos < 32 := Nat.mod_lt _ (by norm_num)

theorem Num.toNat_mask (k : Num) : (mask k.toUInt32).toNat = 2 ^ k.bitPos := by
  have hpos : 1 ≤ k.toUInt32.toNat := k.admitted.1
  have hmask := toNat_mask_ofNat hpos k.toUInt32.toNat_lt
  rwa [UInt32.ofNat_toNat] at hmask

theorem testBit_or_mask (b : BitMap) (k : Num) (i : ℕ) :
    (b.bits ||| mask k.toUInt32).toNat.testBit i
      = (b.bits.toNat.testBit i || decide (k.bitPos = i)) := by
  rw [UInt32.toNat_or, k.toNat_mask, Nat.testBit_or, Nat.testBit_two_pow]

theorem testBit_and_not_mask (b : BitMap) (k : Num) {i : ℕ} (hi : i < 32) :
    (b.bits &&& ~~~mask k.toUInt32).toNat.testBit i
      = (b.bits.toNat.testBit i && !decide (k.bitPos = i)) := by
  have hlt : (2 : ℕ) ^ k.bitPos < 2 ^ 32 := Nat.pow_lt_pow_right (by norm_num) k.bitPos_lt
  have hnot : (~~~mask k.toUInt32).toNat = 2 ^ 32 - (2 ^ k.bitPos + 1) := by
    rw [UInt32.toNat_not, k.toNat_mask, Nat.sub_sub, Nat.add_comm 1]
    rfl
  rw [UInt32.toNat_and, hnot, Nat.testBit_and, Nat.testBit_two_pow_sub_succ hlt,
    Nat.testBit_two_pow, decide_eq_true hi, Bool.true_and]

/-! ### Runs -/

/-- A call does not fail, and a bit that it touches is on exactly if it switches on. -/
theorem exists_call (m : BitMap) (c : Call) :
    ∃ m', m.call c = .ok (m', ()) ∧ ∀ b : Num, m'.bits.toNat.testBit b.bitPos
      = if c.touches b then c.isBitOn else m.bits.toNat.testBit b.bitPos := by
  cases c with
  | bitOn k =>
    refine ⟨⟨m.bits ||| mask k.toUInt32⟩, ?_, fun b => ?_⟩
    · rw [call, bitOn, require_true k.admitted]
      rfl
    · show (m.bits ||| mask k.toUInt32).toNat.testBit b.bitPos = _
      rw [testBit_or_mask]
      by_cases hk : k.bitPos = b.bitPos <;> simp [Call.touches, Call.isBitOn, hk]
  | bitOff k =>
    refine ⟨⟨m.bits &&& ~~~mask k.toUInt32⟩, ?_, fun b => ?_⟩
    · rw [call, bitOff, require_true k.admitted]
      rfl
    · show (m.bits &&& ~~~mask k.toUInt32).toNat.testBit b.bitPos = _
      rw [testBit_and_not_mask m k b.bitPos_lt]
      by_cases hk : k.bitPos = b.bitPos <;> simp [Call.touches, Call.isBitOn, hk]
  | init => exact ⟨init, rfl, fun b => Nat.zero_testBit _⟩

theorem exists_exec (calls : List Call) : ∃ m outs, exec call init calls = .ok (m, outs) := by
  obtain ⟨m, outs, hrun, _⟩ := exec_total (fun _ => True)
    (fun m c _ => (exists_call m c).imp fun m' h => ⟨(), h.1, trivial⟩) trivial calls
  exact ⟨m, outs, hrun⟩

/-- A bit is as the last call left it that touched it. -/
theorem testBit_of_exec {calls : List Call} {m : BitMap} {outs : List Unit}
    (h : exec call init calls = .ok (m, outs)) (b : Num) :
    m.bits.toNat.testBit b.bitPos
      = (lastCall (Call.touches b) calls).elim false Call.isBitOn := by
  refine exec_invariant (fun calls m => m.bits.toNat.testBit b.bitPos
    = (lastCall (Call.touches b) calls).elim false Call.isBitOn) ?_ (Nat.zero_testBit _) h
  intro pre m c m' _ hpre hcall
  obtain ⟨m'', hcall', hbit⟩ := exists_call m c
  obtain ⟨rfl, _⟩ := ok_pair_inj (hcall'.symm.trans hcall)
  rw [hbit]
  by_cases hc : c.touches b = true
  · rw [if_pos hc, lastCall_concat_of_pos hc]
    rfl
  · rw [if_neg hc, lastCall_concat_of_neg hc, hpre]

theorem isOn_of_exec {calls : List Call} {m : BitMap} {outs : List Unit}
    (h : exec call init calls = .ok (m, outs)) (b : Num) :
    m.isOn b.toUInt32
      = .ok ((lastCall (Call.touches b) calls).elim false Call.isBitOn) := by
  have hon := m.isOn_eq b.admitted.1 b.admitted.2
  rw [UInt32.ofNat_toNat] at hon
  rw [hon, ← testBit_of_exec h b]
  rfl

theorem behavesAsSet_iff_last {b : Num} {calls : List Call} :
    BehavesAsSet b calls ↔ (lastCall (Call.touches b) calls).elim false Call.isBitOn
      = shouldBeOn b calls := by
  constructor
  · rintro ⟨m, outs, hrun, hon⟩
    exact Except.ok.inj ((isOn_of_exec hrun b).symm.trans hon)
  · intro h
    obtain ⟨m, outs, hrun⟩ := exists_exec calls
    exact ⟨m, outs, hrun, h ▸ isOn_of_exec hrun b⟩

/-- **When a bit number is on.** -/
theorem behavesAsSet_iff (b : Num) (calls : List Call) :
    BehavesAsSet b calls ↔ Undisturbed b calls := by
  rw [behavesAsSet_iff_last, Undisturbed]
  cases hlast : lastCall (Call.touches b) calls with
  | none =>
    have hnone := lastCall_eq_none_of_imp (p := Call.concerns b) Call.touches_of_concerns hlast
    refine iff_of_true ?_ nofun
    rw [shouldBeOn, hnone]
    rfl
  | some c =>
    show c.isBitOn = _ ↔ _
    constructor
    · rintro h _ ⟨⟩
      exact Or.inr h
    · intro h
      rcases h c rfl with hc | hc
      · have hsame := lastCall_of_imp Call.touches_of_concerns hlast hc
        rw [shouldBeOn, hsame, Call.isBitOn_eq hc]
        exact decide_eq_decide.mpr Option.some_inj.symm
      · exact hc

/-- After `bit_on(1)`, bit number 33 is on as well. -/
theorem not_behavesAsSet_33 :
    (∃ m outs, exec call init [.bitOn ⟨1, by decide⟩] = .ok (m, outs) ∧ m.isOn 33 = .ok true) ∧
      ¬BehavesAsSet ⟨33, by decide⟩ [.bitOn ⟨1, by decide⟩] := by
  refine ⟨⟨_, _, rfl, rfl⟩, ?_⟩
  rintro ⟨m, outs, hrun, hon⟩
  cases hrun
  cases hon

end Lab1.MemDb.BitMap
