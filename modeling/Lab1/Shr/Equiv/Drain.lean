import Lab1.Shr.Macros
import Mathlib.Algebra.GroupWithZero.Nat
import Mathlib.Data.List.Induction

/-!
# What a drain moves

The memory and the file descriptor are at every moment what they are after a certain number of bytes
(`Io.moved`): the first bytes of the stream are in the buffer, or the first bytes of the buffer are
in the stream.  A call takes one such position to another (`call_moved`), and `tot_tmp` is the
position.  What the calls return follows from the choices of the system (`Io.resultsOf`), and a
drain goes on until it has all bytes or a call returns nothing (`drain_char`).
-/

namespace Lab1.Shr

/-! ### The property -/

/-- The number of bytes that the calls have moved. -/
def transferred (results : List ℤ) : ℕ := (results.map Int.toNat).sum

/-- The memory and the file descriptor after the first `p` bytes of the stream, or of the buffer at
`start`, are moved. -/
def Io.moved (act : Act) (start : ℕ) (io : Io) (p : ℕ) : Io :=
  match act with
  | .read => { io with mem := io.mem.write start (io.input.take p), input := io.input.drop p }
  | .write => { io with output := io.output ++ io.mem.read start p }

/-- There are `p` bytes to be moved. -/
def Io.Has (io : Io) (act : Act) (p : ℕ) : Prop :=
  match act with
  | .read => p ≤ io.input.length
  | .write => True

/-- Of `n` bytes behind the first `p`, so many can be moved. -/
def Io.available (io : Io) (act : Act) (p n : ℕ) : ℕ :=
  match act with
  | .read => min n (io.input.length - p)
  | .write => n

/-- What a call returns that is asked for `n` bytes behind the first `p`. -/
def Io.result (io : Io) (act : Act) (p n : ℕ) : IoChoice → ℤ
  | .fail => -1
  | .upTo k => (min k (io.available act p n) : ℕ)

/-- What calls return that are each asked for the rest of `len` bytes. -/
def Io.resultsOf (io : Io) (act : Act) (len : ℕ) (choices : List IoChoice) : List ℤ :=
  choices.foldl (fun results choice =>
    results ++ [io.result act (transferred results) (len - transferred results) choice]) []

/-- The calls so far are those for the choices `used`, and `tot_tmp` is the number of bytes that
they have transferred. -/
structure InStep (act : Act) (start : ℕ) (io : Io) (len : ℕ) (used : List IoChoice)
    (v : DrainVars) : Prop where
  results : v.results = io.resultsOf act len used
  totTmp : v.totTmp = transferred v.results
  io_eq : v.io = io.moved act start (transferred v.results)
  le : transferred v.results ≤ len

/-- A drain that has ended after the calls for `used`: all calls but the last have moved something,
and so has the last, if all bytes are there then.  Otherwise it is one that failed or moved nothing,
or one at the end of the stream. -/
structure Drained (act : Act) (start : ℕ) (io : Io) (len : ℕ) (used : List IoChoice)
    (v : DrainVars) : Prop extends InStep act start io len used v where
  stopped : (v.totTmp = len ∧ ∀ r ∈ v.results, 0 < r) ∨
    (v.totTmp < len ∧ ∃ before last, used = before ++ [last] ∧
      (∀ r ∈ io.resultsOf act len before, 0 < r) ∧
      (last = .fail ∨ last = .upTo 0 ∨ ¬io.Has act (transferred v.results + 1)))
  exit_iff : v.exitCode = some 3 ↔ ∃ r ∈ v.results, r < 0
  failed_iff : (∃ r ∈ v.results, r < 0) ↔ .fail ∈ used

/-- What a drain of `len` bytes at `start` should come to. -/
def DrainsExactly (act : Act) (start : ℕ) (io : Io) (len : ℕ) (choices : List IoChoice) :
    Driven DrainVars IoChoice DrainVars → Prop
  | .finished v unused => ∃ used, choices = used ++ unused ∧ Drained act start io len used v
  | .waiting v => InStep act start io len choices v ∧ v.totTmp < len ∧ ∀ r ∈ v.results, 0 < r

/-! ### Positions -/

section Positions

variable {act : Act} {start : ℕ} {io : Io} {p : ℕ}

@[simp] theorem moved_zero : io.moved act start 0 = io := by
  cases act
  · simp [Io.moved]
  · simp [Io.moved]

@[simp] theorem transferred_nil : transferred [] = 0 := rfl

@[simp] theorem transferred_append_singleton (results : List ℤ) (r : ℤ) :
    transferred (results ++ [r]) = transferred results + r.toNat := by
  simp [transferred]

/-- As long as every call moves something, there are at most as many calls as bytes. -/
theorem length_le_transferred {results : List ℤ} (hpos : ∀ r ∈ results, 0 < r) :
    results.length ≤ transferred results := by
  induction results with
  | nil => exact Nat.le_refl 0
  | cons r results ih =>
    obtain ⟨hr, hpos⟩ := List.forall_mem_cons.mp hpos
    have hle := ih hpos
    have hone : 1 ≤ r.toNat := by omega
    rw [transferred, List.map_cons, List.sum_cons, List.length_cons]
    unfold transferred at hle
    omega

/-- Behind the end of the stream nothing more is moved. -/
theorem moved_of_not_has {len : ℕ} (hlen : p ≤ len) (h : ¬io.Has act (p + 1)) :
    io.moved act start p = io.moved act start len := by
  cases act with
  | read =>
    have hend : io.input.length ≤ p := Nat.not_lt.mp h
    simp only [Io.moved, List.take_of_length_le hend, List.drop_eq_nil_of_le hend,
      List.take_of_length_le (hend.trans hlen), List.drop_eq_nil_of_le (hend.trans hlen)]
  | write => exact absurd trivial h

theorem call_fail (buff : Buff) (io : Io) (addr n : ℕ) :
    act.call buff io addr n .fail = .ok (io, -1) := by
  cases act <;> rfl

theorem available_le (io : Io) (act : Act) (p n : ℕ) : io.available act p n ≤ n := by
  cases act with
  | read => exact Nat.min_le_left _ _
  | write => exact Nat.le_refl n

/-- Only at the end of the stream there is nothing. -/
theorem not_has_of_available_eq_zero {n : ℕ} (hn : 0 < n) (h : io.available act p n = 0) :
    ¬io.Has act (p + 1) := by
  cases act with
  | read =>
    have hmin : min n (io.input.length - p) = 0 := h
    show ¬p + 1 ≤ io.input.length
    omega
  | write =>
    have hzero : n = 0 := h
    omega

/-- A call takes a position to a later one. -/
theorem call_moved {buff : Buff} {n : ℕ} (hp : io.Has act p)
    (hfits : ∀ q ≤ p + n, io.Has act q → q ≤ buff.size) (k : ℕ) :
    io.Has act (p + min k (io.available act p n)) ∧
      act.call buff (io.moved act buff.start p) (buff.start + p) n (.upTo k)
        = .ok (io.moved act buff.start (p + min k (io.available act p n)),
          ((min k (io.available act p n) : ℕ) : ℤ)) := by
  cases act with
  | read =>
    have hp : p ≤ io.input.length := hp
    have hlen : (io.moved .read buff.start p).input.length = io.input.length - p := List.length_drop
    have htake : (io.input.take p).length = p := List.length_take_of_le hp
    show p + min k (min n (io.input.length - p)) ≤ io.input.length ∧ _ = Except.ok
      (io.moved .read buff.start (p + min k (min n (io.input.length - p))),
        ((min k (min n (io.input.length - p)) : ℕ) : ℤ))
    have hle : p + min k (min n (io.input.length - p)) ≤ io.input.length := by omega
    refine ⟨hle, ?_⟩
    have hin := hfits (p + min k (min n (io.input.length - p))) (by omega) hle
    rw [Act.call, hlen, require_true ⟨Nat.le_add_right _ _, by omega⟩, ok_bind]
    simp only [Io.moved, List.take_add, List.drop_drop, Mem.write_append, htake]
    rfl
  | write =>
    refine ⟨trivial, ?_⟩
    show _ = Except.ok (io.moved .write buff.start (p + min k n), ((min k n : ℕ) : ℤ))
    have hin := hfits (p + min k n) (by omega) trivial
    rw [Act.call, require_true ⟨Nat.le_add_right _ _, by omega⟩, ok_bind]
    simp only [Io.moved, List.append_assoc, Mem.read_add]
    rfl

end Positions

/-! ### The results -/

section Results

variable {act : Act} {io : Io} {len : ℕ} {used : List IoChoice}

theorem resultsOf_append_singleton (choice : IoChoice) :
    io.resultsOf act len (used ++ [choice]) = io.resultsOf act len used ++
      [io.result act (transferred (io.resultsOf act len used))
        (len - transferred (io.resultsOf act len used)) choice] := by
  rw [Io.resultsOf, List.foldl_append]
  rfl

theorem length_resultsOf (act : Act) (io : Io) (len : ℕ) (used : List IoChoice) :
    (io.resultsOf act len used).length = used.length := by
  induction used using List.reverseRecOn with
  | nil => rfl
  | append_singleton used choice ih =>
    rw [resultsOf_append_singleton, List.length_append, List.length_append, ih]
    rfl

theorem result_neg_iff {p n : ℕ} {choice : IoChoice} :
    io.result act p n choice < 0 ↔ choice = .fail := by
  cases choice with
  | fail => exact iff_of_true (by decide : (-1 : ℤ) < 0) rfl
  | upTo k => exact iff_of_false (Int.not_lt.mpr (Int.natCast_nonneg _)) nofun

/-- A result is negative where a call has failed. -/
theorem exists_neg_iff : (∃ r ∈ io.resultsOf act len used, r < 0) ↔ .fail ∈ used := by
  induction used using List.reverseRecOn with
  | nil => simp [Io.resultsOf]
  | append_singleton used choice ih =>
    rw [resultsOf_append_singleton]
    simp only [List.mem_append, List.mem_singleton, or_and_right, exists_or, exists_eq_left, ih,
      result_neg_iff]
    exact or_congr_right eq_comm

end Results

/-! ### The loop -/

section Loop

variable {act : Act} {buff : Buff} {io : Io} {len : ℕ} {used : List IoChoice}

/-- The variables of the loop with `p` bytes moved, all calls having moved some. -/
structure AtPosition (act : Act) (start : ℕ) (io : Io) (len p : ℕ) (used : List IoChoice)
    (v : DrainVars) : Prop where
  results : v.results = io.resultsOf act len used
  io_eq : v.io = io.moved act start p
  has : io.Has act p
  count : transferred v.results = p
  le : p ≤ len
  pos : ∀ r ∈ v.results, 0 < r

/-- At the head of the loop. -/
def AtHead (act : Act) (start : ℕ) (io : Io) (len : ℕ) (used : List IoChoice) (v : DrainVars) :
    Prop :=
  0 ≤ v.tmp ∧ ∃ p, AtPosition act start io len p used v ∧ v.totTmp + v.tmp = p

/-- Before a call. -/
def AtCall (act : Act) (start : ℕ) (io : Io) (len : ℕ) (used : List IoChoice) (v : DrainVars) :
    Prop :=
  ∃ p, AtPosition act start io len p used v ∧ v.totTmp = p ∧ p < len

theorem AtPosition.inStep {start p : ℕ} {v : DrainVars}
    (h : AtPosition act start io len p used v) (htot : v.totTmp = p) :
    InStep act start io len used v where
  results := h.results
  totTmp := by rw [htot, h.count]
  io_eq := by rw [h.io_eq, h.count]
  le := by
    rw [h.count]
    exact h.le

/-- All bytes are moved. -/
theorem AtPosition.drained {start : ℕ} {v : DrainVars}
    (h : AtPosition act start io len len used v) (htot : v.totTmp = len) (htmp : 0 ≤ v.tmp) :
    Drained act start io len used v where
  toInStep := h.inStep htot
  stopped := Or.inl ⟨htot, h.pos⟩
  exit_iff := by
    have hexit : v.exitCode = none := if_neg (by omega)
    rw [hexit]
    refine ⟨nofun, ?_⟩
    rintro ⟨r, hr, hneg⟩
    exact absurd (h.pos r hr) (by omega)
  failed_iff := by
    rw [h.results]
    exact exists_neg_iff

/-- A call that moves nothing ends the loop, and the process if it has failed. -/
theorem AtPosition.stopped {start p : ℕ} {v : DrainVars}
    (h : AtPosition act start io len p used v) (hlt : p < len) {choice : IoChoice}
    (hr : io.result act p (len - p) choice ≤ 0) :
    Drained act start io len (used ++ [choice])
      ⟨io.result act p (len - p) choice, p, io.moved act start p,
        v.results ++ [io.result act p (len - p) choice]⟩ := by
  set r := io.result act p (len - p) choice with hresult
  have hcount : transferred (v.results ++ [r]) = p := by
    rw [transferred_append_singleton, h.count, Int.toNat_of_nonpos hr, Nat.add_zero]
  have hresults : v.results ++ [r] = io.resultsOf act len (used ++ [choice]) := by
    rw [resultsOf_append_singleton, ← h.results, h.count]
  refine ⟨⟨hresults, ?_, ?_, ?_⟩, Or.inr ⟨Int.ofNat_lt.mpr hlt, used, choice, rfl, ?_, ?_⟩, ?_, ?_⟩
  · rw [hcount]
  · rw [hcount]
  · rw [hcount]
    exact h.le
  · rw [← h.results]
    exact h.pos
  · rw [hcount]
    rcases choice with _ | k
    · exact Or.inl rfl
    · -- there was nothing to move, or the system has not moved it
      right
      have hzero : min k (io.available act p (len - p)) = 0 := Int.ofNat_eq_zero.mp
        (le_antisymm hr (Int.natCast_nonneg _))
      rcases Nat.eq_zero_or_pos k with rfl | hk
      · exact Or.inl rfl
      · exact Or.inr (not_has_of_available_eq_zero (n := len - p) (by omega) (by omega))
  · show (if r < 0 then some (3 : ℤ) else none) = some 3 ↔ _
    constructor
    · intro hexit
      split_ifs at hexit with h0
      exact ⟨r, by simp, h0⟩
    · rintro ⟨r', hr', h0⟩
      rcases List.mem_append.mp hr' with hr' | hr'
      · exact absurd (h.pos r' hr') (by omega)
      · obtain rfl := List.mem_singleton.mp hr'
        exact if_pos h0
  · show (∃ r' ∈ v.results ++ [r], r' < 0) ↔ _
    rw [hresults]
    exact exists_neg_iff

theorem drainNext_cases {v : DrainVars} (hv : AtHead act buff.start io len used v) :
    (∃ v', drainNext len v = .inl v' ∧ Drained act buff.start io len used v') ∨
      ∃ v', drainNext len v = .inr v' ∧ AtCall act buff.start io len used v' := by
  obtain ⟨htmp, p, hat, htot⟩ := hv
  have hat' : AtPosition act buff.start io len p used { v with totTmp := v.totTmp + v.tmp } :=
    ⟨hat.results, hat.io_eq, hat.has, hat.count, hat.le, hat.pos⟩
  by_cases hlt : v.totTmp + v.tmp < len
  · exact Or.inr ⟨_, if_pos hlt, ⟨p, hat', htot, by omega⟩⟩
  · have hle := hat.le
    obtain rfl : p = len := by omega
    exact Or.inl ⟨_, if_neg hlt, hat'.drained htot htmp⟩

/-- What follows a call in its turn. -/
theorem drainCall_eq (act : Act) (buff : Buff) (len : ℕ) {v : DrainVars} {p : ℕ}
    (htot : v.totTmp = p) (choice : IoChoice) :
    drainCall act buff len v choice
      = (act.call buff v.io (buff.start + p * buff.elem) (len - p) choice >>= fun r =>
          .ok (if 0 < r.2 then .inr ⟨r.2, p, r.1, v.results ++ [r.2]⟩
            else .inl ⟨r.2, p, r.1, v.results ++ [r.2]⟩)) := by
  have hasked : ((len : ℤ) - v.totTmp).toNat = len - p := by omega
  have haddr : v.totTmp.toNat = p := by omega
  rw [drainCall, hasked, haddr, htot]
  rfl

theorem drainCall_cases (helem : buff.elem = 1)
    (hfits : ∀ q ≤ len, io.Has act q → q ≤ buff.size) {v : DrainVars}
    (hv : AtCall act buff.start io len used v) (choice : IoChoice) :
    (∃ v', drainCall act buff len v choice = .ok (.inl v') ∧
        Drained act buff.start io len (used ++ [choice]) v') ∨
      ∃ v', drainCall act buff len v choice = .ok (.inr v') ∧
        AtHead act buff.start io len (used ++ [choice]) v' := by
  obtain ⟨p, hat, htot, hlt⟩ := hv
  have hturn := drainCall_eq act buff len htot choice
  rw [helem, Nat.mul_one, hat.io_eq] at hturn
  rcases choice with _ | k
  · have hneg : ¬(0 : ℤ) < -1 := by decide
    rw [call_fail, ok_bind, if_neg hneg] at hturn
    exact Or.inl ⟨_, hturn, hat.stopped hlt (Int.not_lt.mp hneg)⟩
  obtain ⟨hhas, hcall⟩ := call_moved (n := len - p) hat.has (fun q hq => hfits q (by omega)) k
  have hle : min k (io.available act p (len - p)) ≤ len - p :=
    (Nat.min_le_right _ _).trans (available_le io act p (len - p))
  rw [hcall, ok_bind] at hturn
  rcases Nat.eq_zero_or_pos (min k (io.available act p (len - p))) with hzero | hpos
  · -- nothing is moved
    have hresult : io.result act p (len - p) (.upTo k) ≤ 0 := by
      rw [Io.result, hzero]
      exact le_rfl
    have hnot : ¬(0 : ℤ) < (min k (io.available act p (len - p)) : ℕ) := Int.not_lt.mpr hresult
    have hsame : io.moved act buff.start (p + min k (io.available act p (len - p)))
        = io.moved act buff.start p := by rw [hzero, Nat.add_zero]
    rw [if_neg hnot, hsame] at hturn
    exact Or.inl ⟨_, hturn, hat.stopped hlt hresult⟩
  · set r := min k (io.available act p (len - p)) with hr
    rw [if_pos (Int.natCast_pos.mpr hpos)] at hturn
    have hcount : transferred (v.results ++ [(r : ℤ)]) = p + r := by
      rw [transferred_append_singleton, hat.count, Int.toNat_natCast]
    have hresults : v.results ++ [(r : ℤ)] = io.resultsOf act len (used ++ [.upTo k]) := by
      rw [resultsOf_append_singleton, ← hat.results, hat.count]
      rfl
    refine Or.inr ⟨_, hturn, Int.natCast_nonneg r, p + r,
      ⟨hresults, rfl, hhas, hcount, by omega, ?_⟩, (Int.natCast_add p r).symm⟩
    intro r' hr'
    rcases List.mem_append.mp hr' with hr' | hr'
    · exact hat.pos r' hr'
    · obtain rfl := List.mem_singleton.mp hr'
      exact Int.natCast_pos.mpr hpos

/-- A drain into, or out of, an object in which every position that it can reach lies. -/
theorem drain_cases (buff : Buff) (helem : buff.elem = 1)
    (hfits : ∀ q ≤ len, io.Has act q → q ≤ buff.size) (choices : List IoChoice) :
    (∃ v used unused, drain act buff len io choices = .ok (.finished v unused) ∧
        choices = used ++ unused ∧ Drained act buff.start io len used v) ∨
      ∃ v, drain act buff len io choices = .ok (.waiting v) ∧
        InStep act buff.start io len choices v ∧ v.totTmp < len ∧ ∀ r ∈ v.results, 0 < r := by
  have hstart : AtHead act buff.start io len [] ⟨0, 0, io, []⟩ := by
    refine ⟨le_rfl, 0, ⟨rfl, moved_zero.symm, ?_, rfl, Nat.zero_le _, nofun⟩, rfl⟩
    cases act
    · exact Nat.zero_le _
    · trivial
  have hrun := drive_history_rule (drainNext len) (drainCall act buff len) choices
    (AtHead act buff.start io len) (AtCall act buff.start io len) (Drained act buff.start io len)
    (fun _ _ hv => drainNext_cases hv)
    (fun _ _ choice hv _ => drainCall_cases helem hfits hv choice) hstart
  rcases hrun with ⟨v, used, unused, hrun, hused, hend⟩ | ⟨v, hrun, ⟨p, hat, htot, hlt⟩⟩
  · exact Or.inl ⟨v, used, unused, hrun, hused, hend⟩
  · exact Or.inr ⟨v, hrun, hat.inStep htot, by rw [htot]; exact Int.ofNat_lt.mpr hlt, hat.pos⟩

/-! ### Drains that have ended -/

section Drained

variable {start : ℕ} {v : DrainVars}

/-- Where no call fails, the process goes on. -/
theorem Drained.no_exit (h : Drained act start io len used v) (hfail : .fail ∉ used) :
    v.exitCode = none := by
  have hnot : v.exitCode ≠ some 3 := fun hexit => hfail (h.failed_iff.mp (h.exit_iff.mp hexit))
  unfold DrainVars.exitCode at hnot ⊢
  split_ifs at hnot ⊢ with h0
  · exact absurd rfl hnot
  · rfl

/-- Unless a call was cut short or has failed, all there is has been moved. -/
theorem Drained.complete (h : Drained act start io len used v) (hhonest : .upTo 0 ∉ used)
    (hexit : v.exitCode = none) : v.io = io.moved act start len := by
  rw [h.io_eq]
  rcases h.stopped with ⟨hlen, _⟩ | ⟨_, before, last, rfl, _, hlast⟩
  · have htot : transferred v.results = len := Int.ofNat_inj.mp (h.totTmp.symm.trans hlen)
    rw [htot]
  · rcases hlast with rfl | rfl | hend
    · have hthree := h.exit_iff.mpr (h.failed_iff.mpr (List.mem_append_right _ (by simp)))
      rw [hexit] at hthree
      cases hthree
    · exact absurd (List.mem_append_right _ (by simp)) hhonest
    · exact moved_of_not_has h.le hend

/-- Every call but the last moves something. -/
theorem Drained.length_le (h : Drained act start io len used v) : used.length ≤ len + 1 := by
  have hle := h.le
  rw [← length_resultsOf act io len used]
  rcases h.stopped with ⟨_, hpos⟩ | ⟨_, before, last, rfl, hpos, _⟩
  · have hlength := length_le_transferred hpos
    rw [← h.results]
    omega
  · have hlength := length_le_transferred hpos
    rw [h.results, resultsOf_append_singleton, transferred_append_singleton] at hle
    rw [resultsOf_append_singleton, List.length_append, List.length_singleton]
    omega

/-- A drain that waits has made fewer calls than it was to move bytes. -/
theorem InStep.length_lt (h : InStep act start io len used v) (hlt : v.totTmp < len)
    (hpos : ∀ r ∈ v.results, 0 < r) : used.length < len := by
  have hlength := length_le_transferred hpos
  rw [h.totTmp] at hlt
  rw [← length_resultsOf act io len used, ← h.results]
  omega

theorem exitCode_eq_some {code : ℤ} (h : v.exitCode = some code) : code = 3 := by
  unfold DrainVars.exitCode at h
  split_ifs at h
  exact (Option.some.inj h).symm

end Drained

end Loop

/-- **The drain macros.**  However the calls split it, a drain of `len` bytes to or from a buffer of
`char`s stays inside the `len` bytes, and moves exactly the first bytes of the stream or of the
buffer: all `len` of them, or those up to the first call that moves none. -/
theorem drain_char (act : Act) (start len : ℕ) (io : Io) (choices : List IoChoice) :
    ∃ d, drain act ⟨start, len, 1⟩ len io choices = .ok d ∧
      DrainsExactly act start io len choices d := by
  rcases drain_cases ⟨start, len, 1⟩ rfl (fun _ hq _ => hq) choices with
    ⟨v, used, unused, hrun, hused, hend⟩ | ⟨v, hrun, hwait⟩
  · exact ⟨_, hrun, used, hused, hend⟩
  · exact ⟨_, hrun, hwait⟩

end Lab1.Shr
