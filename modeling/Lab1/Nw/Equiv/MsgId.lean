import Lab1.Library.Cas
import Lab1.Nw.MsgId
import Mathlib.Data.List.Nodup

/-!
# Ids that are given out once

The calls of `getNxtMsgId` are updates by compare-and-swap: a call that swaps has read the counter,
and its new id is the next one (`Refines`).  So the ids come out one after the other, whatever the
interleaving, one for every swap that is made (`access_ids`), and a call that has to begin again
does so for an id that another thread has got in the meantime.  The ids are different from each
other as long as there are not more than `2 ^ 32` of them.
-/

namespace Lab1.Nw

namespace MsgIds

variable {ι : Type*} [DecidableEq ι]

/-! ### Updates by compare-and-swap -/

/-- The next id. -/
def next (id : UInt32) : UInt32 := id + 1

/-- A call as one of the library's threads. -/
def seenOf (call : MsgIdCall) : Option UInt32 := if call.swaps then some call.oldId else none

/-- The state is one of updates by compare-and-swap. -/
structure Refines (s : MsgIds ι) (c : Cas.State ι UInt32) : Prop where
  cell : c.cell = s.m_msgId
  seen : ∀ i, c.seen i = seenOf (s.calls i)
  newId : ∀ i, (s.calls i).swaps = true → (s.calls i).newId = next (s.calls i).oldId

def actOf : MsgIdAccess ι → Cas.Act ι
  | .read i => .load i
  | .compareAndSwap i => .swap i

def outOf : MsgIdResult ι → Cas.Out ι UInt32
  | .goesOn => .loaded
  | .again i => .failed i
  | .returned i newId => .updated i newId

variable {s t : MsgIds ι} {c : Cas.State ι UInt32} {i : ι} {r : MsgIdResult ι}

omit [DecidableEq ι] in
theorem refines_start : Refines (start : MsgIds ι) ⟨0, fun _ => none⟩ :=
  ⟨rfl, fun _ => rfl, fun _ h => absurd h Bool.false_ne_true⟩

/-- The calls of the other threads are as they were. -/
theorem Refines.update (h : Refines s c) {id : UInt32} {call : MsgIdCall} {seen : Option UInt32}
    (hseen : seen = seenOf call) (hnew : call.swaps = true → call.newId = next call.oldId) :
    Refines ⟨id, Function.update s.calls i call⟩ ⟨id, Function.update c.seen i seen⟩ where
  cell := rfl
  seen j := by
    rcases eq_or_ne j i with rfl | hne
    · simpa using hseen
    · simpa [Function.update_of_ne hne] using h.seen j
  newId j := by
    rcases eq_or_ne j i with rfl | hne
    · simpa using hnew
    · simpa [Function.update_of_ne hne] using h.newId j

theorem Refines.read (h : Refines s c) (hstep : s.read i = .ok (t, r)) :
    ∃ d, Cas.step next c (.load i) = .ok (d, outOf r) ∧ Refines t d := by
  unfold MsgIds.read at hstep
  split_ifs at hstep with hswaps
  obtain ⟨rfl, rfl⟩ := ok_pair_inj hstep
  have hseen : c.seen i = none := by rw [h.seen, seenOf, if_neg hswaps]
  refine ⟨⟨c.cell, Function.update c.seen i (some c.cell)⟩, ?_, ?_⟩
  · rw [Cas.step, hseen]
    rfl
  · rw [h.cell]
    exact h.update rfl fun _ => rfl

theorem swaps_of_compareAndSwap (hstep : s.compareAndSwap i = .ok (t, r)) :
    (s.calls i).swaps = true := by
  by_contra hswaps
  rw [MsgIds.compareAndSwap, if_pos (Bool.not_eq_true _ ▸ hswaps)] at hstep
  cases hstep

/-- The counter still has the value that the call has read. -/
theorem compareAndSwap_of_eq (hswaps : (s.calls i).swaps = true)
    (heq : (s.calls i).oldId = s.m_msgId) : s.compareAndSwap i = .ok
      (⟨(s.calls i).newId, Function.update s.calls i .start⟩,
        .returned i (s.calls i).newId) := by
  rw [MsgIds.compareAndSwap, if_neg (Bool.not_eq_false _ ▸ hswaps)]
  dsimp only
  rw [if_neg (not_not_intro heq), if_pos heq.symm]

/-- Another thread has changed it. -/
theorem compareAndSwap_of_ne (hswaps : (s.calls i).swaps = true)
    (hne : (s.calls i).oldId ≠ s.m_msgId) : s.compareAndSwap i = .ok
      (⟨s.m_msgId, Function.update s.calls i { s.calls i with swaps := false }⟩, .again i) := by
  rw [MsgIds.compareAndSwap, if_neg (Bool.not_eq_false _ ▸ hswaps)]
  dsimp only
  rw [if_pos hne, if_neg hne.symm]

theorem Refines.compareAndSwap (h : Refines s c) (hstep : s.compareAndSwap i = .ok (t, r)) :
    ∃ d, Cas.step next c (.swap i) = .ok (d, outOf r) ∧ Refines t d := by
  have hswaps := swaps_of_compareAndSwap hstep
  have hseen : c.seen i = some (s.calls i).oldId := by rw [h.seen, seenOf, if_pos hswaps]
  have hnew : (s.calls i).newId = next (s.calls i).oldId := h.newId i hswaps
  rw [Cas.step, hseen]
  dsimp only
  rcases eq_or_ne (s.calls i).oldId s.m_msgId with heq | hne
  · rw [compareAndSwap_of_eq hswaps heq] at hstep
    obtain ⟨rfl, rfl⟩ := ok_pair_inj hstep
    rw [if_pos (h.cell.trans heq.symm), hnew]
    exact ⟨_, rfl, h.update rfl fun hs => absurd hs Bool.false_ne_true⟩
  · -- the swap was not made
    rw [compareAndSwap_of_ne hswaps hne] at hstep
    obtain ⟨rfl, rfl⟩ := ok_pair_inj hstep
    rw [if_neg (fun heq => hne (h.cell.symm.trans heq).symm), h.cell]
    exact ⟨_, rfl, h.update rfl fun hs => absurd hs Bool.false_ne_true⟩

theorem Refines.access (h : Refines s c) {a : MsgIdAccess ι} (hstep : s.access a = .ok (t, r)) :
    ∃ d, Cas.step next c (actOf a) = .ok (d, outOf r) ∧ Refines t d := by
  cases a with
  | read i => exact h.read hstep
  | compareAndSwap i => exact h.compareAndSwap hstep

theorem Refines.exec (h : Refines s c) {accesses : List (MsgIdAccess ι)}
    {results : List (MsgIdResult ι)} (hrun : exec MsgIds.access s accesses = .ok (t, results)) :
    ∃ d, Lab1.exec (Cas.step next) c (accesses.map actOf) = .ok (d, results.map outOf) ∧
      Refines t d := by
  induction accesses generalizing s c results with
  | nil =>
    cases hrun
    exact ⟨c, rfl, h⟩
  | cons a accesses ih =>
    obtain ⟨s', r, results', hfirst, hrest, rfl⟩ := exec_cons_eq_ok.mp hrun
    obtain ⟨c', hstep, h'⟩ := h.access hfirst
    obtain ⟨d, hlater, ht⟩ := ih h' hrest
    exact ⟨d, exec_cons_eq_ok.mpr ⟨c', outOf r, _, hstep, hlater, rfl⟩, ht⟩

/-- A swap is made where the counter still has the value that the call has read, and then the call
returns the next id.  Otherwise the counter stays as it is, and the loop takes another turn. -/
theorem Refines.compareAndSwap_eq (h : Refines s c) (hswaps : (s.calls i).swaps = true) :
    ∃ t, s.compareAndSwap i = .ok (t,
        if (s.calls i).oldId = s.m_msgId then .returned i (s.m_msgId + 1) else .again i) ∧
      t.m_msgId = if (s.calls i).oldId = s.m_msgId then s.m_msgId + 1 else s.m_msgId := by
  have hnew : (s.calls i).newId = (s.calls i).oldId + 1 := h.newId i hswaps
  rcases eq_or_ne (s.calls i).oldId s.m_msgId with heq | hne
  · rw [compareAndSwap_of_eq hswaps heq, if_pos heq, if_pos heq, hnew, heq]
    exact ⟨_, rfl, rfl⟩
  · rw [compareAndSwap_of_ne hswaps hne, if_neg hne, if_neg hne]
    exact ⟨_, rfl, rfl⟩

end MsgIds

/-! ### The ids -/

namespace MsgIdResult

variable {ι : Type*}

def id? : MsgIdResult ι → Option UInt32
  | goesOn => none
  | again _ => none
  | returned _ newId => some newId

/-- The ids, in the order in which they are returned. -/
def ids (results : List (MsgIdResult ι)) : List UInt32 := results.filterMap id?

variable [DecidableEq ι]

/-- The thread takes another turn of its loop. -/
def isAgain (i : ι) : MsgIdResult ι → Bool
  | goesOn => false
  | again j => j == i
  | returned _ _ => false

/-- Another thread gets an id. -/
def isOther (i : ι) : MsgIdResult ι → Bool
  | goesOn => false
  | again _ => false
  | returned j _ => j != i

end MsgIdResult

namespace MsgIds

open MsgIdResult

variable {ι : Type*}

theorem length_ids_cons (r : MsgIdResult ι) (results : List (MsgIdResult ι)) :
    (ids (r :: results)).length = (if r.id?.isSome then 1 else 0) + (ids results).length := by
  unfold ids
  rw [List.filterMap_cons]
  cases r with
  | goesOn => exact (Nat.zero_add _).symm
  | again i => exact (Nat.zero_add _).symm
  | returned i newId => exact Nat.add_comm _ 1

theorem updates_map_outOf (results : List (MsgIdResult ι)) :
    Cas.Out.updates (results.map outOf) = ids results := by
  rw [Cas.Out.updates, List.filterMap_map]
  refine congrArg (List.filterMap · results) (funext fun r => ?_)
  cases r <;> rfl

theorem iterate_next (k : ℕ) : next^[k] 0 = UInt32.ofNat k := by
  induction k with
  | zero => rfl
  | succ k ih =>
    rw [Function.iterate_succ_apply', ih, next, UInt32.ofNat_add]
    rfl

/-- The first ids are different from each other, up to the number of values of the counter. -/
theorem nodup_ids_iff (n : ℕ) :
    ((List.range n).map fun k => UInt32.ofNat (k + 1)).Nodup ↔ n ≤ 4294967296 := by
  rw [List.nodup_map_iff_inj_on List.nodup_range]
  constructor
  · -- one more id is the first one again
    intro h
    by_contra hlt
    have heq := h 0 (List.mem_range.mpr (by omega)) 4294967296 (List.mem_range.mpr (by omega)) rfl
    omega
  · intro h k hk l hl heq
    rw [List.mem_range] at hk hl
    have hmod := congrArg UInt32.toNat heq
    rw [UInt32.toNat_ofNat', UInt32.toNat_ofNat'] at hmod
    omega

variable [DecidableEq ι]

/-- The access is a swap that is made. -/
def swapMade (s : MsgIds ι) : MsgIdAccess ι → Bool
  | .read _ => false
  | .compareAndSwap i => (s.calls i).oldId == s.m_msgId

/-- The number of swaps that are made in a run. -/
def swapsMade (s : MsgIds ι) : List (MsgIdAccess ι) → ℕ
  | [] => 0
  | a :: accesses =>
    match s.access a with
    | .ok (t, _) => (if s.swapMade a then 1 else 0) + swapsMade t accesses
    | .error _ => 0

/-- An id is returned where a swap is made. -/
theorem isSome_id?_of_access {s t : MsgIds ι} {a : MsgIdAccess ι} {r : MsgIdResult ι}
    (hstep : s.access a = .ok (t, r)) : r.id?.isSome = s.swapMade a := by
  cases a with
  | read i =>
    have hread : s.read i = .ok (t, r) := hstep
    unfold MsgIds.read at hread
    split_ifs at hread
    obtain ⟨-, rfl⟩ := ok_pair_inj hread
    rfl
  | compareAndSwap i =>
    have hswap : s.compareAndSwap i = .ok (t, r) := hstep
    have hswaps := swaps_of_compareAndSwap hswap
    rcases eq_or_ne (s.calls i).oldId s.m_msgId with heq | hne
    · rw [compareAndSwap_of_eq hswaps heq] at hswap
      obtain ⟨-, rfl⟩ := ok_pair_inj hswap
      exact (beq_iff_eq.mpr heq).symm
    · rw [compareAndSwap_of_ne hswaps hne] at hswap
      obtain ⟨-, rfl⟩ := ok_pair_inj hswap
      exact (beq_eq_false_iff_ne.mpr hne).symm

theorem length_ids {s t : MsgIds ι} {accesses : List (MsgIdAccess ι)}
    {results : List (MsgIdResult ι)} (hrun : exec access s accesses = .ok (t, results)) :
    (ids results).length = s.swapsMade accesses := by
  induction accesses generalizing s results with
  | nil =>
    cases hrun
    rfl
  | cons a accesses ih =>
    obtain ⟨s', r, results', hfirst, hrest, rfl⟩ := exec_cons_eq_ok.mp hrun
    rw [length_ids_cons, isSome_id?_of_access hfirst, ih hrest, swapsMade, hfirst]

/-- **Ids are given out one after the other.**  Whatever the interleaving of the calls: a swap is
made where the counter has not changed since the call has read it, and it returns the next id; there
are as many ids as swaps that were made, they are `1`, `2` and so on, modulo `2 ^ 32`, and the
counter has the last one; a call takes as many more turns, at the most, as ids are returned to
others. -/
theorem access_ids {t : MsgIds ι} {accesses : List (MsgIdAccess ι)}
    {results : List (MsgIdResult ι)} (hrun : exec access start accesses = .ok (t, results)) :
    (∀ i, (t.calls i).swaps = true → ∃ t', t.compareAndSwap i = .ok (t',
        if (t.calls i).oldId = t.m_msgId then .returned i (t.m_msgId + 1) else .again i) ∧
      t'.m_msgId = if (t.calls i).oldId = t.m_msgId then t.m_msgId + 1 else t.m_msgId) ∧
      (ids results).length = start.swapsMade accesses ∧
      ids results = (List.range (ids results).length).map (fun k => UInt32.ofNat (k + 1)) ∧
      t.m_msgId = UInt32.ofNat (ids results).length ∧
      ((ids results).Nodup ↔ (ids results).length ≤ 4294967296) ∧
      ∀ i, results.countP (isAgain i) ≤ results.countP (isOther i) := by
  obtain ⟨d, hcas, hd⟩ := refines_start.exec hrun
  obtain ⟨hups, hcell⟩ := Cas.exec_step_updates hcas
  rw [updates_map_outOf] at hups hcell
  have hids : ids results
      = (List.range (ids results).length).map (fun k => UInt32.ofNat (k + 1)) :=
    hups.trans (List.map_congr_left fun k _ => iterate_next (k + 1))
  refine ⟨fun i => hd.compareAndSwap_eq, length_ids hrun, hids, ?_, ?_, fun i => ?_⟩
  · rw [← hd.cell, hcell]
    exact iterate_next _
  · have hnodup := nodup_ids_iff (ids results).length
    rwa [← hids] at hnodup
  · have hfail := Cas.failures_le_updates (fun _ => rfl) i hcas
    have hagain : Cas.Out.failedBy i ∘ outOf = isAgain i := by
      funext r
      cases r <;> rfl
    have hother : Cas.Out.updatedByOther i ∘ outOf = isOther i := by
      funext r
      cases r <;> rfl
    rwa [List.countP_map, List.countP_map, hagain, hother] at hfail

/-- Two threads both read the counter before one of them swaps. -/
def twoThreads : List (MsgIdAccess Bool) :=
  [.read true, .read false, .compareAndSwap true, .compareAndSwap false, .read false,
    .compareAndSwap false]

theorem access_ids_twoThreads : ∃ t results,
    exec access (start : MsgIds Bool) twoThreads = .ok (t, results) ∧
      results = [.goesOn, .goesOn, .returned true 1, .again false, .goesOn, .returned false 2] ∧
      (start : MsgIds Bool).swapsMade twoThreads = 2 ∧ t.m_msgId = 2 ∧ (ids results).Nodup := by
  have hrun : ∃ t results, exec access (start : MsgIds Bool) twoThreads = .ok (t, results) ∧
      results = [.goesOn, .goesOn, .returned true 1, .again false, .goesOn, .returned false 2] :=
    ⟨_, _, rfl, rfl⟩
  obtain ⟨t, results, hrun, hresults⟩ := hrun
  obtain ⟨-, hmade, -, hcounter, hnodup, -⟩ := access_ids hrun
  have htwo : (ids results).length = 2 := by
    rw [hresults]
    rfl
  refine ⟨t, results, hrun, hresults, hmade.symm.trans htwo, ?_, hnodup.mpr (by omega)⟩
  rw [hcounter, htwo]
  rfl

end MsgIds

end Lab1.Nw
