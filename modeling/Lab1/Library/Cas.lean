import Lab1.Library.Exec
import Mathlib.Data.List.Range
import Mathlib.Logic.Function.Iterate

/-!
# Updates by compare-and-swap

Threads update one cell without a lock: a thread reads the cell, computes the new value from what it
has read, and swaps it in if the cell still has the value that was read; otherwise it starts again.

However the threads are interleaved, the swaps that succeed are the updates one after the other
(`exec_step_updates`): each of them is the update of the value that the one before it left.  And a
swap fails only where another one has succeeded since the thread's last read
(`failures_le_updates`), so that the threads together always get on.
-/

namespace Lab1.Cas

structure State (ι α : Type*) where
  cell : α
  /-- what a thread has read, when it is about to swap -/
  seen : ι → Option α

inductive Act (ι : Type*) where
  | load (i : ι)
  | swap (i : ι)

/-- What comes out of an action. -/
inductive Out (ι α : Type*) where
  | loaded
  | failed (i : ι)
  | updated (i : ι) (new : α)

namespace Out

variable {ι α : Type*}

def new? : Out ι α → Option α
  | loaded => none
  | failed _ => none
  | updated _ new => some new

/-- The new values, in the order in which they were swapped in. -/
def updates (outs : List (Out ι α)) : List α := outs.filterMap new?

theorem updates_concat (outs : List (Out ι α)) (out : Out ι α) :
    updates (outs ++ [out]) = updates outs ++ out.new?.toList := by
  rw [updates, List.filterMap_append]
  cases out <;> rfl

def failedBy [DecidableEq ι] (i : ι) : Out ι α → Bool
  | loaded => false
  | failed j => j == i
  | updated _ _ => false

def updatedByOther [DecidableEq ι] (i : ι) : Out ι α → Bool
  | loaded => false
  | failed _ => false
  | updated j _ => j != i

end Out

section Stale

variable {ι α : Type*} {s : State ι α} {i j : ι}

/-- The thread has read a value that the cell no longer has. -/
def Stale (s : State ι α) (i : ι) : Prop := ∃ old, s.seen i = some old ∧ s.cell ≠ old

theorem not_stale_of_none (h : s.seen i = none) : ¬Stale s i := by
  rintro ⟨old, hold, _⟩
  rw [h] at hold
  cases hold

/-- What another thread reads or forgets changes nothing for this one. -/
theorem stale_of_update_of_ne [DecidableEq ι] {v : Option α} (hne : i ≠ j)
    (h : Stale { s with seen := Function.update s.seen j v } i) : Stale s i := by
  obtain ⟨old, hold, hcell⟩ := h
  have hseen : Function.update s.seen j v i = some old := hold
  rw [Function.update_of_ne hne] at hseen
  exact ⟨old, hseen, hcell⟩

end Stale

/-- The thread is not at this action. -/
inductive Blocked where
  | blocked

variable {ι α : Type*} [DecidableEq ι] [DecidableEq α]

/-- One action of a thread; `f` is the update. -/
def step (f : α → α) (s : State ι α) : Act ι → Except Blocked (State ι α × Out ι α)
  | .load i =>
    match s.seen i with
    | some _ => .error .blocked
    | none => .ok ({ s with seen := Function.update s.seen i (some s.cell) }, .loaded)
  | .swap i =>
    match s.seen i with
    | none => .error .blocked
    | some old =>
      let seen := Function.update s.seen i none
      if s.cell = old then .ok (⟨f old, seen⟩, .updated i (f old))
      else .ok ({ s with seen }, .failed i)

/-- Each action in the ways that it can go. -/
inductive Steps (f : α → α) (s : State ι α) : Act ι → State ι α → Out ι α → Prop
  | load {i} (h : s.seen i = none) :
    Steps f s (.load i) { s with seen := Function.update s.seen i (some s.cell) } .loaded
  | update {i} (h : s.seen i = some s.cell) :
    Steps f s (.swap i) ⟨f s.cell, Function.update s.seen i none⟩ (.updated i (f s.cell))
  | fail {i old} (h : s.seen i = some old) (hne : s.cell ≠ old) :
    Steps f s (.swap i) { s with seen := Function.update s.seen i none } (.failed i)

variable {f : α → α} {s t : State ι α} {a : Act ι} {out : Out ι α}

theorem step_cases (h : step f s a = .ok (t, out)) : Steps f s a t out := by
  cases a with
  | load i =>
    rw [step] at h
    cases hseen : s.seen i with
    | some old =>
      rw [hseen] at h
      cases h
    | none =>
      rw [hseen] at h
      obtain ⟨rfl, rfl⟩ := ok_pair_inj h
      exact .load hseen
  | swap i =>
    rw [step] at h
    cases hseen : s.seen i with
    | none =>
      rw [hseen] at h
      cases h
    | some old =>
      rw [hseen] at h
      dsimp only at h
      split_ifs at h with hcell
      · subst hcell
        obtain ⟨rfl, rfl⟩ := ok_pair_inj h
        exact .update hseen
      · obtain ⟨rfl, rfl⟩ := ok_pair_inj h
        exact .fail hseen hcell

/-! ### The updates -/

/-- **Each update is made to what the one before it left.** -/
theorem exec_step_updates {acts : List (Act ι)} {outs : List (Out ι α)}
    (h : exec (step f) s acts = .ok (t, outs)) :
    Out.updates outs = (List.range (Out.updates outs).length).map (fun k => f^[k + 1] s.cell) ∧
      t.cell = f^[(Out.updates outs).length] s.cell := by
  refine exec_invariant_outputs (fun outs u => Out.updates outs
        = (List.range (Out.updates outs).length).map (fun k => f^[k + 1] s.cell) ∧
      u.cell = f^[(Out.updates outs).length] s.cell) ?_ ⟨rfl, rfl⟩ h
  intro outs u a u' out ⟨hups, hcell⟩ hstep
  rw [Out.updates_concat]
  cases step_cases hstep with
  | load hseen =>
    rw [Out.new?, Option.toList_none, List.append_nil]
    exact ⟨hups, hcell⟩
  | fail hseen hne =>
    rw [Out.new?, Option.toList_none, List.append_nil]
    exact ⟨hups, hcell⟩
  | update hseen =>
    have hlast : f u.cell = f^[(Out.updates outs).length + 1] s.cell := by
      rw [Function.iterate_succ_apply', hcell]
    rw [Out.new?, Option.toList_some, List.length_append, List.length_singleton, List.range_succ,
      List.map_append, ← hups, List.map_singleton, ← hlast]
    exact ⟨rfl, rfl⟩

/-! ### The failures -/

/-- No more failures than updates by others; and one less, if the next swap is to fail. -/
structure Accounted (outs : List (Out ι α)) (s : State ι α) (i : ι) : Prop where
  le : outs.countP (Out.failedBy i) ≤ outs.countP (Out.updatedByOther i)
  lt : Stale s i → outs.countP (Out.failedBy i) < outs.countP (Out.updatedByOther i)

omit [DecidableEq α] in
theorem Accounted.step {outs : List (Out ι α)} {i : ι} (hI : Accounted outs s i)
    (h : Steps f s a t out) : Accounted (outs ++ [out]) t i := by
  obtain ⟨hle, hlt⟩ := hI
  cases h with
  | @load j hseen =>
    have hfailed : (outs ++ [(Out.loaded : Out ι α)]).countP (Out.failedBy i)
        = outs.countP (Out.failedBy i) := List.countP_append
    have hupdated : (outs ++ [(Out.loaded : Out ι α)]).countP (Out.updatedByOther i)
        = outs.countP (Out.updatedByOther i) := List.countP_append
    refine ⟨by omega, fun hstale => ?_⟩
    rcases eq_or_ne i j with rfl | hne
    · -- it has read what is there
      obtain ⟨old, hold, hcell⟩ := hstale
      have hself : Function.update s.seen i (some s.cell) i = some s.cell :=
        Function.update_self _ _ _
      exact absurd (Option.some.inj (hself.symm.trans hold)) hcell
    · have hbefore := hlt (stale_of_update_of_ne hne hstale)
      omega
  | @update j hseen =>
    have hfailed : (outs ++ [Out.updated j (f s.cell)]).countP (Out.failedBy i)
        = outs.countP (Out.failedBy i) := List.countP_append
    rcases eq_or_ne j i with rfl | hne
    · -- the thread has to read again before its next swap
      have hupdated : (outs ++ [Out.updated j (f s.cell)]).countP (Out.updatedByOther j)
          = outs.countP (Out.updatedByOther j) := by simp [Out.updatedByOther]
      exact ⟨by omega, fun hstale => absurd hstale (not_stale_of_none (Function.update_self _ _ _))⟩
    · have hupdated : (outs ++ [Out.updated j (f s.cell)]).countP (Out.updatedByOther i)
          = outs.countP (Out.updatedByOther i) + 1 := by simp [Out.updatedByOther, hne]
      exact ⟨by omega, fun _ => by omega⟩
  | @fail j old hseen hcell =>
    have hupdated : (outs ++ [(Out.failed j : Out ι α)]).countP (Out.updatedByOther i)
        = outs.countP (Out.updatedByOther i) := List.countP_append
    rcases eq_or_ne j i with rfl | hne
    · -- this is the failure that was still to come
      have hfailed : (outs ++ [(Out.failed j : Out ι α)]).countP (Out.failedBy j)
          = outs.countP (Out.failedBy j) + 1 := by simp [Out.failedBy]
      have hbefore := hlt ⟨old, hseen, hcell⟩
      exact ⟨by omega, fun hstale => absurd hstale (not_stale_of_none (Function.update_self _ _ _))⟩
    · have hfailed : (outs ++ [(Out.failed j : Out ι α)]).countP (Out.failedBy i)
          = outs.countP (Out.failedBy i) := by simp [Out.failedBy, hne]
      refine ⟨by omega, fun hstale => ?_⟩
      have hbefore := hlt (stale_of_update_of_ne hne.symm hstale)
      omega

/-- **A swap fails only for another one that has succeeded.** -/
theorem failures_le_updates (hs : ∀ i, s.seen i = none) (i : ι) {acts : List (Act ι)}
    {outs : List (Out ι α)} (h : exec (step f) s acts = .ok (t, outs)) :
    outs.countP (Out.failedBy i) ≤ outs.countP (Out.updatedByOther i) := by
  have hrun : Accounted outs t i := by
    refine exec_invariant_outputs (fun outs u => Accounted outs u i) ?_ ?_ h
    · intro outs u a u' out hI hstep
      exact hI.step (step_cases hstep)
    · exact ⟨le_rfl, fun hstale => absurd hstale (not_stale_of_none (hs i))⟩
  exact hrun.le

end Lab1.Cas
