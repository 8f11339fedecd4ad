import Lab1.LoaderMagic.LoaderFd
import Mathlib.Data.Multiset.OrderedMonoid
import Mathlib.Tactic.Abel

/-!
# Every handle is closed once

Every handle that `dlopen` returned is closed, held by an object, or lost (`Balanced`).  A move
passes a handle on, and a destruction closes one; only an assignment to an object that has a handle
loses something, namely this handle (`balanced_step`), an assignment of an object to itself
included.  So in the end all handles are closed if and only if all assignments were to objects
without one (`closedOnce_iff`).
-/

namespace Lab1.LoaderMagic

open Holders

variable {ι η : Type*} [DecidableEq ι]

/-! ### The property -/

/-- The handles that objects hold. -/
def Loader.held (s : Loader ι η) : Multiset η := Holders.held s.live s.m_raw_handle

/-- Every call uses objects that are alive, and in the end none is. -/
def WholeLife (calls : List (Call ι η)) : Prop :=
  ∃ t outs, exec (step ⟨true⟩) start calls = .ok (t, outs) ∧ t.live = ∅

/-- In the end, what was passed to `dlclose` is what `dlopen` returned, each as many times, and on
the way nothing is closed that an object holds. -/
structure ClosedOnce (b : Build) (calls : List (Call ι η)) : Prop where
  closed : ∃ t outs, exec (step b) start calls = .ok (t, outs) ∧
    (t.closed : Multiset η) = t.opened
  held : ∀ pre post s outs, calls = pre ++ post → exec (step b) start pre = .ok (s, outs) →
    (s.closed : Multiset η) + s.held ≤ s.opened

/-- The handle that an assignment overwrites. -/
def overwritten (s : Loader ι η) : Call ι η → Option η
  | .moveAssign obj _ => s.m_raw_handle obj
  | _ => none

/-- All assignments are to objects without a handle. -/
def AssignsToEmpty (b : Build) : Loader ι η → List (Call ι η) → Prop
  | _, [] => True
  | s, c :: cs => overwritten s c = none ∧
      ∀ s', step b s c = .ok (s', ()) → AssignsToEmpty b s' cs

/-! ### One call -/

/-- What `dlopen` returned is closed, held, or lost. -/
def Balanced (s : Loader ι η) (lost : Multiset η) : Prop :=
  (s.opened : Multiset η) = s.closed + s.held + lost

section Calls

variable {s s' : Loader ι η} {lost : Multiset η} {obj other : ι} {handle : Option η}

omit [DecidableEq ι] in
theorem coe_append_toList (hs : List η) (handle : Option η) :
    ((hs ++ handle.toList : List η) : Multiset η) = hs + one handle := (Multiset.coe_add _ _).symm

theorem create_eq_ok : s.create obj handle = .ok s' ↔ obj ∉ s.live ∧
    s' = { s with
      live := insert obj s.live
      m_raw_handle := Function.update s.m_raw_handle obj handle } := by
  unfold Loader.create
  split_ifs with h <;> simp [h, eq_comm]

/-- An object with the handle that `dlopen` has just returned. -/
theorem balanced_fromPath (h : Balanced s lost) (hcall : s.fromPath obj handle = .ok s') :
    Balanced s' lost := by
  obtain ⟨hnew, rfl⟩ := create_eq_ok.mp hcall
  show ((s.opened ++ handle.toList : List η) : Multiset η) = s.closed
    + Holders.held (insert obj s.live) (Function.update s.m_raw_handle obj handle) + lost
  have hheld : Holders.held (insert obj s.live) (Function.update s.m_raw_handle obj handle)
      = one handle + s.held := held_insert hnew handle
  rw [coe_append_toList, hheld, h]
  abel

theorem balanced_construct (h : Balanced s lost) (hcall : s.create obj none = .ok s') :
    Balanced s' lost := by
  have hnone : s.fromPath obj none = .ok s' := by
    rw [← hcall, Loader.fromPath, Loader.dlopen, Option.toList_none, List.append_nil]
  exact balanced_fromPath h hnone

theorem balanced_openLib (h : Balanced s lost) (hcall : s.openLib obj handle = .ok s') :
    Balanced s' lost := by
  cases handle with
  | none =>
    obtain rfl := Except.ok.inj hcall
    show ((s.opened ++ [] : List η) : Multiset η) = _
    rw [List.append_nil]
    exact h
  | some x => exact balanced_fromPath h hcall

theorem balanced_moveConstruct (h : Balanced s lost) (hcall : s.moveConstruct obj other = .ok s') :
    Balanced s' lost := by
  unfold Loader.moveConstruct at hcall
  split_ifs at hcall with hother
  obtain ⟨s₁, hcreate, hs'⟩ := bind_eq_ok.mp hcall
  obtain ⟨hnew, rfl⟩ := create_eq_ok.mp hcreate
  obtain rfl := Except.ok.inj hs'
  show (s.opened : Multiset η) = s.closed + Holders.held (insert obj s.live)
    (Function.update (Function.update s.m_raw_handle obj (s.m_raw_handle other)) other none) + lost
  rw [held_moveNew hnew hother]
  exact h

/-- An assignment loses what the object had. -/
theorem balanced_moveAssign {b : Build} (h : Balanced s lost)
    (hcall : s.moveAssign b obj other = .ok s') :
    Balanced s' (one (s.m_raw_handle obj) + lost) := by
  unfold Loader.moveAssign at hcall
  split_ifs at hcall with hlive
  obtain rfl := Except.ok.inj hcall
  have hmove := held_moveOver (f := s.m_raw_handle) hlive.1 hlive.2
  show (s.opened : Multiset η) = s.closed + Holders.held s.live
    (Function.update (Function.update s.m_raw_handle obj (s.m_raw_handle other)) other none)
      + (one (s.m_raw_handle obj) + lost)
  rw [h, Loader.held, ← hmove]
  abel

theorem balanced_destroy (h : Balanced s lost) (hcall : s.destroy obj = .ok s') :
    Balanced s' lost := by
  unfold Loader.destroy at hcall
  split_ifs at hcall with hlive
  obtain rfl := Except.ok.inj hcall
  have hclose := held_erase (f := s.m_raw_handle) hlive
  show (s.opened : Multiset η) = ((s.closed ++ (s.m_raw_handle obj).toList : List η) : Multiset η)
    + Holders.held (s.live.erase obj) s.m_raw_handle + lost
  rw [coe_append_toList, h, Loader.held, ← hclose]
  abel

/-- What a call loses is what it overwrites. -/
theorem balanced_step {b : Build} {c : Call ι η} (h : Balanced s lost)
    (hstep : step b s c = .ok (s', ())) : Balanced s' (one (overwritten s c) + lost) := by
  obtain ⟨s₁, hcall, hs'⟩ := bind_eq_ok.mp hstep
  obtain rfl : s₁ = s' := (ok_pair_inj hs').1
  cases c with
  | construct obj => exact (zero_add lost).symm ▸ balanced_construct h hcall
  | fromPath obj handle => exact (zero_add lost).symm ▸ balanced_fromPath h hcall
  | openLib obj handle => exact (zero_add lost).symm ▸ balanced_openLib h hcall
  | moveConstruct obj other => exact (zero_add lost).symm ▸ balanced_moveConstruct h hcall
  | moveAssign obj other => exact balanced_moveAssign h hcall
  | destroy obj => exact (zero_add lost).symm ▸ balanced_destroy h hcall

end Calls

/-! ### Runs -/

section Runs

variable {b : Build} {s t : Loader ι η} {calls : List (Call ι η)} {outs : List Unit}

/-- What a run loses, and when it loses nothing. -/
theorem balanced_exec {lost : Multiset η} (h : Balanced s lost)
    (hrun : exec (step b) s calls = .ok (t, outs)) :
    ∃ more, Balanced t (more + lost) ∧ (more = 0 ↔ AssignsToEmpty b s calls) := by
  induction calls generalizing s lost outs with
  | nil =>
    obtain ⟨rfl, _⟩ := ok_pair_inj hrun
    exact ⟨0, (zero_add lost).symm ▸ h, iff_of_true rfl trivial⟩
  | cons c cs ih =>
    obtain ⟨s', _, _, hfirst, hrest, _⟩ := exec_cons_eq_ok.mp hrun
    obtain ⟨more, ht, hmore⟩ := ih (balanced_step h hfirst) hrest
    refine ⟨more + one (overwritten s c), ?_, ?_⟩
    · rwa [add_assoc]
    · rw [add_eq_zero, one_eq_zero_iff, and_comm, hmore]
      refine and_congr_right fun _ => ⟨fun hcs s'' hs'' => ?_, fun hcs => hcs s' hfirst⟩
      obtain ⟨rfl, _⟩ := ok_pair_inj (hfirst.symm.trans hs'')
      exact hcs

omit [DecidableEq ι] in
theorem balanced_start : Balanced (start : Loader ι η) 0 := rfl

/-- Nothing is closed that an object holds. -/
theorem closed_add_held_le (hrun : exec (step b) start calls = .ok (s, outs)) :
    (s.closed : Multiset η) + s.held ≤ s.opened := by
  obtain ⟨more, hs, _⟩ := balanced_exec balanced_start hrun
  rw [hs]
  exact Multiset.le_add_right _ _

/-- At the end of all objects, every handle is closed unless one was lost. -/
theorem closed_eq_opened_iff (hrun : exec (step b) start calls = .ok (t, outs))
    (hend : t.live = ∅) : (t.closed : Multiset η) = t.opened ↔ AssignsToEmpty b start calls := by
  obtain ⟨more, ht, hmore⟩ := balanced_exec balanced_start hrun
  have hheld : t.held = 0 := by
    rw [Loader.held, hend]
    rfl
  rw [← hmore, ht, hheld, add_zero, add_zero]
  exact left_eq_add

/-- A call of `operator=` comes back only where the build lets it. -/
theorem comesBack_of_exec (hrun : exec (step b) s calls = .ok (t, outs)) {obj other : ι}
    (hmem : Call.moveAssign obj other ∈ calls) : b.comesBack = true := by
  obtain ⟨u, r, hstep⟩ := exists_step_of_mem hrun hmem
  obtain ⟨u', hcall, _⟩ := bind_eq_ok.mp hstep
  change u.moveAssign b obj other = .ok u' at hcall
  unfold Loader.moveAssign at hcall
  split_ifs at hcall with _ hback
  exact hback

/-- Without assignments, the build does not matter. -/
theorem exec_eq_of_no_assign (h : ∀ obj other, Call.moveAssign obj other ∉ calls)
    (s : Loader ι η) : exec (step b) s calls = exec (step ⟨true⟩) s calls := by
  refine exec_congr (fun s c hc => ?_) s
  cases c with
  | moveAssign obj other => exact absurd hc (h obj other)
  | construct obj => rfl
  | fromPath obj handle => rfl
  | openLib obj handle => rfl
  | moveConstruct obj other => rfl
  | destroy obj => rfl

/-- **When every handle is closed once.** -/
theorem closedOnce_iff (h : WholeLife calls) :
    ClosedOnce b calls ↔ (b.comesBack = true ∨ ∀ obj other, Call.moveAssign obj other ∉ calls) ∧
      AssignsToEmpty ⟨true⟩ start calls := by
  obtain ⟨t, outs, hrun, hend⟩ := h
  constructor
  · rintro ⟨⟨t', outs', hrun', hclosed⟩, _⟩
    have hback : b.comesBack = true ∨ ∀ obj other, Call.moveAssign obj other ∉ calls := by
      by_contra hnot
      obtain ⟨hfalse, hmem⟩ := not_or.mp hnot
      exact hmem fun obj other hc => hfalse (comesBack_of_exec hrun' hc)
    have hsame : exec (step b) start calls = exec (step ⟨true⟩) start calls := by
      rcases hback with hback | hno
      · obtain ⟨back⟩ := b
        obtain rfl : back = true := hback
        rfl
      · exact exec_eq_of_no_assign hno start
    obtain ⟨rfl, _⟩ := ok_pair_inj (hrun'.symm.trans (hsame.trans hrun))
    exact ⟨hback, (closed_eq_opened_iff hrun hend).mp hclosed⟩
  · rintro ⟨hback, hempty⟩
    refine ⟨⟨t, outs, ?_, (closed_eq_opened_iff hrun hend).mpr hempty⟩,
      fun pre post s outs _ hpre => closed_add_held_le hpre⟩
    rcases hback with hback | hno
    · obtain ⟨back⟩ := b
      obtain rfl : back = true := hback
      exact hrun
    · rw [exec_eq_of_no_assign hno start]
      exact hrun

end Runs

/-- The member of a `loadable_object` gets the handle of a library, which is moved to a new object,
and both objects are destroyed. -/
def loadedAndMoved : List (Call ℕ ℕ) :=
  loadableObject 0 1 (some 7) ++ [.moveConstruct 2 0, .destroy 0, .destroy 2]

theorem closedOnce_moved : WholeLife loadedAndMoved ∧ ClosedOnce ⟨true⟩ loadedAndMoved := by
  have hwhole : WholeLife loadedAndMoved := ⟨_, _, rfl, by decide⟩
  refine ⟨hwhole, (closedOnce_iff hwhole).mpr ⟨Or.inl rfl, ?_⟩⟩
  -- the one assignment is to the member, which the constructor has left without a handle
  simp only [loadedAndMoved, loadableObject, List.cons_append, List.nil_append, AssignsToEmpty,
    overwritten, true_and, implies_true, and_true]
  intro s₁ h₁ s₂ h₂
  cases h₁
  cases h₂
  rfl

/-- An object that has the handle 7 is assigned one with the handle 8. -/
def assignOver : List (Call ℕ ℕ) :=
  [.openLib 0 (some 7), .openLib 1 (some 8), .moveAssign 0 1, .destroy 0, .destroy 1]

/-- The handle 7 is never closed. -/
theorem not_closedOnce_assignOver : (∃ t outs, exec (step ⟨true⟩) start assignOver = .ok (t, outs) ∧
    t.live = ∅ ∧ t.opened = [7, 8] ∧ t.closed = [8]) ∧ ¬ClosedOnce ⟨true⟩ assignOver := by
  have hrun : ∃ t outs, exec (step ⟨true⟩) start assignOver = .ok (t, outs) ∧
      t.live = ∅ ∧ t.opened = [7, 8] ∧ t.closed = [8] := ⟨_, _, rfl, by decide, rfl, rfl⟩
  refine ⟨hrun, ?_⟩
  rintro ⟨⟨t', outs', hrun', hclosed⟩, _⟩
  obtain ⟨t, outs, hrun, _, hopened, hclosed'⟩ := hrun
  obtain ⟨rfl, _⟩ := ok_pair_inj (hrun.symm.trans hrun')
  rw [hopened, hclosed'] at hclosed
  exact absurd hclosed (by decide)

end Lab1.LoaderMagic
