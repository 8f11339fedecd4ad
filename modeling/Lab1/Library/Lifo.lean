import Mathlib.Data.List.Basic
import Mathlib.Logic.Function.Basic

/-!
# Bounded stacks

A stack of at most `n` values is a list with the top first; `step` says what the calls do to it and
what they result in.

An implementation may keep the values in an array and count how many slots are in use.  `stacked` is
then the list it stands for: a push is a store behind the last slot in use (`stacked_update_succ`),
and a pop takes the last one (`stacked_succ`).
-/

namespace Lab1.Lifo

variable {α : Type*}

inductive Call (α : Type*) where
  | push (x : α)
  | pop
  | clear
  deriving DecidableEq, Repr

inductive Result (α : Type*) where
  | pushed
  | full
  | popped (x : α)
  | empty
  | cleared
  deriving DecidableEq, Repr

/-- What a call does to a stack of at most `n` values. -/
def step (n : ℕ) (xs : List α) : Call α → List α × Result α
  | .push x => if xs.length < n then (x :: xs, .pushed) else (xs, .full)
  | .pop =>
    match xs with
    | [] => ([], .empty)
    | x :: xs => (xs, .popped x)
  | .clear => ([], .cleared)

theorem step_push_of_lt {n : ℕ} {xs : List α} (h : xs.length < n) (x : α) :
    step n xs (.push x) = (x :: xs, .pushed) := if_pos h

theorem step_push_of_le {n : ℕ} {xs : List α} (h : n ≤ xs.length) (x : α) :
    step n xs (.push x) = (xs, .full) := if_neg (Nat.not_lt.mpr h)

/-- What is on the stack was pushed. -/
theorem mem_step {n : ℕ} {xs : List α} {c : Call α} {y : α} (h : y ∈ (step n xs c).1) :
    y ∈ xs ∨ c = .push y := by
  cases c with
  | push x =>
    rcases Nat.lt_or_ge xs.length n with hlt | hge
    · rw [step_push_of_lt hlt] at h
      rcases List.mem_cons.mp h with rfl | h
      · exact Or.inr rfl
      · exact Or.inl h
    · rw [step_push_of_le hge] at h
      exact Or.inl h
  | pop =>
    cases xs with
    | nil => cases h
    | cons x xs => exact Or.inl (List.mem_cons_of_mem x h)
  | clear => cases h

/-! ### Stacks in arrays -/

/-- The values in the first `k` slots, the last one first. -/
def stacked (slots : ℕ → α) (k : ℕ) : List α := ((List.range k).map slots).reverse

variable {slots : ℕ → α} {k : ℕ}

@[simp] theorem length_stacked : (stacked slots k).length = k := by simp [stacked]

theorem stacked_succ : stacked slots (k + 1) = slots k :: stacked slots k := by
  rw [stacked, List.range_succ, List.map_append, List.reverse_append]
  rfl

/-- A store behind the slots in use. -/
theorem stacked_update_succ (x : α) :
    stacked (Function.update slots k x) (k + 1) = x :: stacked slots k := by
  have hbelow : stacked (Function.update slots k x) k = stacked slots k := by
    refine congrArg List.reverse (List.map_congr_left fun i hi => ?_)
    exact Function.update_of_ne (Nat.ne_of_lt (List.mem_range.mp hi)) x slots
  rw [stacked_succ, Function.update_self, hbelow]

end Lab1.Lifo
