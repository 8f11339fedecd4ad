import Mathlib.Algebra.BigOperators.Group.List.Basic
import Mathlib.Data.List.Basic

/-!
# Pieces of a stream and its frames

A stream is a list of frames of `n` elements each, one behind the other.  A reader gets it in pieces
of at most `n` elements.  `forall_length_eq_iff` says that the pieces are as many as the frames if
and only if each has the full length; then they are the frames (`eq_of_flatten_eq`).
-/

namespace Lab1.Frames

variable {α : Type*} {n : ℕ} {xs ys : List (List α)}

theorem length_flatten_of_forall (hxs : ∀ x ∈ xs, x.length = n) :
    xs.flatten.length = xs.length * n := by
  induction xs with
  | nil => simp
  | cons x xs ih =>
    have hxs := List.forall_mem_cons.mp hxs
    rw [List.flatten_cons, List.length_append, hxs.1, ih hxs.2, List.length_cons, Nat.succ_mul,
      Nat.add_comm]

theorem length_flatten_le (hxs : ∀ x ∈ xs, x.length ≤ n) : xs.flatten.length ≤ xs.length * n := by
  induction xs with
  | nil => simp
  | cons x xs ih =>
    have hxs := List.forall_mem_cons.mp hxs
    have hle := ih hxs.2
    rw [List.flatten_cons, List.length_append, List.length_cons, Nat.succ_mul]
    omega

/-- Pieces that make up as much as they can are all of full length. -/
theorem forall_length_eq_of_flatten (hxs : ∀ x ∈ xs, x.length ≤ n)
    (h : xs.flatten.length = xs.length * n) : ∀ x ∈ xs, x.length = n := by
  induction xs with
  | nil => exact fun x hx => absurd hx List.not_mem_nil
  | cons x xs ih =>
    have hxs := List.forall_mem_cons.mp hxs
    have hle := length_flatten_le hxs.2
    rw [List.flatten_cons, List.length_append, List.length_cons, Nat.succ_mul] at h
    exact List.forall_mem_cons.mpr ⟨by omega, ih hxs.2 (by omega)⟩

/-- Frames of one length can be told apart. -/
theorem eq_of_flatten_eq (hn : 0 < n) (hxs : ∀ x ∈ xs, x.length = n)
    (hys : ∀ y ∈ ys, y.length = n) (h : xs.flatten = ys.flatten) : xs = ys := by
  induction xs generalizing ys with
  | nil =>
    rcases ys with _ | ⟨y, ys⟩
    · rfl
    · have hlen := congrArg List.length h
      rw [length_flatten_of_forall hys, List.length_cons, Nat.succ_mul] at hlen
      simp at hlen
      omega
  | cons x xs ih =>
    have hxs := List.forall_mem_cons.mp hxs
    rcases ys with _ | ⟨y, ys⟩
    · have hlen := congrArg List.length h
      rw [List.flatten_cons, List.length_append, hxs.1] at hlen
      simp at hlen
      omega
    · have hys := List.forall_mem_cons.mp hys
      obtain ⟨rfl, hrest⟩ := List.append_inj h (hxs.1.trans hys.1.symm)
      rw [ih hxs.2 hys.2 hrest]

/-- **Counting the pieces.** -/
theorem forall_length_eq_iff (hn : 0 < n) (hxs : ∀ x ∈ xs, x.length ≤ n)
    (hys : ∀ y ∈ ys, y.length = n) (h : xs.flatten = ys.flatten) :
    (∀ x ∈ xs, x.length = n) ↔ xs.length = ys.length := by
  constructor
  · exact fun hfull => congrArg List.length (eq_of_flatten_eq hn hfull hys h)
  · intro hlen
    exact forall_length_eq_of_flatten hxs (by rw [h, length_flatten_of_forall hys, hlen])

end Lab1.Frames
