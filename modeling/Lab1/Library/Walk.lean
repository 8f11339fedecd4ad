import Mathlib.Algebra.BigOperators.Group.List.Basic
import Mathlib.Algebra.GroupWithZero.Nat

/-!
# A pointer moved on by hand

A loop that goes through the fields of a packed record with a pointer, and moves the pointer on by
some amount behind each field, reads field number `i` at the sum of the amounts before it
(`walk_getElem?`).  This is where the field lies as long as the amounts are the fields' sizes.
-/

namespace Lab1

variable {α β : Type*}

/-- What is read of the fields `xs` from `p` on, where `adv x` is how far the pointer is moved
behind the field `x` and `f x p` what is read of it at `p`. -/
def walk (adv : α → ℕ) (f : α → ℕ → β) : List α → ℕ → List β
  | [], _ => []
  | x :: xs, p => f x p :: walk adv f xs (p + adv x)

variable {adv : α → ℕ} {f : α → ℕ → β}

/-- Where field number `i` is read. -/
theorem walk_getElem? (xs : List α) (p i : ℕ) :
    (walk adv f xs p)[i]? = xs[i]?.map fun x => f x (p + ((xs.take i).map adv).sum) := by
  induction xs generalizing p i with
  | nil => rfl
  | cons x xs ih =>
    cases i with
    | zero => rfl
    | succ i =>
      rw [walk, List.getElem?_cons_succ, ih, List.getElem?_cons_succ, List.take_succ_cons,
        List.map_cons, List.sum_cons, Nat.add_assoc]

/-- The sum of the first amounts, for fields given by their numbers. -/
theorem walk_range_getElem? {n i : ℕ} (adv : ℕ → ℕ) (f : ℕ → ℕ → β) (hi : i < n) :
    (walk adv f (List.range n) 0)[i]? = some (f i ((List.range i).map adv).sum) := by
  rw [walk_getElem?, List.getElem?_range hi, List.take_range,
    Nat.min_eq_left (Nat.le_of_lt hi), Nat.zero_add]
  rfl

end Lab1
