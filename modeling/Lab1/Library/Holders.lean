import Mathlib.Algebra.BigOperators.Group.Finset.Basic
import Mathlib.Algebra.Order.Group.Multiset

/-!
# Objects that hold something

Some objects are alive, and each of them holds at most one thing.  `held` is all that they hold,
with multiplicities.  The lemmas say what making an object, destroying one, and overwriting what one
holds do to it.
-/

namespace Lab1.Holders

variable {ι α : Type*}

/-- What a single object holds. -/
def one (a : Option α) : Multiset α := (a.toList : Multiset α)

@[simp] theorem one_none : one (none : Option α) = 0 := rfl

theorem one_eq_zero_iff {a : Option α} : one a = 0 ↔ a = none := by
  cases a with
  | none => exact iff_of_true rfl rfl
  | some a => exact iff_of_false (Multiset.singleton_ne_zero a) (Option.some_ne_none a)

/-- What the objects that are alive hold. -/
def held (s : Finset ι) (f : ι → Option α) : Multiset α := ∑ i ∈ s, one (f i)

variable [DecidableEq ι] {s : Finset ι} {f : ι → Option α} {i j : ι}

/-- What an object holds does not count for the others. -/
theorem held_erase_update (a : Option α) :
    held (s.erase i) (Function.update f i a) = held (s.erase i) f := by
  refine Finset.sum_congr rfl fun k hk => ?_
  rw [Function.update_of_ne (Finset.ne_of_mem_erase hk)]

/-- A new object. -/
theorem held_insert (hi : i ∉ s) (a : Option α) :
    held (insert i s) (Function.update f i a) = one a + held s f := by
  have hrest := held_erase_update (s := s) (f := f) (i := i) a
  rw [Finset.erase_eq_of_notMem hi] at hrest
  rw [held, Finset.sum_insert hi, Function.update_self]
  exact congrArg (one a + ·) hrest

/-- An object that is no more. -/
theorem held_erase (hi : i ∈ s) : one (f i) + held (s.erase i) f = held s f :=
  Finset.add_sum_erase s (fun k => one (f k)) hi

/-- An object that holds something else. -/
theorem held_update (hi : i ∈ s) (a : Option α) :
    one (f i) + held s (Function.update f i a) = one a + held s f := by
  rw [← held_erase (f := f) hi, ← held_erase (f := Function.update f i a) hi, Function.update_self,
    held_erase_update]
  exact add_left_comm _ _ _

/-- What the object `j` holds is given to a new object `i`. -/
theorem held_moveNew (hi : i ∉ s) (hj : j ∈ s) :
    held (insert i s) (Function.update (Function.update f i (f j)) j none)
      = held s f := by
  have hne : j ≠ i := ne_of_mem_of_not_mem hj hi
  have hnew := held_insert (f := f) hi (f j)
  have hgive := held_update (f := Function.update f i (f j))
    (Finset.mem_insert_of_mem hj : j ∈ insert i s) none
  rw [Function.update_of_ne hne, one_none, zero_add, hnew] at hgive
  exact add_left_cancel hgive

/-- What the object `j` holds is given to the object `i`, which may be the same, in place of what
`i` held before. -/
theorem held_moveOver (hi : i ∈ s) (hj : j ∈ s) :
    one (f i) + held s (Function.update (Function.update f i (f j)) j none)
      = held s f := by
  have hsame : Function.update f i (f j) j = f j := by
    by_cases hji : j = i
    · rw [hji, Function.update_self]
    · rw [Function.update_of_ne hji]
  have htake := held_update (f := f) hi (f j)
  have hgive := held_update (f := Function.update f i (f j)) hj none
  rw [hsame, one_none, zero_add] at hgive
  rw [← hgive, add_left_comm] at htake
  exact add_left_cancel htake

end Lab1.Holders
