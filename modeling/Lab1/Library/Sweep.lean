import Mathlib.Data.List.Pairwise
import Mathlib.Logic.Function.Basic

/-!
# Sweeps

A sweep goes through the places of a table once and sets each of them to something that it computes
from the table as it is at the moment: the places passed have their new values, and the others still
have their old ones.  When the places come in an order `r`, the table in front of the place `p` is
`midway`, and the new value is what is computed from that (`sweep_apply`).
-/

namespace Lab1

variable {κ α : Type*} [DecidableEq κ]

/-- Set the places, one after the other, to what `f` computes. -/
def sweep (f : (κ → α) → κ → α) (ps : List κ) (b : κ → α) : κ → α :=
  ps.foldl (fun b p => Function.update b p (f b p)) b

variable {f : (κ → α) → κ → α} {ps pre post : List κ} {b : κ → α} {p q : κ}

theorem sweep_append : sweep f (pre ++ post) b = sweep f post (sweep f pre b) := List.foldl_append

/-- The other places stay as they are. -/
theorem sweep_of_notMem (h : q ∉ ps) : sweep f ps b q = b q := by
  induction ps generalizing b with
  | nil => rfl
  | cons p ps ih =>
    obtain ⟨hne, hps⟩ := not_or.mp (List.mem_cons.not.mp h)
    exact (ih hps).trans (Function.update_of_ne hne _ _)

variable (r : κ → κ → Prop) [DecidableRel r]

/-- New values at the places that come before `p`. -/
def midway (f : (κ → α) → κ → α) (ps : List κ) (b : κ → α) (p : κ) : κ → α :=
  fun q => if q ∈ ps ∧ r q p then sweep f ps b q else b q

variable {r}

theorem midway_of_before (hq : q ∈ ps) (h : r q p) : midway r f ps b p q = sweep f ps b q :=
  if_pos ⟨hq, h⟩

theorem midway_of_not (h : ¬r q p) : midway r f ps b p q = b q := if_neg fun hq => h hq.2

/-- **What a sweep makes of a place.** -/
theorem sweep_apply (hasymm : ∀ x y, r x y → ¬r y x) (hps : ps.Pairwise r) (hp : p ∈ ps) :
    sweep f ps b p = f (midway r f ps b p) p := by
  obtain ⟨pre, post, rfl⟩ := List.append_of_mem hp
  obtain ⟨_, hpost, hcross⟩ := List.pairwise_append.mp hps
  have hafter : ∀ q ∈ post, r p q := fun q hq => List.rel_of_pairwise_cons hpost hq
  have hirrefl : ∀ x, ¬r x x := fun x hx => hasymm x x hx hx
  have hnot : p ∉ post := fun hmem => hirrefl p (hafter p hmem)
  -- the table when the sweep comes to the place
  have hmid : sweep f pre b = midway r f (pre ++ p :: post) b p := by
    funext q
    by_cases hq : q ∈ pre
    · have hqp : r q p := hcross q hq p List.mem_cons_self
      have hlater : q ∉ p :: post := fun hmem => hirrefl q (hcross q hq q hmem)
      rw [midway_of_before (List.mem_append_left _ hq) hqp, sweep_append, sweep_of_notMem hlater]
    · rw [sweep_of_notMem hq, midway, if_neg]
      rintro ⟨hmem, hqp⟩
      rcases List.mem_cons.mp ((List.mem_append.mp hmem).resolve_left hq) with rfl | hmem
      · exact hirrefl q hqp
      · exact hasymm p q (hafter q hmem) hqp
  rw [← hmid, sweep_append]
  show sweep f post (Function.update (sweep f pre b) p (f (sweep f pre b) p)) p = _
  rw [sweep_of_notMem hnot, Function.update_self]

end Lab1
