import Mathlib.Algebra.GroupWithZero.Nat
import Mathlib.Data.List.Pairwise
import Mathlib.Order.Interval.Finset.Nat
import Mathlib.Order.Interval.Set.Disjoint

/-!
# Regions of memory

A region is a range of offsets, with a start and a length; its offsets are a `Finset.Ico`.  An
empty region is disjoint from every other.  Pairwise disjoint regions inside an interval are
together no longer than the interval (`sum_len_le`).
-/

namespace Lab1

/-- `len` bytes from `start` on. -/
structure Region where
  start : ℕ
  len : ℕ
  deriving DecidableEq, Repr

namespace Region

/-- The offsets of the region. -/
def offsets (r : Region) : Finset ℕ := Finset.Ico r.start (r.start + r.len)

/-- The regions have no byte in common. -/
def Apart (r s : Region) : Prop := Disjoint r.offsets s.offsets

@[simp] theorem card_offsets (r : Region) : r.offsets.card = r.len := by
  rw [offsets, Nat.card_Ico, Nat.add_sub_cancel_left]

theorem apart_iff {r s : Region} :
    r.Apart s ↔ r.len = 0 ∨ s.len = 0 ∨ r.start + r.len ≤ s.start ∨ s.start + s.len ≤ r.start := by
  rw [Apart, offsets, offsets, ← Finset.disjoint_coe, Finset.coe_Ico, Finset.coe_Ico,
    Set.Ico_disjoint_Ico]
  omega

theorem offsets_subset_iff {r : Region} {lo hi : ℕ} :
    r.offsets ⊆ Finset.Ico lo hi ↔ r.len = 0 ∨ (lo ≤ r.start ∧ r.start + r.len ≤ hi) := by
  rw [offsets, ← Finset.coe_subset, Finset.coe_Ico, Finset.coe_Ico]
  rcases Nat.eq_zero_or_pos r.len with hzero | hpos
  · rw [hzero, Nat.add_zero, Set.Ico_self]
    simp
  · rw [Set.Ico_subset_Ico_iff (by omega)]
    omega

/-- The offsets that a list of regions covers. -/
def cover (rs : List Region) : Finset ℕ := rs.foldr (fun r acc => r.offsets ∪ acc) ∅

theorem disjoint_cover {r : Region} {rs : List Region} (h : ∀ s ∈ rs, r.Apart s) :
    Disjoint r.offsets (cover rs) := by
  induction rs with
  | nil => exact Finset.disjoint_empty_right _
  | cons s rs ih =>
    rw [cover, List.foldr_cons, Finset.disjoint_union_right]
    exact ⟨h s (List.mem_cons_self ..), ih fun s' hs' => h s' (List.mem_cons_of_mem _ hs')⟩

/-- Regions that are pairwise apart cover as many offsets as they have bytes. -/
theorem card_cover {rs : List Region} (h : rs.Pairwise Apart) :
    (cover rs).card = (rs.map Region.len).sum := by
  induction rs with
  | nil => rfl
  | cons r rs ih =>
    obtain ⟨hr, hrs⟩ := List.pairwise_cons.mp h
    have hunion : cover (r :: rs) = r.offsets ∪ cover rs := rfl
    rw [hunion, Finset.card_union_of_disjoint (disjoint_cover hr), card_offsets, ih hrs,
      List.map_cons, List.sum_cons]

theorem cover_subset {rs : List Region} {t : Finset ℕ} (h : ∀ r ∈ rs, r.offsets ⊆ t) :
    cover rs ⊆ t := by
  induction rs with
  | nil => exact Finset.empty_subset t
  | cons r rs ih =>
    exact Finset.union_subset (h r (List.mem_cons_self ..))
      (ih fun r' hr' => h r' (List.mem_cons_of_mem _ hr'))

/-- Disjoint regions inside an interval fit into it. -/
theorem sum_len_le {rs : List Region} {lo hi : ℕ} (h : rs.Pairwise Apart)
    (hin : ∀ r ∈ rs, r.offsets ⊆ Finset.Ico lo hi) : (rs.map Region.len).sum ≤ hi - lo := by
  have hle := Finset.card_le_card (cover_subset hin)
  rwa [card_cover h, Nat.card_Ico] at hle

end Region

end Lab1
