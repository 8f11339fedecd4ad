import Mathlib.Algebra.BigOperators.Group.List.Basic
import Mathlib.Algebra.GroupWithZero.Nat
import Mathlib.Data.List.Infix

/-!
# Scans with a counter that is carried over

A search goes through a list and counts, for each element, how many of `n` tests it passes; an
element that passes all of them is taken.  `scan` is such a search with a slip: the counter is set
back to zero only when an element is taken, so that the passes of elements which are not taken count
for later ones.

`scan_eq_filter_iff` says when the slip does no harm: no run of consecutive elements, none of which
passes all tests, passes `n` tests together.
-/

namespace Lab1.Carry

variable {α : Type*} (n : ℕ) (f : α → ℕ)

/-- The elements taken, when `c` passes are counted already; `f` gives the passes of an element. -/
def scan : ℕ → List α → List α
  | _, [] => []
  | c, x :: xs => if n ≤ c + f x then x :: scan 0 xs else scan (c + f x) xs

/-- The elements that pass all tests. -/
def passing (xs : List α) : List α := xs.filter fun x => decide (n ≤ f x)

variable {n f}

theorem scan_cons_of_le {c : ℕ} {x : α} (xs : List α) (h : n ≤ c + f x) :
    scan n f c (x :: xs) = x :: scan n f 0 xs := if_pos h

theorem scan_cons_of_lt {c : ℕ} {x : α} (xs : List α) (h : c + f x < n) :
    scan n f c (x :: xs) = scan n f (c + f x) xs := if_neg (by omega)

theorem passing_cons_of_le {x : α} (xs : List α) (h : n ≤ f x) :
    passing n f (x :: xs) = x :: passing n f xs := by
  simp [passing, h]

theorem passing_cons_of_lt {x : α} (xs : List α) (h : f x < n) :
    passing n f (x :: xs) = passing n f xs := by
  simp [passing, h]

theorem mem_passing {x : α} {xs : List α} : x ∈ passing n f xs ↔ x ∈ xs ∧ n ≤ f x := by
  simp [passing]

theorem passing_append (xs ys : List α) :
    passing n f (xs ++ ys) = passing n f xs ++ passing n f ys := by
  simp [passing]

theorem passing_eq_nil_iff {xs : List α} : passing n f xs = [] ↔ ∀ x ∈ xs, f x < n := by
  simp [passing, List.filter_eq_nil_iff]

/-- What passes all tests is taken, whatever was counted before. -/
theorem passing_sublist_scan (c : ℕ) (xs : List α) :
    (passing n f xs).Sublist (scan n f c xs) := by
  induction xs generalizing c with
  | nil => simp [passing, scan]
  | cons x xs ih =>
    by_cases hx : n ≤ f x
    · rw [passing_cons_of_le xs hx, scan_cons_of_le xs (by omega)]
      exact (ih 0).cons_cons x
    · rw [passing_cons_of_lt xs (by omega)]
      by_cases hc : n ≤ c + f x
      · rw [scan_cons_of_le xs hc]
        exact (ih 0).cons x
      · rw [scan_cons_of_lt xs (by omega)]
        exact ih _

/-- A run of consecutive elements that do not pass all tests. -/
def Failing (n : ℕ) (f : α → ℕ) (mid : List α) : Prop := ∀ x ∈ mid, f x < n

/-- No failing run passes `n` tests together. -/
def Quiet (n : ℕ) (f : α → ℕ) (xs : List α) : Prop :=
  ∀ mid, mid <:+: xs → Failing n f mid → (mid.map f).sum < n

/-- With a single test, no pass is ever left over. -/
theorem quiet_one (f : α → ℕ) (xs : List α) : Quiet 1 f xs := by
  intro mid _ hfail
  have hzero : (mid.map f).sum = 0 := by
    refine List.sum_eq_zero fun y hy => ?_
    obtain ⟨x, hx, rfl⟩ := List.mem_map.mp hy
    have hlt := hfail x hx
    omega
  omega

theorem Quiet.congr {f' : α → ℕ} {xs : List α} (h : Quiet n f xs) (heq : ∀ x ∈ xs, f x = f' x) :
    Quiet n f' xs := by
  intro mid hmid hfail
  have hmap : mid.map f = mid.map f' :=
    List.map_congr_left fun x hx => heq x (hmid.subset hx)
  rw [← hmap]
  refine h mid hmid fun x hx => ?_
  rw [heq x (hmid.subset hx)]
  exact hfail x hx

theorem Quiet.map {β : Type*} {g : β → α} {ys : List β} (h : Quiet n (fun y => f (g y)) ys) :
    Quiet n f (ys.map g) := by
  intro mid hmid hfail
  obtain ⟨ys', hys', rfl⟩ := List.infix_map_iff.mp hmid
  rw [List.map_map]
  exact h ys' hys' fun y hy => hfail (g y) (List.mem_map_of_mem hy)

/-- The same for the failing runs at the start, with `c` passes counted before. -/
def QuietStart (n : ℕ) (f : α → ℕ) (c : ℕ) (xs : List α) : Prop :=
  ∀ mid, mid <+: xs → Failing n f mid → c + (mid.map f).sum < n

theorem Quiet.start {xs : List α} (h : Quiet n f xs) : QuietStart n f 0 xs := by
  intro mid hmid hfail
  rw [Nat.zero_add]
  exact h mid hmid.isInfix hfail

theorem quiet_cons {x : α} {xs : List α} :
    Quiet n f (x :: xs) ↔ QuietStart n f 0 (x :: xs) ∧ Quiet n f xs := by
  constructor
  · exact fun h => ⟨h.start, fun mid hmid => h mid (hmid.trans (List.suffix_cons x xs).isInfix)⟩
  · rintro ⟨hstart, hxs⟩ mid hmid hfail
    rcases List.infix_cons_iff.mp hmid with hpre | hinf
    · have hlt := hstart mid hpre hfail
      omega
    · exact hxs mid hinf hfail

theorem quietStart_cons_of_le {c : ℕ} {x : α} {xs : List α} (hc : c < n) (hx : n ≤ f x) :
    QuietStart n f c (x :: xs) := by
  intro mid hmid hfail
  rcases List.prefix_cons_iff.mp hmid with rfl | ⟨t, rfl, _⟩
  · simpa using hc
  · have hlt := hfail x List.mem_cons_self
    omega

theorem quietStart_cons_of_lt {c : ℕ} {x : α} {xs : List α} (hx : f x < n) :
    QuietStart n f c (x :: xs) ↔ c < n ∧ QuietStart n f (c + f x) xs := by
  constructor
  · intro h
    have hnil := h [] List.nil_prefix fun y hy => absurd hy List.not_mem_nil
    refine ⟨by simpa using hnil, fun mid hmid hfail => ?_⟩
    have hlt := h (x :: mid) (List.cons_prefix_cons.mpr ⟨rfl, hmid⟩)
      (List.forall_mem_cons.mpr ⟨hx, hfail⟩)
    rw [List.map_cons, List.sum_cons] at hlt
    omega
  · rintro ⟨hc, h⟩ mid hmid hfail
    rcases List.prefix_cons_iff.mp hmid with rfl | ⟨t, rfl, ht⟩
    · simpa using hc
    · have hlt := h t ht fun y hy => hfail y (List.mem_cons_of_mem _ hy)
      rw [List.map_cons, List.sum_cons]
      omega

/-- A failing start is part of a longer one, so it counts less with less before it. -/
theorem QuietStart.mono {b c : ℕ} {xs : List α} (h : QuietStart n f c xs) (hbc : b ≤ c) :
    QuietStart n f b xs := by
  intro mid hmid hfail
  have hlt := h mid hmid hfail
  omega

private theorem scan_eq_passing_iff_aux {c : ℕ} (hc : c < n) {xs : List α} :
    scan n f c xs = passing n f xs ↔ QuietStart n f c xs ∧ Quiet n f xs := by
  induction xs generalizing c with
  | nil =>
    refine iff_of_true rfl ⟨fun mid hmid _ => ?_, fun mid hmid _ => ?_⟩
    · simpa [List.prefix_nil.mp hmid] using hc
    · simp [List.infix_nil.mp hmid]
      omega
  | cons x xs ih =>
    rw [quiet_cons]
    by_cases hx : n ≤ f x
    · -- the element passes all tests, and the counter starts again
      rw [scan_cons_of_le xs (by omega), passing_cons_of_le xs hx, List.cons_inj_right,
        ih (by omega)]
      refine ⟨fun h => ⟨quietStart_cons_of_le hc hx, quietStart_cons_of_le (by omega) hx, h.2⟩,
        fun h => ⟨h.2.2.start, h.2.2⟩⟩
    · have hlt : f x < n := by omega
      rw [passing_cons_of_lt xs hlt, quietStart_cons_of_lt hlt, quietStart_cons_of_lt hlt]
      by_cases hcx : n ≤ c + f x
      · -- the element is taken, though it does not pass all tests
        rw [scan_cons_of_le xs hcx]
        refine iff_of_false (fun heq => ?_) fun h => ?_
        · have hmem : x ∈ passing n f xs := heq ▸ List.mem_cons_self
          exact hx (mem_passing.mp hmem).2
        · have hnil := h.1.2 [] List.nil_prefix fun y hy => absurd hy List.not_mem_nil
          simp at hnil
          omega
      · rw [scan_cons_of_lt xs (by omega), ih (by omega)]
        refine ⟨fun h => ⟨⟨hc, h.1⟩, ⟨by omega, h.1.mono (by omega)⟩, h.2⟩, fun h => ⟨h.1.2, h.2.2⟩⟩

/-- **When the carried counter does no harm.** -/
theorem scan_eq_passing_iff (hn : 0 < n) {xs : List α} :
    scan n f 0 xs = passing n f xs ↔ Quiet n f xs := by
  rw [scan_eq_passing_iff_aux hn]
  exact ⟨fun h => h.2, fun h => ⟨h.start, h⟩⟩

/-- When only the elements before `ys` should be taken. -/
theorem scan_append_eq_passing_iff (hn : 0 < n) {xs ys : List α} :
    scan n f 0 (xs ++ ys) = passing n f xs ↔ Quiet n f (xs ++ ys) ∧ Failing n f ys := by
  rw [← scan_eq_passing_iff hn, passing_append, Failing, ← passing_eq_nil_iff]
  constructor
  · intro h
    have hsub := passing_sublist_scan (n := n) (f := f) 0 (xs ++ ys)
    rw [h, passing_append] at hsub
    have hlen := hsub.length_le
    rw [List.length_append] at hlen
    have hnil : passing n f ys = [] := List.eq_nil_of_length_eq_zero (by omega)
    rw [h, hnil, List.append_nil]
    exact ⟨rfl, rfl⟩
  · rintro ⟨heq, hnil⟩
    rw [heq, hnil, List.append_nil]

end Lab1.Carry
