import Lab1.Library.Sweep
import Lab1.Pagaya.GameBoard
import Mathlib.Data.List.Pairwise
import Mathlib.Logic.Relation

/-!
# What a play floods

A play should colour the region of `[0][0]`: the squares that can be reached from there through
squares of its colour.  It goes through the board once, row by row, and colours a square for its
left neighbour, which has been passed, or for the one below, which has not (`processPlay_apply`);
for the one below it does so whatever the colour of the square itself is.

A square of the region would have to be coloured for the one below, this one again for the one below
it, and so on to the last row, where nothing is below.  So the play is right only if the region is
the square `[0][0]` alone, and no other square of this colour makes it colour anything
(`floodsRegion_iff`).
-/

namespace Lab1.Pagaya

variable {α : Type*}

/-! ### The property -/

def Valid (p : Position) : Prop := isValidPosition p.1 p.2 = true

/-- The squares share a side. -/
def Adjacent (p q : Position) : Prop :=
  (p.1 = q.1 ∧ (p.2 + 1 = q.2 ∨ q.2 + 1 = p.2)) ∨ (p.2 = q.2 ∧ (p.1 + 1 = q.1 ∨ q.1 + 1 = p.1))

/-- From `[0][0]` to the square there are steps through squares of its colour. -/
def Region (board : Board α) : Position → Prop :=
  Relation.ReflTransGen (fun p q => Adjacent p q ∧ Valid q ∧ board q = board (0, 0)) (0, 0)

/-- The play gives the region the chosen colour, and leaves the other squares as they are. -/
def FloodsRegion [DecidableEq α] (board : Board α) (colorChosen : α) : Prop :=
  ∀ p, Valid p → (Region board p → processPlay board colorChosen p = colorChosen) ∧
    (¬Region board p → processPlay board colorChosen p = board p)

/-- The squares of the colour of `[0][0]` do no harm: the chosen colour stands above each of them,
and unless it is their own colour, no two of them are side by side in a row. -/
structure Harmless (board : Board α) (colorChosen : α) : Prop where
  above : ∀ i j, Valid (i, j) → Valid (i + 1, j) → board (i + 1, j) = board (0, 0) →
    board (i, j) = colorChosen
  beside : colorChosen ≠ board (0, 0) → ∀ i j, Valid (i, j) → Valid (i, j + 1) →
    board (i, j) = board (0, 0) → board (i, j + 1) ≠ board (0, 0)

/-! ### The order of the positions -/

theorem valid_iff {i j : ℤ} : Valid (i, j) ↔ 0 ≤ i ∧ 0 ≤ j ∧ i < 18 ∧ j < 18 := by
  have hsize : (BOARD_SIZE : ℤ) = 18 := rfl
  simp only [Valid, isValidPosition, Bool.and_eq_true, decide_eq_true_eq, hsize]
  omega

/-- The loops come to `p` before `q`. -/
def Before (p q : Position) : Prop := p.1 < q.1 ∨ (p.1 = q.1 ∧ p.2 < q.2)

instance : DecidableRel Before := fun p q =>
  inferInstanceAs (Decidable (p.1 < q.1 ∨ (p.1 = q.1 ∧ p.2 < q.2)))

theorem before_asymm (p q : Position) (h : Before p q) : ¬Before q p := by
  unfold Before at *
  omega

theorem pairwise_positions : positions.Pairwise Before := by
  refine List.pairwise_flatMap.mpr ⟨fun i _ => ?_, ?_⟩
  · refine List.pairwise_map.mpr (List.pairwise_lt_range.imp fun hlt => ?_)
    exact Or.inr ⟨rfl, Int.ofNat_lt.mpr hlt⟩
  · refine List.pairwise_lt_range.imp fun hlt p hp q hq => ?_
    obtain ⟨_, _, rfl⟩ := List.mem_map.mp hp
    obtain ⟨_, _, rfl⟩ := List.mem_map.mp hq
    exact Or.inl (Int.ofNat_lt.mpr hlt)

theorem mem_positions {p : Position} (h : Valid p) : p ∈ positions := by
  obtain ⟨i, j⟩ := p
  obtain ⟨hi, hj, hi', hj'⟩ := valid_iff.mp h
  lift i to ℕ using hi
  lift j to ℕ using hj
  have hrow : rowLength i = 18 := if_pos (show i < 18 by omega)
  refine List.mem_flatMap.mpr ⟨i, List.mem_range.mpr (show i < 18 + 1 by omega), ?_⟩
  rw [hrow]
  exact List.mem_map.mpr ⟨j, List.mem_range.mpr (by omega), rfl⟩

/-! ### One play -/

/-- The board when the loops begin. -/
def started (board : Board α) (colorChosen : α) : Board α :=
  Function.update board (0, 0) colorChosen

section Start

variable {board : Board α} {colorChosen : α} {p : Position}

theorem started_of_ne (h : p ≠ (0, 0)) : started board colorChosen p = board p :=
  Function.update_of_ne h _ _

/-- Coloured or not at the start, a square that still has the old colour had it before. -/
theorem eq_of_started (h : started board colorChosen p = board (0, 0)) :
    board p = board (0, 0) := by
  by_cases hp : p = (0, 0)
  · rw [hp]
  · exact (started_of_ne hp).symm.trans h

end Start

section Play

variable [DecidableEq α] {board : Board α} {colorChosen : α}

/-- A play is a sweep. -/
theorem processPlay_eq_sweep : processPlay board colorChosen
    = sweep (fun b p => if shouldColorSquare b (board (0, 0)) p.1 p.2 then colorChosen else b p)
        positions (started board colorChosen) := by
  have hstep : colorSquare (board (0, 0)) colorChosen = fun b p => Function.update b p
      (if shouldColorSquare b (board (0, 0)) p.1 p.2 then colorChosen else b p) := by
    funext b p
    unfold colorSquare
    split_ifs
    · rfl
    · exact (Function.update_eq_self p b).symm
  rw [processPlay, hstep]
  rfl

/-- The square is coloured for its left neighbour. -/
def ForLeft (board : Board α) (colorChosen : α) (i j : ℤ) : Prop :=
  started board colorChosen (i, j) = board (0, 0) ∧ Valid (i, j - 1) ∧
    processPlay board colorChosen (i, j - 1) = board (0, 0)

/-- The square is coloured for the one below. -/
def ForBelow (board : Board α) (colorChosen : α) (i j : ℤ) : Prop :=
  Valid (i + 1, j) ∧ started board colorChosen (i + 1, j) = board (0, 0)

open Classical in
/-- **What a play makes of a square.** -/
theorem processPlay_apply {i j : ℤ} (h : Valid (i, j)) :
    processPlay board colorChosen (i, j)
      = if ForLeft board colorChosen i j ∨ ForBelow board colorChosen i j then colorChosen
        else started board colorChosen (i, j) := by
  set f : Board α → Position → α := fun b p =>
    if shouldColorSquare b (board (0, 0)) p.1 p.2 then colorChosen else b p with hf
  set mid := midway Before f positions (started board colorChosen) (i, j) with hmid
  have hself : mid (i, j) = started board colorChosen (i, j) :=
    midway_of_not fun hb => before_asymm _ _ hb hb
  have hbelow : mid (i + 1, j) = started board colorChosen (i + 1, j) := by
    refine midway_of_not ?_
    rintro (hlt | ⟨heq, _⟩)
    · exact absurd hlt (by omega)
    · exact absurd heq (by omega)
  have hleft : Valid (i, j - 1) → mid (i, j - 1) = processPlay board colorChosen (i, j - 1) := by
    intro hvalid
    rw [processPlay_eq_sweep]
    exact midway_of_before (mem_positions hvalid) (Or.inr ⟨rfl, by omega⟩)
  have hshould : shouldColorSquare mid (board (0, 0)) i j = true ↔
      ForLeft board colorChosen i j ∨ ForBelow board colorChosen i j := by
    simp only [shouldColorSquare, Bool.or_eq_true, Bool.and_eq_true, beq_iff_eq, hself, hbelow]
    refine or_congr (and_congr_right fun _ => and_congr_right fun hvalid => ?_) Iff.rfl
    rw [hleft hvalid]
  rw [processPlay_eq_sweep, sweep_apply before_asymm pairwise_positions (mem_positions h)]
  show (if shouldColorSquare mid (board (0, 0)) i j then colorChosen else mid (i, j)) = _
  rw [hself]
  exact if_congr hshould rfl rfl

theorem processPlay_of_left {i j : ℤ} (h : Valid (i, j)) (hl : ForLeft board colorChosen i j) :
    processPlay board colorChosen (i, j) = colorChosen := by
  rw [processPlay_apply h, if_pos (Or.inl hl)]

theorem processPlay_of_below {i j : ℤ} (h : Valid (i, j)) (hb : ForBelow board colorChosen i j) :
    processPlay board colorChosen (i, j) = colorChosen := by
  rw [processPlay_apply h, if_pos (Or.inr hb)]

/-- After the play a square has the chosen colour, or the one it had when the loops began. -/
theorem processPlay_eq_or (board : Board α) (colorChosen : α) {i j : ℤ} (h : Valid (i, j)) :
    processPlay board colorChosen (i, j) = colorChosen ∨
      processPlay board colorChosen (i, j) = started board colorChosen (i, j) := by
  rw [processPlay_apply h]
  split_ifs
  · exact Or.inl rfl
  · exact Or.inr rfl

/-- Only squares that had the old colour still have it after a play of another one. -/
theorem eq_of_processPlay {i j : ℤ} (h : Valid (i, j)) (hc : colorChosen ≠ board (0, 0))
    (hp : processPlay board colorChosen (i, j) = board (0, 0)) : board (i, j) = board (0, 0) := by
  rcases processPlay_eq_or board colorChosen h with hnew | hnew
  · exact absurd (hnew.symm.trans hp) hc
  · exact eq_of_started (hnew.symm.trans hp)

end Play

/-! ### The region -/

section Region

variable {board : Board α} {p q : Position}

theorem region_origin : Region board (0, 0) := Relation.ReflTransGen.refl

theorem valid_of_region (h : Region board p) : Valid p := by
  cases h with
  | refl => exact valid_iff.mpr (by omega)
  | tail _ hlast => exact hlast.2.1

theorem eq_of_region (h : Region board p) : board p = board (0, 0) := by
  cases h with
  | refl => rfl
  | tail _ hlast => exact hlast.2.2

/-- The region goes on to the neighbours of the same colour. -/
theorem region_of_adjacent (h : Region board p) (hadj : Adjacent p q) (hq : Valid q)
    (heq : board q = board (0, 0)) : Region board q := h.tail ⟨hadj, hq, heq⟩

theorem adjacent_below (i j : ℤ) : Adjacent (i, j) (i + 1, j) := Or.inr ⟨rfl, Or.inl rfl⟩

theorem adjacent_right (i j : ℤ) : Adjacent (i, j) (i, j + 1) := Or.inl ⟨rfl, Or.inl rfl⟩

theorem adjacent_left (i j : ℤ) : Adjacent (i, j) (i, j - 1) :=
  Or.inl ⟨rfl, Or.inr (Int.sub_add_cancel j 1)⟩

theorem Adjacent.symm (h : Adjacent p q) : Adjacent q p := by
  unfold Adjacent at *
  omega

end Region

/-! ### When the play is right, the region is one square -/

section Right

variable [DecidableEq α] {board : Board α} {colorChosen : α}

/-- A square of the region is never coloured for its left neighbour: that one would be of the region
too, and would have been coloured. -/
theorem not_forLeft_of_region (h : FloodsRegion board colorChosen)
    (hc : colorChosen ≠ board (0, 0)) {i j : ℤ} (hr : Region board (i, j)) :
    ¬ForLeft board colorChosen i j := by
  rintro ⟨_, hvalid, hleft⟩
  have hmem : Region board (i, j - 1) :=
    region_of_adjacent hr (adjacent_left i j) hvalid (eq_of_processPlay hvalid hc hleft)
  exact hc (((h _ hvalid).1 hmem).symm.trans hleft)

/-- So it is coloured for the one below, which is of the region again. -/
theorem region_below (h : FloodsRegion board colorChosen) (hc : colorChosen ≠ board (0, 0))
    {i j : ℤ} (hr : Region board (i, j)) (hne : (i, j) ≠ (0, 0)) : Region board (i + 1, j) := by
  have hvalid : Valid (i, j) := valid_of_region hr
  have hnew : processPlay board colorChosen (i, j) = colorChosen := (h _ hvalid).1 hr
  -- what has been coloured, and not for the left, has been coloured for below
  by_cases hb : ForBelow board colorChosen i j
  · exact region_of_adjacent hr (adjacent_below i j) hb.1 (eq_of_started hb.2)
  · rw [processPlay_apply hvalid, if_neg (not_or.mpr ⟨not_forLeft_of_region h hc hr, hb⟩),
      started_of_ne hne, eq_of_region hr] at hnew
    exact absurd hnew.symm hc

/-- And so on, until there is nothing below. -/
theorem region_eq_origin (h : FloodsRegion board colorChosen) (hc : colorChosen ≠ board (0, 0))
    {i j : ℤ} (hr : Region board (i, j)) : (i, j) = (0, 0) := by
  -- by induction on the number of rows that are left
  obtain ⟨n, hn⟩ := Int.le.dest (Int.le_of_lt (valid_iff.mp (valid_of_region hr)).2.2.1)
  induction n generalizing i with
  | zero =>
    have hlast := valid_iff.mp (valid_of_region hr)
    omega
  | succ n ih =>
    by_contra hne
    have hbelow : (i + 1, j) = ((0 : ℤ), (0 : ℤ)) :=
      ih (region_below h hc hr hne) (by push_cast at hn ⊢; omega)
    have hfirst := valid_iff.mp (valid_of_region hr)
    have hrow : i + 1 = 0 := congrArg Prod.fst hbelow
    omega

theorem above_of_floodsRegion (h : FloodsRegion board colorChosen) {i j : ℤ} (hv : Valid (i, j))
    (hv' : Valid (i + 1, j)) (heq : board (i + 1, j) = board (0, 0)) :
    board (i, j) = colorChosen := by
  have hrow : i + 1 ≠ 0 := by have := valid_iff.mp hv; omega
  have hne : (i + 1, j) ≠ ((0 : ℤ), (0 : ℤ)) := fun he => hrow (congrArg Prod.fst he)
  have hnew : processPlay board colorChosen (i, j) = colorChosen :=
    processPlay_of_below hv ⟨hv', (started_of_ne hne).trans heq⟩
  by_cases hr : Region board (i, j)
  · by_cases hc : colorChosen = board (0, 0)
    · rw [eq_of_region hr, hc]
    · have hbelow : Region board (i + 1, j) := region_of_adjacent hr (adjacent_below i j) hv' heq
      exact absurd (region_eq_origin h hc hbelow) hne
  · -- outside of the region it keeps its colour, so it had this one before
    rw [← (h _ hv).2 hr, hnew]

theorem beside_of_floodsRegion (h : FloodsRegion board colorChosen)
    (hc : colorChosen ≠ board (0, 0)) {i j : ℤ} (hv : Valid (i, j)) (hv' : Valid (i, j + 1))
    (heq : board (i, j) = board (0, 0)) : board (i, j + 1) ≠ board (0, 0) := by
  intro heq'
  have hcol : j + 1 ≠ 0 := by have := valid_iff.mp hv; omega
  have hne : (i, j + 1) ≠ ((0 : ℤ), (0 : ℤ)) := fun he => hcol (congrArg Prod.snd he)
  -- none of the two is of the region, and so the play leaves both
  have hr' : ¬Region board (i, j + 1) := fun hr => hne (region_eq_origin h hc hr)
  have hr : ¬Region board (i, j) := fun hr =>
    hr' (region_of_adjacent hr (adjacent_right i j) hv' heq')
  have hleft : ForLeft board colorChosen i (j + 1) := by
    refine ⟨(started_of_ne hne).trans heq', ?_⟩
    rw [Int.add_sub_cancel]
    exact ⟨hv, ((h _ hv).2 hr).trans heq⟩
  have hnew : processPlay board colorChosen (i, j + 1) = colorChosen :=
    processPlay_of_left hv' hleft
  exact hc (hnew.symm.trans (((h _ hv').2 hr').trans heq'))

theorem harmless_of_floodsRegion (h : FloodsRegion board colorChosen) :
    Harmless board colorChosen where
  above _ _ hv hv' heq := above_of_floodsRegion h hv hv' heq
  beside hc _ _ hv hv' heq := beside_of_floodsRegion h hc hv hv' heq

end Right

/-! ### When the squares do no harm -/

section Harmless

variable {board : Board α} {colorChosen : α}

theorem Harmless.region_eq_origin (h : Harmless board colorChosen)
    (hc : colorChosen ≠ board (0, 0)) {p : Position} (hr : Region board p) : p = (0, 0) := by
  have horigin : Valid (0, 0) := valid_iff.mpr (by omega)
  induction hr with
  | refl => rfl
  | @tail _ q _ hlast ih =>
    subst ih
    obtain ⟨hadj, hvalid, heq⟩ := hlast
    obtain ⟨i, j⟩ := q
    have hpos := valid_iff.mp hvalid
    -- the neighbours of the corner are the one to the right and the one below
    rcases hadj with ⟨hi, hj⟩ | ⟨hj, hi⟩
    · obtain rfl : i = 0 := hi.symm
      obtain rfl : j = 0 + 1 := by omega
      exact absurd heq (h.beside hc 0 0 horigin hvalid rfl)
    · obtain rfl : j = 0 := hj.symm
      obtain rfl : i = 0 + 1 := by omega
      exact absurd (h.above 0 0 horigin hvalid heq).symm hc

/-- A square that is coloured for the one below had the chosen colour already. -/
theorem Harmless.eq_of_forBelow (h : Harmless board colorChosen) {i j : ℤ} (hv : Valid (i, j))
    (hb : ForBelow board colorChosen i j) : board (i, j) = colorChosen :=
  h.above i j hv hb.1 (eq_of_started hb.2)

variable [DecidableEq α]

/-- No square is coloured for its left neighbour. -/
theorem Harmless.not_forLeft (h : Harmless board colorChosen) (hc : colorChosen ≠ board (0, 0))
    {i j : ℤ} (hv : Valid (i, j)) : ¬ForLeft board colorChosen i j := by
  rintro ⟨hself, hvalid, hleft⟩
  have hbeside := h.beside hc i (j - 1) hvalid
  rw [Int.sub_add_cancel] at hbeside
  exact hbeside hv (eq_of_processPlay hvalid hc hleft) (eq_of_started hself)

/-- Another colour: the play changes `[0][0]` only. -/
theorem Harmless.floodsRegion_of_ne (h : Harmless board colorChosen)
    (hc : colorChosen ≠ board (0, 0)) : FloodsRegion board colorChosen := by
  rintro ⟨i, j⟩ hv
  constructor
  · intro hr
    rcases processPlay_eq_or board colorChosen hv with hnew | hnew
    · exact hnew
    · rw [hnew, h.region_eq_origin hc hr]
      exact Function.update_self _ _ _
  · intro hr
    have hne : (i, j) ≠ (0, 0) := fun he => hr (he ▸ region_origin)
    rw [processPlay_apply hv]
    split_ifs with hcase
    · exact (h.eq_of_forBelow hv (hcase.resolve_left (h.not_forLeft hc hv))).symm
    · exact started_of_ne hne

/-- The same colour: the play changes nothing. -/
theorem Harmless.floodsRegion_of_eq (h : Harmless board colorChosen)
    (hc : colorChosen = board (0, 0)) : FloodsRegion board colorChosen := by
  have hstart : started board colorChosen = board := by
    rw [started, hc, Function.update_eq_self]
  rintro ⟨i, j⟩ hv
  have hsame : processPlay board colorChosen (i, j) = board (i, j) := by
    rw [processPlay_apply hv, hstart]
    split_ifs with hcase
    · rcases hcase with ⟨hself, _⟩ | hb
      · rw [hstart] at hself
        rw [hself, hc]
      · exact (h.eq_of_forBelow hv hb).symm
    · rfl
  exact ⟨fun hr => by rw [hsame, eq_of_region hr, hc], fun _ => hsame⟩

end Harmless

/-- **A play floods the region of `[0][0]` exactly when the squares of its colour do no harm.** -/
theorem floodsRegion_iff [DecidableEq α] (board : Board α) (colorChosen : α) :
    FloodsRegion board colorChosen ↔ Harmless board colorChosen := by
  refine ⟨harmless_of_floodsRegion, fun h => ?_⟩
  by_cases hc : colorChosen = board (0, 0)
  · exact h.floodsRegion_of_eq hc
  · exact h.floodsRegion_of_ne hc

/-- Two squares of one colour side by side: the second is of the region, and the play leaves it. -/
def twoBeside : Board ℕ := fun p => if p = (0, 0) ∨ p = (0, 1) then 114 else 103

theorem not_floodsRegion_twoBeside : ¬FloodsRegion twoBeside 98 := by
  intro h
  have hv : Valid (0, 1) := rfl
  have hr : Region twoBeside (0, 1) :=
    region_of_adjacent region_origin (adjacent_right 0 0) hv rfl
  have hleft := not_forLeft_of_region h (by decide) hr
  have hbelow : ¬ForBelow twoBeside 98 0 1 := fun hb => absurd hb.2 (by decide)
  have hnew : processPlay twoBeside 98 (0, 1) = 98 := (h _ hv).1 hr
  rw [processPlay_apply hv, if_neg (not_or.mpr ⟨hleft, hbelow⟩)] at hnew
  exact absurd hnew (by decide)

end Lab1.Pagaya
