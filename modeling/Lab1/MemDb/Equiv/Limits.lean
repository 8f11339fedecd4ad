import Lab1.MemDb.Equiv.Delete

/-!
# The limits of a search

A search keeps to five limits: the column of a condition exists, no more of a compare value is
compared than there is, the rows that match fit the result buffer in number and in size, and a bit
of the 32-bit map is found by shifting a one by less than 32.  `findEntry` faults at the first
four.  The fifth is checked here in addition (`findLoopChecked`): `is_on` is called with every
object number up to `MAX_BIT - 1`, which is 48.

A search that keeps to all of them is one that returns and whose shifts are fine
(`findStaysInside_iff`); `not_findStaysInside` says that there is none.
-/

namespace Lab1.MemDb

open ArrayLayout

/-! ### The property -/

/-- `is_on` with its shift checked. -/
def BitMap.isOnChecked (b : BitMap) (bitNum : UInt32) : Except Fault Bool := do
  require .outOfBounds ((bitNum - 1).toNat < 32)
  b.isOn bitNum

/-- The loop of `findEntry`, with its shifts checked. -/
def ArrayLayout.findLoopChecked (l : ArrayLayout) (comp : Comparable) :
    List ℕ → ℕ → List Result → Except Fault (List Result)
  | [], _, res => .ok res
  | objIndx :: rest, matchesFound, res => do
    let on ← l.bitMap.isOnChecked (UInt32.ofNat objIndx)
    if on then
      let vpdata := u32 (objIndx * l.totTypSz)
      let (found, matchesFound) ← compareRow l.data vpdata comp.sz comp.conds matchesFound
      if found then
        require .outOfBounds (res.length < maxObjNum ∧ l.totTypSz ≤ bufferCap)
        findLoopChecked l comp rest matchesFound (res ++ [⟨l.data.read vpdata l.totTypSz, objIndx⟩])
      else findLoopChecked l comp rest matchesFound res
    else findLoopChecked l comp rest matchesFound res

/-- `findEntry`, with its shifts checked. -/
def ArrayLayout.findEntryChecked (l : ArrayLayout) (comp : Comparable) :
    Except Fault (List Result) := do
  require .assertFailed (0 < l.stack.getSz)
  findLoopChecked l comp objIndices 0 []

/-- The search keeps to all limits. -/
def FindStaysInside (l : ArrayLayout) (comp : Comparable) : Prop :=
  ∃ res, l.findEntryChecked comp = .ok res

/-! ### The shifts -/

theorem BitMap.isOnChecked_of_lt (b : BitMap) {bitNum : UInt32} (h : (bitNum - 1).toNat < 32) :
    b.isOnChecked bitNum = b.isOn bitNum := by
  rw [isOnChecked, require_true h, ok_bind]

/-- Where the shifts are fine, checking them makes no difference. -/
theorem findLoopChecked_of_lt {l : ArrayLayout} {comp : Comparable} {idxs : List ℕ}
    (hidxs : ∀ o ∈ idxs, (UInt32.ofNat o - 1).toNat < 32) (mf : ℕ) (res : List Result) :
    findLoopChecked l comp idxs mf res = findLoop l comp idxs mf res := by
  induction idxs generalizing mf res with
  | nil => rfl
  | cons o idxs ih =>
    rw [List.forall_mem_cons] at hidxs
    rw [findLoopChecked, findLoop, BitMap.isOnChecked_of_lt _ hidxs.1]
    simp only [ih hidxs.2]

theorem shifts_of_findLoopChecked {l : ArrayLayout} {comp : Comparable} {idxs : List ℕ} {mf : ℕ}
    {res res' : List Result} (h : findLoopChecked l comp idxs mf res = .ok res') :
    ∀ o ∈ idxs, (UInt32.ofNat o - 1).toNat < 32 := by
  induction idxs generalizing mf res with
  | nil => exact fun o ho => absurd ho List.not_mem_nil
  | cons o idxs ih =>
    obtain ⟨on, hon, h⟩ := bind_eq_ok.mp h
    obtain ⟨_, hshift, _⟩ := bind_eq_ok.mp hon
    refine List.forall_mem_cons.mpr ⟨require_eq_ok.mp hshift, ?_⟩
    -- whether or not there is a row, the loop goes on
    split_ifs at h
    · obtain ⟨⟨found, mf'⟩, _, h⟩ := bind_eq_ok.mp h
      cases found with
      | true =>
        obtain ⟨_, _, h⟩ := bind_eq_ok.mp h
        exact ih h
      | false => exact ih h
    · exact ih h

/-- A search that keeps to the limits is one whose shifts are fine and which returns. -/
theorem findStaysInside_iff (l : ArrayLayout) (comp : Comparable) :
    FindStaysInside l comp ↔
      (∀ o ∈ objIndices, (UInt32.ofNat o - 1).toNat < 32) ∧ ∃ res, l.findEntry comp = .ok res := by
  constructor
  · rintro ⟨res, h⟩
    obtain ⟨_, hsz, h⟩ := bind_eq_ok.mp h
    have hshifts := shifts_of_findLoopChecked h
    rw [findLoopChecked_of_lt hshifts] at h
    exact ⟨hshifts, res, findEntry_eq_ok.mpr ⟨require_eq_ok.mp hsz, h⟩⟩
  · rintro ⟨hshifts, res, h⟩
    obtain ⟨hsz, h⟩ := findEntry_eq_ok.mp h
    refine ⟨res, ?_⟩
    rw [findEntryChecked, require_true hsz, ok_bind, findLoopChecked_of_lt hshifts]
    exact h

/-! ### All limits -/

/-- The number `33` is an object number for `findEntry`, and shifts a one by `32`. -/
theorem exists_wide_shift : ∃ o ∈ objIndices, ¬(UInt32.ofNat o - 1).toNat < 32 :=
  ⟨33, by decide, by decide⟩

/-- **No search keeps to all limits.** -/
theorem not_findStaysInside (l : ArrayLayout) (comp : Comparable) : ¬FindStaysInside l comp := by
  intro h
  obtain ⟨o, ho, hwide⟩ := exists_wide_shift
  exact hwide (((findStaysInside_iff l comp).mp h).1 o ho)

/-- A search for a zero in a layout with one row of zeros, which returns. -/
theorem not_findStaysInside_zero_row : ∃ alloc' l₀ l outs,
    ArrayLayout.new freshAlloc zeroChunk (twoInts 0 4) 4096 = .ok (alloc', l₀) ∧
      exec ArrayLayout.step l₀ (List.replicate 1 (.addEntry fun _ => 0)) = .ok (l, outs) ∧
      ¬FindStaysInside l ⟨[intCond 0 fun _ => 0]⟩ := by
  obtain ⟨alloc', l₀, l, outs, hnew, hrun, _⟩ := exists_zero_rows (n := 0) (by decide)
  refine ⟨alloc', l₀, l, outs, hnew, hrun, fun h => ?_⟩
  obtain ⟨o, ho, hwide⟩ := exists_wide_shift
  exact hwide (((findStaysInside_iff _ _).mp h).1 o ho)

end Lab1.MemDb
