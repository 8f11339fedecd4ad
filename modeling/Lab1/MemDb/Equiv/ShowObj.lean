import Lab1.Library.Walk
import Lab1.MemDb.Queries
import Lab1.MemDb.Equiv.Layouts
import Lab1.MemDb.Equiv.TupleLoops

/-!
# Showing rows

`showObj` goes through a row with a pointer that it moves on behind each value, except behind a
`VCR` (`showObj_getElem?`).  The row that `addEntry` packs has a `VCR` of four bytes there, so every
column behind it is shown from the wrong bytes.

`decodesRows_iff` says for which headers no row suffers from this.
-/

namespace Lab1.MemDb

/-! ### The property -/

/-- The size that `getTypSzByStr` gives a column. -/
def shownSz (tgt : Target) (t : ColTyp) : ℕ := if t = .VCR then 4 else gTypeRef tgt t

/-- The value of type `t` in the bytes at offset `a`. -/
def shownAt (tgt : Target) (t : ColTyp) (m : Mem) (a : ℕ) : Shown :=
  match t with
  | .INT | .LONG | .LLONG => .integer (signedAt m a (shownSz tgt t))
  | .FLOAT | .DOUBLE => .floating (m.number a (shownSz tgt t))
  | .VCR => .text (textAt m a (shownSz tgt t))

/-- Of every row, `showObj` prints for each column the value in the bytes behind the columns before
it. -/
def DecodesRows (tgt : Target) (head : LayoutHeader) : Prop :=
  ∀ row : Mem, ∀ i < head.sz,
    (showObj tgt head row)[i]? = some (shownAt tgt (head.columns i).typ row (head.offset i))

/-! ### The pointer -/

/-- How far `showObj` moves the pointer on behind a value. -/
def shownAdv (tgt : Target) (t : ColTyp) : ℕ := if t = .VCR then 0 else gTypeRef tgt t

theorem showLoop_eq_walk (tgt : Target) (head : LayoutHeader) (row : Mem) (is : List ℕ) (p : ℕ) :
    showLoop tgt head row is p = walk (fun i => shownAdv tgt (head.columns i).typ)
      (fun i p => shownAt tgt (head.columns i).typ row p) is p := by
  induction is generalizing p with
  | nil => rfl
  | cons i is ih =>
    rw [showLoop, walk]
    cases htyp : (head.columns i).typ with
    | INT => exact congrArg _ (ih _)
    | LONG => exact congrArg _ (ih _)
    | LLONG => exact congrArg _ (ih _)
    | FLOAT => exact congrArg _ (ih _)
    | DOUBLE => exact congrArg _ (ih _)
    | VCR => exact congrArg _ (ih _)

/-- Where the pointer is when column `i` is shown. -/
def shownFrom (tgt : Target) (head : LayoutHeader) (i : ℕ) : ℕ :=
  ((List.range i).map fun j => shownAdv tgt (head.columns j).typ).sum

theorem showObj_getElem? (tgt : Target) {head : LayoutHeader} (row : Mem) {i : ℕ}
    (hi : i < head.sz) :
    (showObj tgt head row)[i]?
      = some (shownAt tgt (head.columns i).typ row (shownFrom tgt head i)) := by
  rw [showObj, showLoop_eq_walk, walk_range_getElem? _ _ hi]
  rfl

theorem decodesRows_iff_shownAt (tgt : Target) (head : LayoutHeader) :
    DecodesRows tgt head ↔ ∀ row : Mem, ∀ i < head.sz,
      shownAt tgt (head.columns i).typ row (shownFrom tgt head i)
        = shownAt tgt (head.columns i).typ row (head.offset i) := by
  refine forall₃_congr fun row i hi => ?_
  rw [showObj_getElem? tgt row hi, Option.some_inj]

/-! ### A row that shows the difference -/

/-- A row of zeros with a single one, at offset `a`. -/
def markedRow (a : ℕ) : Mem := fun i => if i = a then 1 else 0

theorem number_markedRow_self (a n : ℕ) : (markedRow a).number a (n + 1) = 1 := by
  rw [Mem.number_of_byte _ _ fun i _ => if_neg (by omega), markedRow, if_pos rfl]
  rfl

theorem signedAt_markedRow_self (a : ℕ) {n : ℕ} (hn : n = 4 ∨ n = 8) :
    signedAt (markedRow a) a n = 1 := by
  rcases hn with rfl | rfl
  · rw [signedAt, number_markedRow_self]
    decide
  · rw [signedAt, number_markedRow_self]
    decide

theorem number_markedRow_of_lt {a b : ℕ} (h : a < b) (n : ℕ) : (markedRow a).number b n = 0 :=
  Mem.number_of_zeros _ _ fun i _ => if_neg (by omega)

/-- At the mark and behind it values of all types differ. -/
theorem shownAt_markedRow_ne (tgt : Target) (t : ColTyp) {a b : ℕ} (h : a < b) :
    shownAt tgt t (markedRow a) a ≠ shownAt tgt t (markedRow a) b := by
  have hinteger : ∀ n, n = 4 ∨ n = 8 →
      Shown.integer (signedAt (markedRow a) a n) ≠ .integer (signedAt (markedRow a) b n) := by
    intro n hn heq
    have hvalue := Shown.integer.inj heq
    rw [signedAt_markedRow_self a hn, signedAt, number_markedRow_of_lt h, Nat.cast_zero,
      Int.zero_bmod] at hvalue
    exact absurd hvalue (by decide)
  have hfloating : ∀ n,
      Shown.floating ((markedRow a).number a (n + 1))
        ≠ .floating ((markedRow a).number b (n + 1)) := by
    intro n heq
    have hvalue := Shown.floating.inj heq
    rw [number_markedRow_self, number_markedRow_of_lt h] at hvalue
    exact absurd hvalue (by decide)
  cases t with
  | INT => exact hinteger 4 (Or.inl rfl)
  | LONG => exact hinteger _ tgt.long_eq
  | LLONG => exact hinteger 8 (Or.inr rfl)
  | FLOAT => exact hfloating 3
  | DOUBLE => exact hfloating 7
  | VCR =>
    intro heq
    have htext := Shown.text.inj heq
    have hread : ∀ c, (markedRow a).read c 4 = markedRow a c :: (markedRow a).read (c + 1) 3 :=
      fun _ => rfl
    have hmark : textAt (markedRow a) a 4 ≠ [] := by
      rw [textAt, hread, List.takeWhile_cons_of_pos (by simp [markedRow])]
      exact List.cons_ne_nil _ _
    have hzeros : textAt (markedRow a) b 4 = [] := by
      rw [textAt, hread, List.takeWhile_cons_of_neg (by simp [markedRow, h.ne'])]
    exact hmark (htext.trans hzeros)

/-! ### The headers whose rows are shown -/

/-- The sizes of the columns are those that a create message gives them. -/
def MessageSizes (tgt : Target) (head : LayoutHeader) : Prop :=
  ∀ i < head.sz, (head.columns i).typsz = shownSz tgt (head.columns i).typ

section Decodes

variable {tgt : Target} {head : LayoutHeader}

/-- Before the first `VCR` the pointer is where the column is. -/
theorem shownFrom_eq_offset (hsizes : MessageSizes tgt head) {i : ℕ} (hi : i < head.sz)
    (hvcr : ∀ j < i, (head.columns j).typ ≠ .VCR) : shownFrom tgt head i = head.offset i := by
  rw [shownFrom, LayoutHeader.offset]
  congr 1
  apply List.map_congr_left
  intro j hj
  have hj := List.mem_range.mp hj
  rw [hsizes j (hj.trans hi), shownAdv, shownSz, if_neg (hvcr j hj), if_neg (hvcr j hj)]

/-- Behind the first `VCR` the pointer has stayed where this column is. -/
theorem shownFrom_succ (hsizes : MessageSizes tgt head) {i : ℕ} (hi : i < head.sz)
    (hvcr : ∀ j < i, (head.columns j).typ ≠ .VCR) (htyp : (head.columns i).typ = .VCR) :
    shownFrom tgt head (i + 1) = head.offset i := by
  have hsum : shownFrom tgt head (i + 1)
      = shownFrom tgt head i + shownAdv tgt (head.columns i).typ := by
    simp [shownFrom, List.range_succ]
  rw [hsum, shownFrom_eq_offset hsizes hi hvcr, htyp]
  rfl

theorem typ_ne_of_decodesRows (hsizes : MessageSizes tgt head) (h : DecodesRows tgt head) (i : ℕ)
    (hi : i + 1 < head.sz) : (head.columns i).typ ≠ .VCR := by
  induction i using Nat.strong_induction_on with
  | _ i ih =>
    intro htyp
    have hvcr : ∀ j < i, (head.columns j).typ ≠ .VCR := fun j hj => ih j hj (by omega)
    have hlt : head.offset i < head.offset (i + 1) := by
      rw [head.offset_succ, hsizes i (by omega), htyp]
      show head.offset i < head.offset i + 4
      omega
    -- the next column is shown from the bytes of this one
    have hshown := (decodesRows_iff_shownAt tgt head).mp h (markedRow (head.offset i)) (i + 1) hi
    rw [shownFrom_succ hsizes (by omega) hvcr htyp] at hshown
    exact shownAt_markedRow_ne tgt _ hlt hshown

/-- **Showing rows.**  Every row of a table is shown as it is stored if and only if no `VCR` column
has a column behind it. -/
theorem decodesRows_iff (hsizes : MessageSizes tgt head) :
    DecodesRows tgt head ↔ ∀ i, i + 1 < head.sz → (head.columns i).typ ≠ .VCR := by
  refine ⟨typ_ne_of_decodesRows hsizes, fun hvcr => ?_⟩
  rw [decodesRows_iff_shownAt]
  intro row i hi
  rw [shownFrom_eq_offset hsizes hi fun j hj => hvcr j (by omega)]

end Decodes

/-! ### Two tables -/

/-- Columns of these two types, with the sizes of a create message. -/
def twoColumns (t₁ t₂ : ColTyp) : LayoutHeader :=
  ⟨2, fun i =>
    ⟨⟨0, fun _ => 0⟩, 0, shownSz lp64 (if i = 0 then t₁ else t₂), if i = 0 then t₁ else t₂⟩⟩

theorem messageSizes_twoColumns (t₁ t₂ : ColTyp) : MessageSizes lp64 (twoColumns t₁ t₂) :=
  fun _ _ => rfl

theorem decodesRows_int_varc : DecodesRows lp64 (twoColumns .INT .VCR) := by
  refine (decodesRows_iff (messageSizes_twoColumns _ _)).mpr fun i hi => ?_
  have hlt : i + 1 < 2 := hi
  obtain rfl : i = 0 := by omega
  decide

/-- The number behind a text is not shown. -/
theorem not_decodesRows_varc_int :
    MessageSizes lp64 (twoColumns .VCR .INT) ∧ ¬DecodesRows lp64 (twoColumns .VCR .INT) := by
  refine ⟨messageSizes_twoColumns _ _, fun h => ?_⟩
  exact typ_ne_of_decodesRows (messageSizes_twoColumns _ _) h 0 (by decide) rfl

end Lab1.MemDb
