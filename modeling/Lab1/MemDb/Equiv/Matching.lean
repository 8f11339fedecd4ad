import Lab1.Library.Carry
import Lab1.MemDb.Equiv.FindEntry

/-!
# Which rows `findEntry` reports

`findEntry` counts the conditions that hold of a row in `matchesFound` and reports the row when the
count reaches `i_comp.sz`.  The count is set back only then, so what it reports is a
`Carry.scan` over the object numbers whose bit is set (`findEntry_eq`): conditions that hold of
rows which are not reported count for the rows after them.  The object numbers `33 … 48`
besides name the slots `1 … 16` once more.

`exactFind_iff` says when this does no harm.
-/

namespace Lab1.MemDb

open ArrayLayout Carry

/-! ### The property -/

/-- Whether the condition holds of the row at `vpdata`. -/
def Cond.test (data : Mem) (vpdata : ℕ) (c : Cond) : Bool :=
  match c.colDef with
  | none => false
  | some d => decide (c.pVal.toList.take d.typsz = data.read (vpdata + d.loc) d.typsz)

/-- Where the row in slot `s` starts. -/
def ArrayLayout.rowAddr (l : ArrayLayout) (s : ℕ) : ℕ := u32 (s * l.totTypSz)

/-- The report on the row in slot `s`. -/
def ArrayLayout.rowAt (l : ArrayLayout) (s : ℕ) : Result :=
  ⟨l.data.read (l.rowAddr s) l.totTypSz, s⟩

/-- All conditions hold of the row in slot `s`. -/
def RowMatches (l : ArrayLayout) (comp : Comparable) (s : ℕ) : Prop :=
  ∀ c ∈ comp.conds, c.test l.data (l.rowAddr s) = true

instance (l : ArrayLayout) (comp : Comparable) (s : ℕ) : Decidable (RowMatches l comp s) :=
  inferInstanceAs (Decidable (∀ c ∈ comp.conds, c.test l.data (l.rowAddr s) = true))

/-- The slots that are not free, in increasing order. -/
def ArrayLayout.liveSlots (l : ArrayLayout) : List ℕ :=
  (List.range maxObjNum).filter fun s => decide (s ∉ l.stack.held)

/-- What `findEntry` should report: the live slots whose rows match, each once and in increasing
order, with their rows. -/
def ExactFind (l : ArrayLayout) (comp : Comparable) : Prop :=
  l.findEntry comp = .ok
    ((l.liveSlots.filter fun s => decide (RowMatches l comp s)).map l.rowAt)

/-! ### Counting -/

/-- The number of conditions that hold of the row in slot `s`. -/
def passes (l : ArrayLayout) (comp : Comparable) (s : ℕ) : ℕ :=
  comp.conds.countP fun c => c.test l.data (l.rowAddr s)

/-- The object numbers that are looked at. -/
def ArrayLayout.scanned (l : ArrayLayout) : List ℕ := objIndices.filter (on l)

theorem rowMatches_iff {l : ArrayLayout} {comp : Comparable} {s : ℕ} :
    RowMatches l comp s ↔ comp.sz ≤ passes l comp s := by
  have hle : passes l comp s ≤ comp.sz := List.countP_le_length
  rw [RowMatches, ← List.countP_eq_length]
  exact ⟨fun h => h.ge, fun h => Nat.le_antisymm hle h⟩

theorem filter_rowMatches (l : ArrayLayout) (comp : Comparable) (ss : List ℕ) :
    (ss.filter fun s => decide (RowMatches l comp s)) = passing comp.sz (passes l comp) ss := by
  simp only [rowMatches_iff]
  rfl

/-- What the comparison of a row comes to. -/
theorem compareRow_eq (data : Mem) (vpdata : ℕ) {n : ℕ} {cs : List Cond} {mf : ℕ}
    (hcs : ∀ c ∈ cs, c.Ready) (hmf : mf < n) :
    compareRow data vpdata n cs mf =
      .ok (if n ≤ mf + cs.countP (Cond.test data vpdata) then (true, 0)
        else (false, mf + cs.countP (Cond.test data vpdata))) := by
  induction cs generalizing mf with
  | nil =>
    rw [List.countP_nil, if_neg (by omega)]
    rfl
  | cons c cs ih =>
    rw [List.forall_mem_cons] at hcs
    obtain ⟨d, hdef, hsz⟩ := hcs.1
    have htest : c.test data vpdata
        = decide (c.pVal.toList.take d.typsz = data.read (vpdata + d.loc) d.typsz) := by
      simp [Cond.test, hdef]
    rw [compareRow_cons hdef hsz, List.countP_cons, htest]
    by_cases hmatch : c.pVal.toList.take d.typsz = data.read (vpdata + d.loc) d.typsz
    · simp only [hmatch, if_true, decide_true]
      by_cases hn : mf + 1 = n
      · rw [if_pos hn, if_pos (by omega)]
      · rw [if_neg hn, ih hcs.2 (by omega), Nat.add_right_comm, Nat.add_assoc]
    · simp only [hmatch, if_false, decide_false, Bool.false_eq_true, Nat.add_zero]
      exact ih hcs.2 hmf

/-! ### One object number -/

section Step

variable {l : ArrayLayout} {comp : Comparable} {o mf : ℕ}

theorem findLoop_cons_of_off (ho : 1 ≤ o ∧ o ≤ maxBit) (hoff : ¬on l o = true) (idxs : List ℕ)
    (res : List Result) : findLoop l comp (o :: idxs) mf res = findLoop l comp idxs mf res := by
  rw [findLoop_cons ho.1 ho.2, if_neg hoff]

/-- The row is reported, and the counter set back. -/
theorem findLoop_cons_of_le (ho : 1 ≤ o ∧ o ≤ maxBit) (hon : on l o = true)
    (hready : ∀ c ∈ comp.conds, c.Ready) (hmf : mf < comp.sz)
    (htaken : comp.sz ≤ mf + passes l comp o) (idxs : List ℕ) (res : List Result) :
    findLoop l comp (o :: idxs) mf res = (do
      require .outOfBounds (res.length < maxObjNum ∧ l.totTypSz ≤ bufferCap)
      findLoop l comp idxs 0 (res ++ [l.rowAt o])) := by
  have hpos : comp.sz ≤ mf + comp.conds.countP (Cond.test l.data (u32 (o * l.totTypSz))) := htaken
  rw [findLoop_cons ho.1 ho.2, if_pos hon, compareRow_eq _ _ hready hmf, ok_bind]
  simp only [hpos, if_true]
  rfl

/-- The row is not reported, and what it has passed is carried over. -/
theorem findLoop_cons_of_lt (ho : 1 ≤ o ∧ o ≤ maxBit) (hon : on l o = true)
    (hready : ∀ c ∈ comp.conds, c.Ready) (hmf : mf < comp.sz)
    (hpassed : mf + passes l comp o < comp.sz) (idxs : List ℕ) (res : List Result) :
    findLoop l comp (o :: idxs) mf res = findLoop l comp idxs (mf + passes l comp o) res := by
  have hneg : ¬comp.sz ≤ mf + comp.conds.countP (Cond.test l.data (u32 (o * l.totTypSz))) :=
    Nat.not_le.mpr hpassed
  rw [findLoop_cons ho.1 ho.2, if_pos hon, compareRow_eq _ _ hready hmf, ok_bind]
  simp only [hneg, if_false, Bool.false_eq_true]
  rfl

end Step

/-! ### The search -/

/-- **The search is a scan with a carried counter**; it fails when a row, or the rows together,
do not fit the `ResultBuff`. -/
theorem findLoop_eq {l : ArrayLayout} {comp : Comparable} (hready : ∀ c ∈ comp.conds, c.Ready)
    {idxs : List ℕ} (hidxs : ∀ o ∈ idxs, 1 ≤ o ∧ o ≤ maxBit) {mf : ℕ} (hmf : mf < comp.sz)
    (res : List Result) {found : List ℕ}
    (hfound : found = scan comp.sz (passes l comp) mf (idxs.filter (on l))) :
    findLoop l comp idxs mf res =
      if found = [] ∨ (l.totTypSz ≤ bufferCap ∧ res.length + found.length ≤ maxObjNum) then
        .ok (res ++ found.map l.rowAt)
      else .error .outOfBounds := by
  induction idxs generalizing mf res found with
  | nil =>
    rw [List.filter_nil, scan] at hfound
    simp [findLoop, hfound]
  | cons o idxs ih =>
    obtain ⟨ho, hidxs⟩ := List.forall_mem_cons.mp hidxs
    have ih := @ih hidxs
    by_cases hon : on l o = true
    · rw [List.filter_cons_of_pos hon] at hfound
      rcases Nat.lt_or_ge (mf + passes l comp o) comp.sz with hpassed | htaken
      · rw [scan_cons_of_lt _ hpassed] at hfound
        rw [findLoop_cons_of_lt ho hon hready hmf hpassed]
        exact ih hpassed res hfound
      · rw [scan_cons_of_le _ htaken] at hfound
        rw [findLoop_cons_of_le ho hon hready hmf htaken]
        by_cases hfits : res.length < maxObjNum ∧ l.totTypSz ≤ bufferCap
        · rw [require_true hfits, ok_bind, ih (by omega) _ rfl, hfound]
          refine if_congr ?_ (by simp) rfl
          rw [List.length_append, List.length_singleton, List.length_cons]
          simp only [List.cons_ne_nil, false_or]
          constructor
          · rintro (hnil | ⟨hcap, hlen⟩)
            · rw [hnil, List.length_nil]
              omega
            · omega
          · intro h
            omega
        · rw [require_false hfits, error_bind, if_neg]
          rw [hfound, List.length_cons]
          simp only [List.cons_ne_nil, false_or]
          omega
    · rw [List.filter_cons_of_neg hon] at hfound
      rw [findLoop_cons_of_off ho hon]
      exact ih hmf res hfound

theorem findEntry_eq {l : ArrayLayout} (hsz : 0 < l.stack.getSz) {comp : Comparable}
    (hne : comp.conds ≠ []) (hready : ∀ c ∈ comp.conds, c.Ready) {found : List ℕ}
    (hfound : found = scan comp.sz (passes l comp) 0 l.scanned) :
    l.findEntry comp =
      if found = [] ∨ (l.totTypSz ≤ bufferCap ∧ found.length ≤ maxObjNum) then
        .ok (found.map l.rowAt)
      else .error .outOfBounds := by
  rw [findEntry, require_true hsz, ok_bind,
    findLoop_eq hready objIndices_le
      (List.length_pos_iff.mpr hne) [] hfound]
  simp

/-! ### Searches that return -/

theorem findEntry_eq_ok {l : ArrayLayout} {comp : Comparable} {res : List Result} :
    l.findEntry comp = .ok res ↔
      0 < l.stack.getSz ∧ findLoop l comp objIndices 0 [] = .ok res := by
  unfold findEntry
  rw [bind_eq_ok]
  simp [require_eq_ok]

theorem ready_of_compareRow {data : Mem} {vpdata n mf : ℕ} {c : Cond} {cs : List Cond}
    {x : Bool × ℕ} (h : compareRow data vpdata n (c :: cs) mf = .ok x) : c.Ready := by
  rw [compareRow] at h
  rcases hdef : c.colDef with _ | d
  · simp [hdef] at h
  · simp only [hdef] at h
    obtain ⟨_, hsz, _⟩ := bind_eq_ok.mp h
    exact ⟨d, hdef, require_eq_ok.mp hsz⟩

/-- While the counter is too low for a match before the last condition, every condition is
evaluated. -/
theorem ready_of_compareRow_le {data : Mem} {vpdata n mf : ℕ} {cs : List Cond} {x : Bool × ℕ}
    (hle : mf + cs.length ≤ n) (h : compareRow data vpdata n cs mf = .ok x) :
    ∀ c ∈ cs, c.Ready := by
  induction cs generalizing mf with
  | nil => exact fun c hc => absurd hc List.not_mem_nil
  | cons c cs ih =>
    rw [List.length_cons] at hle
    have hready : c.Ready := ready_of_compareRow h
    obtain ⟨d, hdef, hsz⟩ := id hready
    refine List.forall_mem_cons.mpr ⟨hready, ?_⟩
    rw [compareRow_cons hdef hsz] at h
    split_ifs at h with hmatch hn
    · -- this was the last condition
      obtain rfl : cs = [] := List.eq_nil_of_length_eq_zero (by omega)
      exact fun c' hc' => absurd hc' List.not_mem_nil
    · exact ih (by omega) h
    · exact ih (by omega) h

/-- The first row that is looked at has all conditions evaluated. -/
theorem scanned_or_ready_of_findLoop {l : ArrayLayout} {comp : Comparable} {idxs : List ℕ}
    {res res' : List Result} (hidxs : ∀ o ∈ idxs, 1 ≤ o ∧ o ≤ maxBit)
    (h : findLoop l comp idxs 0 res = .ok res') :
    idxs.filter (on l) = [] ∨ ∀ c ∈ comp.conds, c.Ready := by
  induction idxs with
  | nil => exact Or.inl rfl
  | cons o idxs ih =>
    rw [List.forall_mem_cons] at hidxs
    rw [findLoop_cons hidxs.1.1 hidxs.1.2] at h
    split_ifs at h with hon
    · obtain ⟨x, hcmp, _⟩ := bind_eq_ok.mp h
      exact Or.inr (ready_of_compareRow_le (Nat.le_of_eq (Nat.zero_add _)) hcmp)
    · rw [List.filter_cons_of_neg hon]
      exact ih hidxs.2 h

theorem findLoop_of_off {l : ArrayLayout} {comp : Comparable} {idxs : List ℕ} {mf : ℕ}
    {res : List Result} (hidxs : ∀ o ∈ idxs, 1 ≤ o ∧ o ≤ maxBit)
    (hoff : ∀ o ∈ idxs, on l o = false) : findLoop l comp idxs mf res = .ok res := by
  induction idxs with
  | nil => rfl
  | cons o idxs ih =>
    rw [List.forall_mem_cons] at hidxs hoff
    rw [findLoop_cons hidxs.1.1 hidxs.1.2, if_neg (by rw [hoff.1]; decide)]
    exact ih hidxs.2 hoff.2

/-- A search that returns has evaluated every condition, unless there was no row to look at. -/
theorem scanned_or_ready_of_findEntry {l : ArrayLayout} {comp : Comparable} {res : List Result}
    (h : l.findEntry comp = .ok res) : l.scanned = [] ∨ ∀ c ∈ comp.conds, c.Ready :=
  scanned_or_ready_of_findLoop objIndices_le (findEntry_eq_ok.mp h).2

theorem findEntry_of_scanned_nil {l : ArrayLayout} (hsz : 0 < l.stack.getSz) {comp : Comparable}
    (hnone : l.scanned = []) : l.findEntry comp = .ok [] := by
  refine findEntry_eq_ok.mpr ⟨hsz, findLoop_of_off objIndices_le ?_⟩
  intro o ho
  exact Bool.eq_false_iff.mpr (List.filter_eq_nil_iff.mp hnone o ho)

theorem ready_of_findEntry {l : ArrayLayout} {comp : Comparable} {res : List Result}
    (h : l.findEntry comp = .ok res) (hne : res ≠ []) : ∀ c ∈ comp.conds, c.Ready := by
  rcases scanned_or_ready_of_findEntry h with hnone | hready
  · rw [findEntry_of_scanned_nil (findEntry_eq_ok.mp h).1 hnone] at h
    exact absurd (Except.ok.inj h).symm hne
  · exact hready

/-! ### The object numbers -/

/-- The object numbers above the slots whose bit is set: they name slots once more. -/
def ArrayLayout.repeated (l : ArrayLayout) : List ℕ := (List.range' 32 17).filter (on l)

theorem SlotInv.on_eq {k : ℕ} {l : ArrayLayout} (h : SlotInv k l) :
    on l = fun o => decide (31 - k ≤ BitMap.pos o ∧ BitMap.pos o < 31) := by
  ext1 o
  exact h.bits _

theorem SlotInv.liveSlots_eq {k : ℕ} {l : ArrayLayout} (h : SlotInv k l) :
    l.liveSlots = (List.range' 1 31).filter (on l) := by
  have hrange : List.range maxObjNum = 0 :: List.range' 1 31 := rfl
  have hcap := h.capacity
  have hmax : maxObjNum = 32 := rfl
  have hle := h.le
  unfold liveSlots
  rw [hrange, List.filter_cons_of_neg]
  · refine List.filter_congr fun o ho => ?_
    have ho := List.mem_range'_1.mp ho
    have hbits := h.exactSlots.bits o (by omega)
    rw [BitMap.bit_ofNat _ ho.1 (by omega)] at hbits
    rw [on, Bool.eq_iff_iff, decide_eq_true_eq]
    exact hbits
  · simp only [h.held_eq, List.mem_range, decide_not, Bool.not_eq_true', decide_eq_false_iff_not]
    omega

theorem SlotInv.scanned_eq {k : ℕ} {l : ArrayLayout} (h : SlotInv k l) :
    l.scanned = l.liveSlots ++ l.repeated := by
  have hindices : objIndices = List.range' 1 31 ++ List.range' 32 17 := rfl
  rw [scanned, hindices, List.filter_append, h.liveSlots_eq, repeated]

theorem SlotInv.getSz_pos {k : ℕ} {l : ArrayLayout} (h : SlotInv k l) : 0 < l.stack.getSz := by
  rw [Stack.getSz, h.stack_sz]
  decide

theorem rowAt_injective (l : ArrayLayout) : Function.Injective l.rowAt :=
  fun _ _ h => congrArg Result.index h

theorem length_liveSlots_le (l : ArrayLayout) : l.liveSlots.length ≤ maxObjNum := by
  have hle := List.length_filter_le (fun s => decide (s ∉ l.stack.held)) (List.range maxObjNum)
  rwa [List.length_range] at hle

theorem SlotInv.exactFind_iff_quiet {k : ℕ} {l : ArrayLayout} (h : SlotInv k l) {comp : Comparable}
    (hne : comp.conds ≠ []) (hready : ∀ c ∈ comp.conds, c.Ready) :
    ExactFind l comp ↔
      (l.totTypSz ≤ bufferCap ∨ ∀ s ∈ l.liveSlots, ¬RowMatches l comp s) ∧
      Quiet comp.sz (passes l comp) (l.liveSlots ++ l.repeated) ∧
      Failing comp.sz (passes l comp) l.repeated := by
  have hn : 0 < comp.sz := List.length_pos_iff.mpr hne
  have hnone : (∀ s ∈ l.liveSlots, ¬RowMatches l comp s) ↔
      passing comp.sz (passes l comp) l.liveSlots = [] := by
    rw [passing_eq_nil_iff]
    refine forall₂_congr fun s _ => ?_
    rw [rowMatches_iff, not_le]
  rw [ExactFind, filter_rowMatches, findEntry_eq h.getSz_pos hne hready rfl, h.scanned_eq, hnone,
    ← scan_append_eq_passing_iff hn]
  set found := scan comp.sz (passes l comp) 0 (l.liveSlots ++ l.repeated)
  constructor
  · intro heq
    split_ifs at heq with hfits
    have hfound := (rowAt_injective l).list_map (Except.ok.inj heq)
    refine ⟨?_, hfound⟩
    rcases hfits with hnil | ⟨hcap, _⟩
    · exact Or.inr (hfound ▸ hnil)
    · exact Or.inl hcap
  · rintro ⟨hcap, hfound⟩
    rw [hfound, if_pos]
    rcases hcap with hcap | hnil
    · refine Or.inr ⟨hcap, le_trans (List.length_filter_le _ _) (length_liveSlots_le l)⟩
    · exact Or.inl hnil

/-- A layout with `n + 1` rows of zeros in two `int` columns. -/
theorem exists_zero_rows {n : ℕ} (hn : n < 31) :
    ∃ alloc' l₀ l outs, ArrayLayout.new freshAlloc zeroChunk (twoInts 0 4) 4096 = .ok (alloc', l₀) ∧
      exec ArrayLayout.step l₀ (List.replicate (n + 1) (.addEntry fun _ => 0)) = .ok (l, outs) ∧
      SlotInv (n + 1) l ∧ l.totTypSz = 8 ∧ l.data = fun _ => 0 := by
  obtain ⟨alloc', l₀, l₁, outs, l, hnew, hrun, hadd, hinv, htyp, hdata⟩ :=
    exists_zero_layout (by decide) (twoInts_names 0 4) (by decide) hn
      (fun _ => 0) 4096
  have hlast : exec ArrayLayout.step l₁ [.addEntry fun _ => 0] = .ok (l, [.status 0]) := by
    refine exec_singleton_eq_ok.mpr ⟨.status 0, ?_, rfl⟩
    rw [ArrayLayout.step, hadd]
    rfl
  refine ⟨alloc', l₀, l, outs ++ [.status 0], hnew, ?_, (hinv.addEntry hadd).2, htyp, ?_⟩
  · rw [List.replicate_succ', ← List.map_replicate]
    exact exec_append_eq_ok.mpr ⟨l₁, outs, [.status 0], hrun, hlast, rfl⟩
  · rw [hdata, write_zeros]

/-- The condition that column `j` of `twoInts 0 4` has the bytes `v`. -/
def intCond (j : ℕ) (v : Mem) : Cond := ⟨some ((twoInts 0 4).columns j), RawVal.ofMem v 0⟩

theorem typsz_twoInts (loc₁ loc₂ j : ℕ) : ((twoInts loc₁ loc₂).columns j).typsz = 4 := by
  simp only [twoInts]
  split_ifs
  · rfl
  · rfl

end Lab1.MemDb
