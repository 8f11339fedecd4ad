import Lab1.MemDb.Equiv.FindEntry
import Lab1.MemDb.Equiv.Stack

/-!
# How many rows a layout holds

The constructor puts all 32 slots on the free list, whatever the size of the data area.  Slots are
handed out from the top, so the first row goes behind 31 others that are not there
(`staysInside_iff`): the data area has to have room for all 32 rows before the first is added.

At the other end, `addEntry` looks at the size of the stack and not at its fill count.  The call
that takes the last slot, number `0`, uses it as a bit number and fails the assertion of `bit_on`,
and so would a call without a slot, whose bit number is `invLocation`: a full layout is never
reached, and rejects nothing (`addEntry_never_rejects`).
-/

namespace Lab1.MemDb

open ArrayLayout

/-! ### The properties -/

/-- The next `addEntry` writes the byte at `a`: it depends on the row. -/
def Touches (l : ArrayLayout) (a : ℕ) : Prop :=
  ∃ row l', l.addEntry row = .ok (l', 0) ∧ l'.data a ≠ l.data a

/-- All bytes that the calls for `rows` write are among the first `sz` of the data area. -/
def StaysInside (l₀ : ArrayLayout) (rows : List Mem) (sz : ℕ) : Prop :=
  ∀ pre row post l outs, rows = pre ++ row :: post →
    exec ArrayLayout.step l₀ (pre.map .addEntry) = .ok (l, outs) → ∀ a, Touches l a → a < sz

/-- One of the calls for `rows` takes the last slot of the free list. -/
def UsesUp (l₀ : ArrayLayout) (rows : List Mem) : Prop :=
  ∃ pre row post l outs stack val, rows = pre ++ row :: post ∧
    exec ArrayLayout.addEntry l₀ pre = .ok (l, outs) ∧ l.stack.pop = .ok (stack, val) ∧
    stack.getCapacity = 0

/-- What `addEntry` should do after the calls for `rows`, when no slot is free: it returns an error
and leaves the stack, the bit map and the data area as they were. -/
def RejectsCleanly (l₀ : ArrayLayout) (rows : List Mem) (row : Mem) : Prop :=
  ∃ l outs l' sts, exec ArrayLayout.addEntry l₀ rows = .ok (l, outs) ∧
    l.addEntry row = .ok (l', sts) ∧ sts ≠ 0 ∧
    l'.stack = l.stack ∧ l'.bitMap = l.bitMap ∧ l'.data = l.data

/-! ### The bytes of a row -/

/-- Byte `a` is in one of the first `n` columns of the row at `vpdata`.  A column starts at the sum
of the sizes before it, taken modulo `2³²`. -/
def InRow (h : LayoutHeader) (n vpdata a : ℕ) : Prop :=
  ∃ j < n, vpdata + u32 (h.offset j) ≤ a ∧ a < vpdata + u32 (h.offset j) + (h.columns j).typsz

instance (h : LayoutHeader) (n vpdata a : ℕ) : Decidable (InRow h n vpdata a) :=
  inferInstanceAs (Decidable (∃ j < n, vpdata + u32 (h.offset j) ≤ a ∧
    a < vpdata + u32 (h.offset j) + (h.columns j).typsz))

theorem inRow_succ {h : LayoutHeader} {n vpdata a : ℕ} :
    InRow h (n + 1) vpdata a ↔ InRow h n vpdata a ∨ (vpdata + u32 (h.offset n) ≤ a ∧
      a < vpdata + u32 (h.offset n) + (h.columns n).typsz) := by
  constructor
  · rintro ⟨j, hj, hcol⟩
    rcases Nat.lt_succ_iff_lt_or_eq.mp hj with hlt | rfl
    · exact Or.inl ⟨j, hlt, hcol⟩
    · exact Or.inr hcol
  · rintro (⟨j, hj, hcol⟩ | hcol)
    · exact ⟨j, Nat.lt_succ_of_lt hj, hcol⟩
    · exact ⟨n, Nat.lt_succ_self n, hcol⟩

/-- **What the loop writes.** -/
theorem writeColumns_apply (h : LayoutHeader) (row : Mem) (vpdata : ℕ) (data : Mem) (a : ℕ) :
    (writeColumns h row vpdata data).1 a
      = if InRow h h.sz vpdata a then row (a - vpdata) else data a := by
  suffices hn : ∀ n, ∃ data', (List.range n).foldl (fun (st : Mem × ℕ) i =>
        (st.1.write (vpdata + st.2) (row.read st.2 (h.columns i).typsz),
          u32 (st.2 + (h.columns i).typsz))) (data, 0) = (data', u32 (h.offset n)) ∧
      data' a = if InRow h n vpdata a then row (a - vpdata) else data a by
    obtain ⟨data', hfold, hdata'⟩ := hn h.sz
    rw [← hdata']
    exact congrFun (congrArg Prod.fst hfold) a
  intro n
  induction n with
  | zero => exact ⟨data, rfl, (if_neg fun ⟨j, hj, _⟩ => Nat.not_lt_zero j hj).symm⟩
  | succ n ih =>
    obtain ⟨data', hfold, hdata'⟩ := ih
    refine ⟨data'.write (vpdata + u32 (h.offset n))
      (row.read (u32 (h.offset n)) (h.columns n).typsz), ?_, ?_⟩
    · rw [List.range_succ, List.foldl_append, hfold, List.foldl_cons, List.foldl_nil]
      rw [u32_add_left, ← h.offset_succ]
    · by_cases hlast : vpdata + u32 (h.offset n) ≤ a ∧
          a < vpdata + u32 (h.offset n) + (h.columns n).typsz
      · -- column `n` covers the byte
        rw [if_pos (inRow_succ.mpr (Or.inr hlast))]
        obtain ⟨k, rfl⟩ := Nat.exists_eq_add_of_le hlast.1
        rw [Mem.write_apply_of_mem _ _ (by rw [Mem.length_read]; omega), Mem.getElem_read,
          Nat.add_assoc, Nat.add_sub_cancel_left]
      · rw [Mem.write_apply_of_not_mem _ _ (by rw [Mem.length_read]; omega), hdata']
        exact if_congr (by rw [inRow_succ, or_iff_left hlast]) rfl rfl

/-- With `k` slots taken, the next row goes to slot `31 - k`. -/
theorem SlotInv.touches_iff {k : ℕ} {l : ArrayLayout} (h : SlotInv k l) (hk : k < 31) {a : ℕ} :
    Touches l a ↔ InRow l.header l.header.sz (u32 ((31 - k) * l.totTypSz)) a := by
  have hdata : ∀ row l', l.addEntry row = .ok (l', 0) → l'.data a =
      if InRow l.header l.header.sz (u32 ((31 - k) * l.totTypSz)) a then
        row (a - u32 ((31 - k) * l.totTypSz)) else l.data a := by
    intro row l' hadd
    obtain ⟨_, stack, val, b, hpop, _, _, rfl⟩ := addEntry_eq_ok.mp hadd
    obtain ⟨rfl, rfl⟩ := ok_pair_inj (h.pop_eq.symm.trans hpop)
    exact writeColumns_apply _ _ _ _ a
  constructor
  · rintro ⟨row, l', hadd, hne⟩
    by_contra hout
    rw [hdata row l' hadd, if_neg hout] at hne
    exact hne rfl
  · intro hin
    -- a row of bytes that are not there yet
    obtain ⟨l', hadd⟩ := h.addEntry_isOk hk fun _ => l.data a + 1
    refine ⟨fun _ => l.data a + 1, l', hadd, ?_⟩
    rw [hdata _ l' hadd, if_pos hin]
    simp

/-! ### Rows inside the data area -/

/-- The row in slot `31 - n` ends inside the first `sz` bytes. -/
def RowFits (head : LayoutHeader) (sz n : ℕ) : Prop :=
  ∀ j < head.sz, (head.columns j).typsz = 0 ∨
    u32 ((31 - n) * u32 (head.offset head.sz)) + u32 (head.offset j) + (head.columns j).typsz ≤ sz

theorem forall_inRow_iff {h : LayoutHeader} {n vpdata sz : ℕ} :
    (∀ a, InRow h n vpdata a → a < sz) ↔ ∀ j < n, (h.columns j).typsz = 0 ∨
      vpdata + u32 (h.offset j) + (h.columns j).typsz ≤ sz := by
  constructor
  · intro hall j hj
    by_cases hzero : (h.columns j).typsz = 0
    · exact Or.inl hzero
    · -- its last byte
      have hlt := hall (vpdata + u32 (h.offset j) + ((h.columns j).typsz - 1))
        ⟨j, hj, by omega, by omega⟩
      right
      omega
  · rintro hall a ⟨j, hj, hlo, hhi⟩
    rcases hall j hj with hzero | hle
    · omega
    · omega

/-- **Rows inside the memory that was asked for.**  After a construction with the data size `sz`, a
sequence of successful `addEntry` calls writes among the first `sz` bytes only if and only if
these have room for each of the rows, in the slots from `31` downwards. -/
theorem staysInside_iff {alloc alloc' : MemAllocator} {shm : Chunk} {head : LayoutHeader} {sz : ℕ}
    {l₀ l : ArrayLayout} (hnew : ArrayLayout.new alloc shm head sz = .ok (alloc', l₀))
    {rows : List Mem} {outs : List LayoutOut}
    (hrun : exec ArrayLayout.step l₀ (rows.map .addEntry) = .ok (l, outs)) :
    StaysInside l₀ rows sz ↔ ∀ n < rows.length, RowFits head sz n := by
  have hbuilt := new_spec hnew
  have hle : rows.length ≤ 31 := by
    rw [← adds_map_addEntry]
    exact (hbuilt.slotInv.exec hrun).le
  have hpre : ∀ (pre : List Mem) l outs, pre.length < rows.length →
      exec ArrayLayout.step l₀ (pre.map .addEntry) = .ok (l, outs) →
      ((∀ a, Touches l a → a < sz) ↔ RowFits head sz pre.length) := by
    intro pre l outs hlt hpre
    have hinv := hbuilt.slotInv.exec hpre
    rw [adds_map_addEntry] at hinv
    have hload := loaded_of_exec hpre
    simp only [hinv.touches_iff (by omega), forall_inRow_iff]
    unfold RowFits
    rw [hload.totTypSz, hload.header, hbuilt.header_sz, hbuilt.totTypSz]
    refine forall₂_congr fun j hj => ?_
    rw [hbuilt.cols.offset_eq hj.le, (hbuilt.cols j hj).2.2]
  constructor
  · intro h n hn
    have hsplit : rows = rows.take n ++ rows[n] :: rows.drop (n + 1) := by
      rw [List.getElem_cons_drop, List.take_append_drop]
    rw [hsplit, List.map_append] at hrun
    obtain ⟨m, outs₁, _, hfirst, _, _⟩ := exec_append_eq_ok.mp hrun
    have hlen : (rows.take n).length = n := List.length_take_of_le hn.le
    rw [← hlen]
    exact (hpre _ m outs₁ (by omega) hfirst).mp (h _ _ _ m outs₁ hsplit hfirst)
  · rintro h pre row post m outs₁ rfl hfirst
    have hlt : pre.length < (pre ++ row :: post).length := by simp
    exact (hpre pre m outs₁ hlt hfirst).mpr (h pre.length hlt)

/-- The last column that is not empty ends the row. -/
theorem exists_last_column {h : LayoutHeader} {n : ℕ} (hpos : 0 < h.offset n) :
    ∃ j < n, (h.columns j).typsz ≠ 0 ∧ h.offset j + (h.columns j).typsz = h.offset n := by
  induction n with
  | zero => exact absurd hpos (Nat.lt_irrefl 0)
  | succ n ih =>
    rw [h.offset_succ] at hpos ⊢
    by_cases hzero : (h.columns n).typsz = 0
    · rw [hzero, Nat.add_zero] at hpos ⊢
      obtain ⟨j, hj, hne, hend⟩ := ih hpos
      exact ⟨j, Nat.lt_succ_of_lt hj, hne, hend⟩
    · exact ⟨n, Nat.lt_succ_self n, hzero, rfl⟩

/-- Where nothing overflows, the first row decides: there has to be room for 32. -/
theorem forall_rowFits_iff {head : LayoutHeader} {sz n : ℕ}
    (hsmall : maxObjNum * head.offset head.sz < 4294967296) :
    (∀ i < n, RowFits head sz i) ↔
      n = 0 ∨ head.offset head.sz = 0 ∨ maxObjNum * head.offset head.sz ≤ sz := by
  have hmax : maxObjNum = 32 := rfl
  rw [hmax] at hsmall ⊢
  have htot : u32 (head.offset head.sz) = head.offset head.sz := u32_of_lt (by omega)
  have hslot : ∀ i,
      u32 ((31 - i) * u32 (head.offset head.sz)) = (31 - i) * head.offset head.sz := by
    intro i
    have hle : (31 - i) * head.offset head.sz ≤ 31 * head.offset head.sz :=
      Nat.mul_le_mul_right _ (Nat.sub_le _ _)
    rw [htot, u32_of_lt (by omega)]
  have hcol : ∀ j < head.sz, u32 (head.offset j) = head.offset j ∧
      head.offset j + (head.columns j).typsz ≤ head.offset head.sz := by
    intro j hj
    have hle := head.offset_add_typsz_le hj
    exact ⟨u32_of_lt (by omega), hle⟩
  constructor
  · intro h
    by_contra hnone
    push Not at hnone
    obtain ⟨hn, hne, hlt⟩ := hnone
    obtain ⟨j, hj, htypsz, hend⟩ := exists_last_column (Nat.pos_of_ne_zero hne)
    have hfits := (h 0 (Nat.pos_of_ne_zero hn) j hj).resolve_left htypsz
    rw [hslot, (hcol j hj).1] at hfits
    omega
  · rintro h i hi j hj
    by_cases htypsz : (head.columns j).typsz = 0
    · exact Or.inl htypsz
    · right
      have hle : (31 - i) * head.offset head.sz ≤ 31 * head.offset head.sz :=
        Nat.mul_le_mul_right _ (Nat.sub_le _ _)
      obtain ⟨hoff, hend⟩ := hcol j hj
      rw [hslot, hoff]
      rcases h with rfl | hzero | hroom
      · exact absurd hi (Nat.not_lt_zero i)
      · omega
      · omega

/-- Three rows of four bytes in an area for all 32. -/
theorem staysInside_three_rows : ∃ alloc' l₀,
    ArrayLayout.new freshAlloc zeroChunk intHeader 128 = .ok (alloc', l₀) ∧
      StaysInside l₀ (List.replicate 3 fun _ => 0) 128 := by
  obtain ⟨alloc', l₀, hnew⟩ := new_isOk freshAlloc zeroChunk intHeader 128
    (Nat.add_pos_left (by decide) _) (by decide) fun _ _ => (by omega : (4 : ℕ) ≤ 1024)
  obtain ⟨l, outs, hrun, _⟩ := (new_spec hnew).slotInv.exec_adds_isOk
    (List.replicate 3 fun _ => 0) (by simp)
  exact ⟨alloc', l₀, hnew, (staysInside_iff hnew hrun).mpr
    ((forall_rowFits_iff (by decide)).mpr (Or.inr (Or.inr (by decide))))⟩

/-- With room for three rows, as the unit test asks for, the first one is written behind it. -/
theorem not_staysInside_room_for_three : ∃ alloc' l₀,
    ArrayLayout.new freshAlloc zeroChunk intHeader 12 = .ok (alloc', l₀) ∧
      ¬StaysInside l₀ [fun _ => 0] 12 := by
  obtain ⟨alloc', l₀, hnew⟩ := new_isOk freshAlloc zeroChunk intHeader 12
    (Nat.add_pos_left (by decide) _) (by decide) fun _ _ => (by omega : (4 : ℕ) ≤ 1024)
  have hbuilt := new_spec hnew
  refine ⟨alloc', l₀, hnew, fun h => ?_⟩
  have htouch : Touches l₀ 124 := by
    rw [hbuilt.slotInv.touches_iff (by decide), hbuilt.header_sz, hbuilt.totTypSz]
    refine ⟨0, by decide, ?_⟩
    rw [hbuilt.cols.offset_eq (Nat.zero_le _), (hbuilt.cols 0 (by decide)).2.2]
    decide
  exact absurd (h [] _ [] l₀ [] rfl rfl 124 htouch) (by decide)

/-! ### Rows when no slot is left -/

/-- The number which `pop` returns then is refused as a bit number. -/
theorem addEntry_exhausted {l : ArrayLayout} (hcap : l.stack.getCapacity = 0) (row : Mem) :
    l.addEntry row = .error .assertFailed := by
  have hbit : l.bitMap.bitOn (UInt32.ofNat invLocation) = .error .assertFailed := by
    unfold BitMap.bitOn
    rw [require_false (by decide), error_bind]
  unfold addEntry
  by_cases hsz : 0 < l.stack.getSz
  · rw [require_true hsz, ok_bind, Stack.pop_of_empty hcap, ok_bind]
    simp only [hbit, error_bind]
  · rw [require_false hsz, error_bind]

/-- The state after as many rows as there were calls. -/
theorem SlotInv.exec_addEntry {l₀ l : ArrayLayout} (h₀ : SlotInv 0 l₀) {rows : List Mem}
    {outs : List ℤ} (h : Lab1.exec ArrayLayout.addEntry l₀ rows = .ok (l, outs)) :
    SlotInv rows.length l := by
  refine exec_invariant (fun pre l => SlotInv pre.length l) ?_ h₀ h
  intro pre row l₁ l₂ sts hinv hadd
  rw [List.length_append, List.length_singleton]
  exact (hinv.addEntry hadd).2

/-- As long as slot `0` is not the next one, the rows get their slots. -/
theorem SlotInv.exec_addEntry_isOk {k : ℕ} {l : ArrayLayout} (h : SlotInv k l) {rows : List Mem}
    (hk : k + rows.length ≤ 31) :
    ∃ l' outs, Lab1.exec ArrayLayout.addEntry l rows = .ok (l', outs) := by
  induction rows generalizing k l with
  | nil => exact ⟨l, [], rfl⟩
  | cons row rows ih =>
    rw [List.length_cons] at hk
    obtain ⟨l₁, hadd⟩ := h.addEntry_isOk (by omega) row
    obtain ⟨l', outs, hrest⟩ := ih (h.addEntry hadd).2 (by omega)
    exact ⟨l', 0 :: outs, exec_cons_eq_ok.mpr ⟨l₁, 0, outs, hadd, hrest, rfl⟩⟩

/-- Rows without end fail an assertion. -/
theorem SlotInv.exec_full {k : ℕ} {l : ArrayLayout} (h : SlotInv k l) {rows : List Mem}
    (hfull : maxObjNum ≤ k + rows.length) :
    Lab1.exec ArrayLayout.addEntry l rows = .error .assertFailed := by
  have hle := h.le
  have hmax : maxObjNum = 32 := rfl
  induction rows generalizing k l with
  | nil =>
    rw [List.length_nil] at hfull
    omega
  | cons row rows ih =>
    rw [List.length_cons] at hfull
    rw [exec_cons_eq_error]
    by_cases hk : k < 31
    · obtain ⟨l', hadd⟩ := h.addEntry_isOk hk row
      have hinv := (h.addEntry hadd).2
      exact Or.inr ⟨l', 0, hadd, ih hinv (by omega) hinv.le⟩
    · -- slot `0` is the last one, and has no bit number
      obtain rfl : k = 31 := by omega
      exact Or.inl (h.addEntry_full row)

/-- The last slot is taken by the 32nd call, whatever the rows are. -/
theorem SlotInv.usesUp_iff {l₀ : ArrayLayout} (h₀ : SlotInv 0 l₀) {rows : List Mem} :
    UsesUp l₀ rows ↔ maxObjNum ≤ rows.length := by
  have hmax : maxObjNum = 32 := rfl
  constructor
  · rintro ⟨pre, row, post, l, outs, stack, val, rfl, hrun, hpop, hcap⟩
    have hinv := h₀.exec_addEntry hrun
    obtain ⟨rfl, rfl⟩ := ok_pair_inj (hinv.pop_eq.symm.trans hpop)
    -- `pop` leaves the slots below the one it gives out
    have hlast : 31 - pre.length = 0 := hcap
    rw [List.length_append, List.length_cons]
    omega
  · intro hfull
    have hlt : 31 < rows.length := by omega
    have hsplit : rows = rows.take 31 ++ rows[31] :: rows.drop (31 + 1) := by
      rw [List.getElem_cons_drop, List.take_append_drop]
    have hlen : (rows.take 31).length = 31 := List.length_take_of_le (by omega)
    have hroom : 0 + (rows.take 31).length ≤ 31 := by omega
    obtain ⟨l, outs, hrun⟩ := h₀.exec_addEntry_isOk hroom
    have hinv := h₀.exec_addEntry hrun
    rw [hlen] at hinv
    exact ⟨_, _, _, l, outs, _, _, hsplit, hrun, hinv.pop_eq, rfl⟩

/-- **A full layout rejects nothing.**  Calls that use up all slots of a new layout fail an
assertion, so that a further row is never rejected; and in any state without a free slot the call
for a further row fails an assertion itself. -/
theorem addEntry_never_rejects {alloc alloc' : MemAllocator} {shm : Chunk} {head : LayoutHeader}
    {sz : ℕ} {l₀ : ArrayLayout} (hnew : ArrayLayout.new alloc shm head sz = .ok (alloc', l₀))
    {rows : List Mem} (hfull : UsesUp l₀ rows) (row : Mem) :
    exec ArrayLayout.addEntry l₀ rows = .error .assertFailed ∧ ¬RejectsCleanly l₀ rows row ∧
      ∀ l : ArrayLayout, l.stack.getCapacity = 0 → l.addEntry row = .error .assertFailed := by
  have h₀ := (new_spec hnew).slotInv
  have hle := h₀.usesUp_iff.mp hfull
  have hfails : exec ArrayLayout.addEntry l₀ rows = .error .assertFailed :=
    h₀.exec_full (by omega)
  refine ⟨hfails, ?_, fun l hcap => addEntry_exhausted hcap row⟩
  rintro ⟨l, outs, _, _, hrun, _⟩
  rw [hfails] at hrun
  cases hrun

/-- Rows of the numbers `1 … 32`. -/
def numberRows : List Mem := (List.range 32).map fun i => Mem.ofList [UInt8.ofNat (i + 1), 0, 0, 0]

theorem addEntry_never_rejects_int : ∃ alloc' l₀,
    ArrayLayout.new freshAlloc zeroChunk intHeader maxArrayLaySz = .ok (alloc', l₀) ∧
      UsesUp l₀ numberRows ∧ exec ArrayLayout.addEntry l₀ numberRows = .error .assertFailed ∧
      ¬RejectsCleanly l₀ numberRows (fun _ => 0) ∧
      ∀ l : ArrayLayout, l.stack.getCapacity = 0 →
        l.addEntry (fun _ => 0) = .error .assertFailed := by
  obtain ⟨alloc', l₀, hnew⟩ := new_intHeader_isOk
  have hfull : UsesUp l₀ numberRows := by
    rw [(new_spec hnew).slotInv.usesUp_iff, numberRows, List.length_map, List.length_range]
    decide
  exact ⟨alloc', l₀, hnew, hfull, addEntry_never_rejects hnew hfull _⟩

/-- A table of one `int` column: the calls for 32 rows use up the slots, and the 33rd row is not
rejected. -/
theorem not_rejectsCleanly_33rd_row : ∃ alloc' l₀,
    ArrayLayout.new freshAlloc zeroChunk intHeader maxArrayLaySz = .ok (alloc', l₀) ∧
      UsesUp l₀ numberRows ∧ ¬RejectsCleanly l₀ numberRows fun _ => 0 := by
  obtain ⟨alloc', l₀, hnew⟩ := new_intHeader_isOk
  have h₀ := (new_spec hnew).slotInv
  have hlen : maxObjNum ≤ numberRows.length := by
    rw [numberRows, List.length_map, List.length_range]
    decide
  refine ⟨alloc', l₀, hnew, h₀.usesUp_iff.mpr hlen, ?_⟩
  rintro ⟨l, outs, _, _, hrun, _⟩
  rw [h₀.exec_full (by omega)] at hrun
  cases hrun

end Lab1.MemDb
