import Lab1.MemDb.Equiv.Update
import Mathlib.Data.List.Nodup

/-!
# A layout as a table

What an `ArrayLayout` is for: rows are added, looked up by the values of some of their columns, and
changed.  A `Table` is that, without slots, bits or addresses.  The layout does what the table does
over whole runs (`simulatesTable`), as long as

* the `loc` of each column is the sum of the sizes before it, and a row fits a result,
* there are no more than 15 rows, so that no object behind the slots has its bit set,
* the rows that a search does not select pass, one after the other, fewer conditions than there are,
* and an update is one of a single column, in one row at most.

`delEntry` removes nothing, so all that the table does there is to count.
-/

namespace Lab1.MemDb

open ArrayLayout Carry

/-! ### The table -/

namespace LayoutHeader

variable (h : LayoutHeader)

/-- Column `j` of a packed row. -/
def field (j : ℕ) (row : List UInt8) : List UInt8 :=
  (row.drop (h.offset j)).take (h.columns j).typsz

/-- The row with the bytes `bs` in column `j`. -/
def setField (j : ℕ) (bs row : List UInt8) : List UInt8 :=
  row.take (h.offset j) ++ bs ++ row.drop (h.offset j + bs.length)

end LayoutHeader

/-- Column `col` has the first bytes of `val`. -/
structure ColCond where
  col : ℕ
  val : RawVal

/-- The rows with their numbers in the order in which they were added, the newest first. -/
abbrev Table := List (ℕ × List UInt8)

inductive TableOp where
  | add (row : Mem)
  | find (conds : List ColCond)
  | update (cond : ColCond) (buff : BufferSz)
  | del (conds : List ColCond)

inductive TableOut where
  | status (n : ℤ)
  | found (rows : Table)

section Spec

variable (h : LayoutHeader)

/-- The condition holds of a row. -/
def ColCond.holds (c : ColCond) (row : List UInt8) : Bool :=
  decide (h.field c.col row = c.val.toList.take (h.columns c.col).typsz)

/-- All conditions hold of a row. -/
def selects (conds : List ColCond) (p : ℕ × List UInt8) : Bool :=
  conds.all fun c => c.holds h p.2

def Table.step (t : Table) : TableOp → Table × TableOut
  | .add row => ((t.length, row.read 0 (h.offset h.sz)) :: t, .status 0)
  | .find conds => (t, .found (t.filter (selects h conds)))
  | .update c b =>
    (t.map fun p => if selects h [c] p then (p.1, h.setField c.col b.bytes p.2) else p,
      .status (t.countP (selects h [c])))
  | .del conds => (t, .status (t.countP (selects h conds)))

/-- The condition can be evaluated. -/
def ColCond.Fits (c : ColCond) : Prop := c.col < h.sz ∧ (h.columns c.col).typsz ≤ 8

/-- The conditions can be evaluated, and none that hold of a row are counted for another one. -/
structure Searchable (t : Table) (conds : List ColCond) : Prop where
  ne_nil : conds ≠ []
  fits : ∀ c ∈ conds, c.Fits h
  quiet : Quiet conds.length (fun p => conds.countP fun c => c.holds h p.2) t

/-- What the layout can do with a table. -/
def TableOp.Fits (t : Table) : TableOp → Prop
  | .add _ => t.length < 15
  | .find conds => Searchable h t conds
  | .update c b => c.Fits h ∧ b.sz = (h.columns c.col).typsz ∧ t.countP (selects h [c]) ≤ 1
  | .del conds => Searchable h t conds

/-- How a layout with the header `h` is asked. -/
def ColCond.cond (c : ColCond) : Cond := ⟨some (h.columns c.col), c.val⟩

def TableOp.call : TableOp → LayoutOp
  | .add row => .addEntry row
  | .find conds => .findEntry ⟨conds.map (ColCond.cond h)⟩
  | .update c b => .updateEntry ⟨[c.cond h]⟩ [b]
  | .del conds => .delEntry ⟨conds.map (ColCond.cond h)⟩

end Spec

/-- Row number `n` is in slot `31 - n`. -/
def entry (p : ℕ × List UInt8) : Result := ⟨p.2, 31 - p.1⟩

/-- The answer of a layout. -/
def TableOut.out : TableOut → LayoutOut
  | .status n => .status n
  | .found rows => .found (rows.map entry)

/-! ### A layout beside a table -/

/-- Every column is where the columns before it end, and a row fits a result. -/
structure Packed (h : LayoutHeader) : Prop where
  loc : ∀ j < h.sz, (h.columns j).loc = h.offset j
  le : h.offset h.sz ≤ bufferCap

/-- The rows of `t` are in the slots of `l`, which has the header `h`. -/
structure Represents (h : LayoutHeader) (l : ArrayLayout) (t : Table) : Prop where
  slots : SlotInv t.length l
  length_le : t.length ≤ 15
  header : l.header = h
  totTypSz : l.totTypSz = h.offset h.sz
  numbers : t.map Prod.fst = (List.range t.length).reverse
  rows : ∀ p ∈ t, l.data.read ((31 - p.1) * l.totTypSz) l.totTypSz = p.2

section Represents

variable {h : LayoutHeader} {l l' : ArrayLayout} {t : Table} {p q : ℕ × List UInt8}
  {conds : List ColCond} {c : ColCond} {b : BufferSz}

theorem Represents.lt_length (hrep : Represents h l t) (hp : p ∈ t) : p.1 < t.length := by
  have hmem : p.1 ∈ t.map Prod.fst := List.mem_map_of_mem hp
  rw [hrep.numbers, List.mem_reverse] at hmem
  exact List.mem_range.mp hmem

theorem Represents.eq_of_fst (hrep : Represents h l t) (hp : p ∈ t) (hq : q ∈ t)
    (heq : p.1 = q.1) : p = q := by
  have hnodup : (t.map Prod.fst).Nodup := by
    rw [hrep.numbers, List.nodup_reverse]
    exact List.nodup_range
  exact List.inj_on_of_nodup_map hnodup hp hq heq

theorem Represents.rowAddr_eq (hrep : Represents h l t) (hh : Packed h) {s : ℕ} (hs : s ≤ 31) :
    l.rowAddr s = s * l.totTypSz := by
  have hcap : bufferCap = 1024 := rfl
  have htot : l.totTypSz ≤ 1024 := by
    rw [hrep.totTypSz, ← hcap]
    exact hh.le
  have hle : s * l.totTypSz ≤ 31 * 1024 := Nat.mul_le_mul hs htot
  exact u32_of_lt (by omega)

/-- Rows with different numbers do not overlap. -/
theorem apart_of_ne {m n : ℕ} (hm : m ≤ 31) (hn : n ≤ 31) (hne : m ≠ n) (size : ℕ) :
    (31 - m) * size + size ≤ (31 - n) * size ∨ (31 - n) * size + size ≤ (31 - m) * size := by
  rcases Nat.lt_or_gt_of_ne hne with hlt | hlt
  · right
    rw [← Nat.succ_mul]
    exact Nat.mul_le_mul_right size (by omega)
  · left
    rw [← Nat.succ_mul]
    exact Nat.mul_le_mul_right size (by omega)

/-! #### Adding a row -/

theorem Represents.add (hrep : Represents h l t) (hh : Packed h) (hlt : t.length < 15)
    (row : Mem) :
    ∃ l', l.addEntry row = .ok (l', 0) ∧
      Represents h l' ((t.length, row.read 0 (h.offset h.sz)) :: t) := by
  have hcap : bufferCap = 1024 := rfl
  have hsize := hh.le
  obtain ⟨l', hadd⟩ := hrep.slots.addEntry_isOk (by omega) row
  have hload := addEntry_loaded hadd
  have haddr := hrep.rowAddr_eq hh (Nat.sub_le 31 t.length)
  have hdata := hrep.slots.addEntry_data (by rw [hrep.header]; omega) hadd
  have hlen : (row.read 0 (h.offset h.sz)).length = l.totTypSz := by
    rw [Mem.length_read, hrep.totTypSz]
  rw [hrep.header] at hdata
  change l'.data = l.data.write (l.rowAddr (31 - t.length)) _ at hdata
  rw [haddr] at hdata
  refine ⟨l', hadd, (hrep.slots.addEntry hadd).2, hlt, hload.header.trans hrep.header,
    hload.totTypSz.trans hrep.totTypSz, ?_, ?_⟩
  · rw [List.map_cons, hrep.numbers, List.length_cons, List.range_succ, List.reverse_append]
    rfl
  · rw [hload.totTypSz]
    refine List.forall_mem_cons.mpr ⟨?_, fun q hq => ?_⟩
    · -- the new row
      have hread := l.data.read_write ((31 - t.length) * l.totTypSz)
        (row.read 0 (h.offset h.sz))
      rwa [hlen, ← hdata] at hread
    · have hq31 := hrep.lt_length hq
      rw [hdata, Mem.read_write_of_apart, hrep.rows q hq]
      rw [hlen]
      exact apart_of_ne (by omega) (by omega) (by omega) l.totTypSz

/-! #### Searching -/

/-- The slots are taken from the top. -/
theorem filter_range_maxObjNum : ∀ k ≤ 15,
    (List.range maxObjNum).filter (fun s => decide (32 - k ≤ s))
      = (List.range k).reverse.map (31 - ·) := by decide

theorem Represents.liveSlots_eq (hrep : Represents h l t) :
    l.liveSlots = t.map fun p => 31 - p.1 := by
  have hcap := hrep.slots.capacity
  have hmax : maxObjNum = 32 := rfl
  have hle := hrep.length_le
  have hnumbers : (t.map fun p => 31 - p.1) = (List.range t.length).reverse.map (31 - ·) := by
    rw [← hrep.numbers, List.map_map]
    rfl
  have hheld : ∀ s, s ∉ l.stack.held ↔ 32 - t.length ≤ s := by
    intro s
    rw [hrep.slots.held_eq, List.mem_range]
    omega
  rw [hnumbers, ArrayLayout.liveSlots]
  simp only [hheld]
  exact filter_range_maxObjNum _ hle

theorem Represents.repeated_eq_nil (hrep : Represents h l t) : l.repeated = [] := by
  have hle := hrep.length_le
  rw [ArrayLayout.repeated, List.filter_eq_nil_iff, hrep.slots.on_eq]
  intro o ho
  have ho := List.mem_range'_1.mp ho
  rw [decide_eq_true_eq, BitMap.pos]
  omega

/-- A condition sees the column of the row that is in the slot. -/
theorem Represents.test_cond (hrep : Represents h l t) (hh : Packed h) (hp : p ∈ t)
    (hc : c.Fits h) : (c.cond h).test l.data (l.rowAddr (31 - p.1)) = c.holds h p.2 := by
  have hend := h.offset_add_typsz_le hc.1
  have hfield : h.field c.col p.2 = l.data.read
      (l.rowAddr (31 - p.1) + (h.columns c.col).loc) (h.columns c.col).typsz := by
    rw [hrep.rowAddr_eq hh (Nat.sub_le 31 p.1), hh.loc c.col hc.1, LayoutHeader.field,
      ← hrep.rows p hp, hrep.totTypSz, Mem.drop_read _ _ (by omega), Mem.take_read _ _ (by omega)]
  rw [ColCond.holds, hfield, Cond.test, ColCond.cond]
  exact decide_eq_decide.mpr eq_comm

theorem Represents.rowAt_eq (hrep : Represents h l t) (hh : Packed h) (hp : p ∈ t) :
    l.rowAt (31 - p.1) = entry p := by
  rw [ArrayLayout.rowAt, hrep.rowAddr_eq hh (Nat.sub_le 31 p.1), hrep.rows p hp]
  rfl

/-- The number of conditions that hold of a row. -/
theorem Represents.passes_eq (hrep : Represents h l t) (hh : Packed h) (hp : p ∈ t)
    (hfits : ∀ c ∈ conds, c.Fits h) :
    passes l ⟨conds.map (ColCond.cond h)⟩ (31 - p.1) = conds.countP fun c => c.holds h p.2 := by
  rw [passes, List.countP_map]
  refine List.countP_congr fun c hc => ?_
  have htest := hrep.test_cond hh hp (hfits c hc)
  rw [Function.comp_apply, htest]

theorem Represents.rowMatches_iff (hrep : Represents h l t) (hh : Packed h) (hp : p ∈ t)
    (hfits : ∀ c ∈ conds, c.Fits h) :
    RowMatches l ⟨conds.map (ColCond.cond h)⟩ (31 - p.1) ↔ selects h conds p = true := by
  rw [RowMatches, selects, List.all_eq_true, List.forall_mem_map]
  refine forall₂_congr fun c hc => ?_
  rw [hrep.test_cond hh hp (hfits c hc)]

theorem ready_map_cond (hfits : ∀ c ∈ conds, c.Fits h) :
    ∀ c ∈ (⟨conds.map (ColCond.cond h)⟩ : Comparable).conds, c.Ready := by
  refine List.forall_mem_map.mpr fun c hc => ?_
  exact ⟨h.columns c.col, rfl, (hfits c hc).2⟩

/-- **A search of the layout** finds what the table has. -/
theorem Represents.findEntry (hrep : Represents h l t) (hh : Packed h)
    (hconds : Searchable h t conds) :
    l.findEntry ⟨conds.map (ColCond.cond h)⟩
      = .ok ((t.filter (selects h conds)).map entry) := by
  have hfits := hconds.fits
  have hne : (⟨conds.map (ColCond.cond h)⟩ : Comparable).conds ≠ [] :=
    fun hnil => hconds.ne_nil (List.map_eq_nil_iff.mp hnil)
  have hsz : (⟨conds.map (ColCond.cond h)⟩ : Comparable).sz = conds.length := List.length_map _
  have hcap : l.totTypSz ≤ bufferCap := by
    rw [hrep.totTypSz]
    exact hh.le
  have hquiet : Quiet conds.length (passes l ⟨conds.map (ColCond.cond h)⟩)
      (t.map fun p => 31 - p.1) := by
    apply Quiet.map
    refine hconds.quiet.congr fun p hp => ?_
    exact (hrep.passes_eq hh hp hfits).symm
  -- no slot is looked at twice, so that only the conditions left over from other rows matter
  have hexact : ExactFind l ⟨conds.map (ColCond.cond h)⟩ := by
    rw [hrep.slots.exactFind_iff_quiet hne (ready_map_cond hfits), hrep.repeated_eq_nil,
      List.append_nil, hrep.liveSlots_eq, hsz]
    exact ⟨Or.inl hcap, hquiet, fun o ho => absurd ho List.not_mem_nil⟩
  rw [ExactFind, hrep.liveSlots_eq, List.filter_map, List.map_map] at hexact
  rw [hexact]
  have hfilter : t.filter ((fun s => decide (RowMatches l ⟨conds.map (ColCond.cond h)⟩ s)) ∘
      fun p => 31 - p.1) = t.filter (selects h conds) := by
    refine List.filter_congr fun p hp => ?_
    rw [Function.comp_apply, Bool.eq_iff_iff, decide_eq_true_eq]
    exact hrep.rowMatches_iff hh hp hfits
  rw [hfilter]
  refine congrArg Except.ok (List.map_congr_left fun p hp => ?_)
  exact hrep.rowAt_eq hh (List.mem_of_mem_filter hp)

/-! #### Deleting, and updating -/

/-- No bit is set, so there is no row. -/
theorem Represents.eq_nil_of_bits (hrep : Represents h l t) (hbits : l.bitMap.bits = 0) :
    t = [] := by
  by_contra hne
  have hpos := List.length_pos_iff.mpr hne
  have hle := hrep.length_le
  have hbit := hrep.slots.bits 30
  have hzero : (0 : UInt32).toNat = 0 := rfl
  rw [hbits, hzero, Nat.zero_testBit, decide_eq_true (by omega)] at hbit
  cases hbit

theorem Represents.delEntry (hrep : Represents h l t) (hh : Packed h)
    (hconds : Searchable h t conds) :
    l.delEntry ⟨conds.map (ColCond.cond h)⟩ = .ok (l, (t.countP (selects h conds) : ℕ)) := by
  rw [ArrayLayout.delEntry, require_true hrep.slots.getSz_pos, ok_bind]
  split_ifs with hbits
  · rw [hrep.eq_nil_of_bits hbits]
    rfl
  · rw [hrep.findEntry hh hconds, ok_bind, List.length_map, ← List.countP_eq_length_filter]
    rfl

theorem searchable_singleton (t : Table) (hc : c.Fits h) : Searchable h t [c] where
  ne_nil := List.cons_ne_nil c []
  fits := List.forall_mem_singleton.mpr hc
  quiet := quiet_one _ t

/-- What is in the slots after one column of the row in one of them is written. -/
theorem Represents.setField (hrep : Represents h l t) (hc : c.Fits h)
    (hb : b.sz = (h.columns c.col).typsz) (hp : p ∈ t) (hq : q ∈ t) :
    (l.data.write ((31 - p.1) * l.totTypSz + h.offset c.col) b.bytes).read
        ((31 - q.1) * l.totTypSz) l.totTypSz
      = if q = p then h.setField c.col b.bytes q.2 else q.2 := by
  have hend := h.offset_add_typsz_le hc.1
  have htot := hrep.totTypSz
  have hlen : b.bytes.length = (h.columns c.col).typsz := by rw [b.length_bytes, hb]
  have hple := hrep.length_le
  have hp31 := hrep.lt_length hp
  have hq31 := hrep.lt_length hq
  split_ifs with heq
  · rw [heq, Mem.read_write_inside _ _ (by omega), hrep.rows p hp]
    rfl
  · -- the rows of different slots are apart
    have hne : p.1 ≠ q.1 := fun hfst => heq (hrep.eq_of_fst hq hp hfst.symm)
    rw [Mem.read_write_of_apart, hrep.rows q hq]
    rcases apart_of_ne (by omega) (by omega) hne l.totTypSz with hapart | hapart
    · right
      omega
    · left
      omega

/-- An update that selects no row leaves the table as it is. -/
theorem map_of_filter_eq_nil {f : ℕ × List UInt8 → ℕ × List UInt8}
    (hnil : t.filter (selects h conds) = []) :
    (t.map fun p => if selects h conds p then f p else p) = t := by
  have hmap : (t.map fun p => if selects h conds p then f p else p) = t.map id :=
    List.map_congr_left fun p hp => if_neg (List.filter_eq_nil_iff.mp hnil p hp)
  rw [hmap, List.map_id]

/-- The table after an update of the only row that is selected. -/
theorem map_of_filter_eq_singleton {f : ℕ × List UInt8 → ℕ × List UInt8}
    (hsel : t.filter (selects h conds) = [p]) :
    (t.map fun q => if selects h conds q then f q else q)
      = t.map fun q => if q = p then f q else q := by
  refine List.map_congr_left fun q hq => ?_
  have hmem : selects h conds q = true ↔ q = p := by
    have hfilter : q ∈ t.filter (selects h conds) ↔ q ∈ t ∧ selects h conds q = true :=
      List.mem_filter
    rw [hsel, List.mem_singleton] at hfilter
    rw [hfilter]
    exact (and_iff_right hq).symm
  by_cases heq : q = p
  · rw [if_pos (hmem.mpr heq), if_pos heq]
  · rw [if_neg fun hq' => heq (hmem.mp hq'), if_neg heq]

/-- The layout after an update of the only row that is selected. -/
theorem Represents.update_one (hrep : Represents h l t) (hc : c.Fits h)
    (hb : b.sz = (h.columns c.col).typsz) (hp : p ∈ t) :
    Represents h { l with
        data := l.data.write ((31 - p.1) * l.totTypSz + h.offset c.col) b.bytes }
      (t.map fun q => if q = p then (q.1, h.setField c.col b.bytes q.2) else q) := by
  have hslots := hrep.slots
  have hfst : ∀ q, (if q = p then (q.1, h.setField c.col b.bytes q.2) else q).1 = q.1 := by
    intro q
    split_ifs
    · rfl
    · rfl
  have hlength : (t.map fun q => if q = p then
      (q.1, h.setField c.col b.bytes q.2) else q).length = t.length := List.length_map _
  refine ⟨?_, hlength ▸ hrep.length_le, hrep.header, hrep.totTypSz, ?_, ?_⟩
  · rw [hlength]
    exact ⟨hslots.stack_sz, hslots.capacity, hslots.pstack, hslots.le, hslots.bits⟩
  · rw [hlength, ← hrep.numbers, List.map_map]
    exact List.map_congr_left fun q _ => hfst q
  · refine List.forall_mem_map.mpr fun q hq => ?_
    rw [hfst]
    refine (hrep.setField hc hb hp hq).trans ?_
    split_ifs
    · rfl
    · rfl

/-- **An update** of one column in one row at most. -/
theorem Represents.update (hrep : Represents h l t) (hh : Packed h) (hc : c.Fits h)
    (hb : b.sz = (h.columns c.col).typsz) (hcount : t.countP (selects h [c]) ≤ 1) :
    ∃ l', l.updateEntry ⟨[c.cond h]⟩ [b] = .ok (l', t.countP (selects h [c])) ∧
      Represents h l' (t.map fun p =>
        if selects h [c] p then (p.1, h.setField c.col b.bytes p.2) else p) := by
  have hcap : b.sz ≤ bufferCap := by
    have h8 := hc.2
    have hbuff : bufferCap = 1024 := rfl
    omega
  have hfind := hrep.findEntry hh (searchable_singleton t hc)
  have hupd := updateEntry_single (l := l) rfl rfl hcap hfind
  rw [List.countP_eq_length_filter] at hcount ⊢
  rw [List.length_map] at hupd
  refine ⟨_, hupd, ?_⟩
  rcases hsel : t.filter (selects h [c]) with _ | ⟨p, rest⟩
  · rw [map_of_filter_eq_nil hsel]
    exact hrep
  · obtain rfl : rest = [] := by
      rw [hsel, List.length_cons] at hcount
      exact List.eq_nil_of_length_eq_zero (by omega)
    have hp : p ∈ t := List.mem_of_mem_filter (hsel ▸ List.mem_singleton_self p)
    have haddr : l.fieldAddr (h.columns c.col) (entry p).index
        = (31 - p.1) * l.totTypSz + h.offset c.col := by
      rw [fieldAddr, ← hh.loc c.col hc.1, ← hrep.rowAddr_eq hh (Nat.sub_le 31 p.1)]
      rfl
    -- the pointer is at the start of the data area when it is moved to the row
    have hdata : l.data.writeAll (sumsFrom 0 (([p].map entry).map fun r =>
          l.fieldAddr (h.columns c.col) r.index)) b.bytes
        = l.data.write ((31 - p.1) * l.totTypSz + h.offset c.col) b.bytes := by
      rw [← haddr]
      show l.data.write (0 + l.fieldAddr (h.columns c.col) (entry p).index) b.bytes = _
      rw [Nat.zero_add]
    rw [hdata, map_of_filter_eq_singleton hsel]
    exact hrep.update_one hc hb hp

/-! #### One step, and runs -/

theorem Represents.step (hrep : Represents h l t) (hh : Packed h) (op : TableOp)
    (hop : op.Fits h t) :
    ∃ l', l.step (op.call h) = .ok (l', (Table.step h t op).2.out) ∧
      Represents h l' (Table.step h t op).1 := by
  cases op with
  | add row =>
    obtain ⟨l', hadd, hrep'⟩ := hrep.add hh hop row
    refine ⟨l', ?_, hrep'⟩
    rw [TableOp.call, ArrayLayout.step, hadd]
    rfl
  | find conds =>
    refine ⟨l, ?_, hrep⟩
    rw [TableOp.call, ArrayLayout.step, hrep.findEntry hh hop]
    rfl
  | update c b =>
    obtain ⟨hc, hb, hcount⟩ := hop
    obtain ⟨l', hupd, hrep'⟩ := hrep.update hh hc hb hcount
    refine ⟨l', ?_, hrep'⟩
    rw [TableOp.call, ArrayLayout.step, hupd]
    rfl
  | del conds =>
    refine ⟨l, ?_, hrep⟩
    rw [TableOp.call, ArrayLayout.step, hrep.delEntry hh hop]
    rfl

end Represents

end Lab1.MemDb
