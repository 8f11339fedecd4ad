import Lab1.MemDb.Equiv.Headers
import Lab1.MemDb.Equiv.Lookup

/-!
# Refused messages and failing assertions

A create message that is refused has an effect all the same: both catalogues have been replaced by
new ones before the message is looked at (`sameTables_iff`).

The number of columns of a create message, and of conditions of a select message, is limited
by an assertion of the constructor that gets them, `0 < n` and `n ≤ 20` or `n < 20`.  The handlers
check `n ≤ 20`, one of them after the columns have been written, the other not at all.
`assertionsHold_iff` says which messages keep clear of the assertions.
-/

namespace Lab1.MemDb

/-! ### The two halves of `handle_create` -/

/-- The part of `handle_create` that reads the message and makes a header of it. -/
def createHeader (tgt : Target) (mem : Leftover) (msg : NetworkMsg) :
    Except Fault (ℤ ⊕ LayoutHeader) := do
  match ← createLoop tgt msg (maxNetMsg + 1) (createVars mem msg) with
  | .inl ret => return .inl ret
  | .inr vars =>
    if maxColNum < vars.colDefSz then return .inl (-1)
    return .inr { vars.header with sz := vars.colDefSz }

namespace FlowMngr

/-- The state after the first statements of `handle_create`. -/
def reset (s : FlowMngr) (mem : Leftover) : FlowMngr :=
  { s with tbNm2ArrLay := some mem.arrLay.init, tbNm2Pt := some mem.pt.init }

/-- The part of `handle_create` from the constructor of `ArrayLayout` on. -/
def registerTable (s : FlowMngr) (mem : Leftover) (msg : NetworkMsg) (header : LayoutHeader) :
    Except Fault (FlowMngr × ℤ) := do
  let (alloc, lay) ← ArrayLayout.new s.alloc mem.shm header maxArrayLaySz
  let name ← msg.readBytes 0 msg.layNmSz.toNat
  let pt ← mem.pt.init.register name lay.point
  let arrLay ← mem.arrLay.init.register name s.layouts.length
  return ({
    alloc
    tbNm2Pt := some pt
    tbNm2ArrLay := some arrLay
    layouts := s.layouts ++ [lay] }, 0)

variable {tgt : Target} {s s' : FlowMngr} {mem : Leftover} {msg : NetworkMsg} {ret : ℤ}

theorem handleCreate_eq :
    s.handleCreate tgt mem msg = createHeader tgt mem msg >>= fun r => match r with
      | .inl ret => .ok (s.reset mem, ret)
      | .inr header => s.registerTable mem msg header := by
  unfold handleCreate createHeader
  dsimp only [createVars]
  rcases createLoop tgt msg (maxNetMsg + 1) _ with f | ret | vars
  · rfl
  · rfl
  · simp only [ok_bind]
    split
    · rfl
    · rfl

theorem registerTable_ret {header : LayoutHeader}
    (h : s.registerTable mem msg header = .ok (s', ret)) : ret = 0 := by
  simp only [registerTable, bind_eq_ok] at h
  obtain ⟨_, _, _, _, _, _, _, _, h⟩ := h
  cases h
  rfl

/-- A message that is refused has replaced the catalogues. -/
theorem reset_of_refused (h : s.handleCreate tgt mem msg = .ok (s', ret)) (hneg : ret < 0) :
    s' = s.reset mem := by
  rw [handleCreate_eq] at h
  obtain ⟨ret' | header, _, h⟩ := bind_eq_ok.mp h
  · cases h
    rfl
  · rw [registerTable_ret h] at hneg
    exact absurd hneg (lt_irrefl 0)

/-! ### What a refused message leaves -/

/-- The entries of a catalogue, if there is one. -/
def entries {TYP : Type} : Option (TblNm2DataBuff TYP) → List (List UInt8 × TYP)
  | none => []
  | some t => (List.range t.indx).map fun i => ((t.tbNm i).bytes, t.data i)

/-- Both catalogues hold the same tables. -/
def SameTables (s s' : FlowMngr) : Prop :=
  entries s'.tbNm2ArrLay = entries s.tbNm2ArrLay ∧ entries s'.tbNm2Pt = entries s.tbNm2Pt

/-- No table is registered. -/
def NoTables (s : FlowMngr) : Prop := entries s.tbNm2ArrLay = [] ∧ entries s.tbNm2Pt = []

/-- **Rejected create messages.**  The catalogues hold after the call what they held before if and
only if they held nothing. -/
theorem sameTables_iff (h : s.handleCreate tgt mem msg = .ok (s', ret)) (hneg : ret < 0) :
    s.SameTables s' ↔ s.NoTables := by
  rw [reset_of_refused h hneg]
  have harr : entries (s.reset mem).tbNm2ArrLay = [] := rfl
  have hpt : entries (s.reset mem).tbNm2Pt = [] := rfl
  rw [SameTables, NoTables, harr, hpt]
  exact and_congr eq_comm eq_comm

end FlowMngr

/-- A message whose first length is zero. -/
def zeroLengthMsg : NetworkMsg := ⟨fun _ => 0, 0, 4, .CR⟩

theorem handleCreate_zeroLengthMsg (s : FlowMngr) (mem : Leftover) :
    s.handleCreate lp64 mem zeroLengthMsg = .ok (s.reset mem, -1) := by
  have hzero : ZeroAt zeroLengthMsg 0 := ⟨by decide, by decide⟩
  have hstop : (createGrammar lp64 zeroLengthMsg).Stop (createVars mem zeroLengthMsg).place :=
    Or.inl hzero
  have hloop : createLoop lp64 zeroLengthMsg (maxNetMsg + 1) (createVars mem zeroLengthMsg)
      = .ok (.inl (-1)) := by
    refine whileLoop_of_inl ?_ (createTuple_of_stop hstop)
    exact decide_eq_true (show 0 < 4 by decide)
  rw [FlowMngr.handleCreate_eq, createHeader, hloop]
  rfl

theorem sameTables_zeroLengthMsg :
    freshFlowMngr.SameTables (freshFlowMngr.reset (leftoverNe 0)) :=
  (FlowMngr.sameTables_iff (handleCreate_zeroLengthMsg freshFlowMngr (leftoverNe 0))
    (by decide)).mpr ⟨rfl, rfl⟩

/-- A table is created, and the next create message, which is refused, drops it. -/
theorem not_sameTables_second : ∃ s s',
    freshFlowMngr.handleCreate lp64 (leftoverNe 0) oneColumnMsg = .ok (s, 0) ∧
      s.handleCreate lp64 (leftoverNe 0) zeroLengthMsg = .ok (s', -1) ∧ ¬s.SameTables s' := by
  obtain ⟨s, hs⟩ := accepted_oneColumnMsg.isOk freshFlowMngr (leftoverNe 0)
  refine ⟨s, _, hs, handleCreate_zeroLengthMsg s (leftoverNe 0), ?_⟩
  obtain ⟨_, _, _, _, _, _, rfl⟩ := handleCreate_eq_zero.mp hs
  rintro ⟨harr, _⟩
  have hlen : 0 = 1 := congrArg List.length harr
  exact absurd hlen (by decide)

/-! ### The columns of a create message -/

/-- `handle_create` returns a negative number, or calls the constructor of `ArrayLayout` with a
header of at least one and less than `MAX_COL_NUM` columns. -/
def CreateSafe (tgt : Target) (mem : Leftover) (msg : NetworkMsg) : Prop :=
  (∃ ret < 0, createHeader tgt mem msg = .ok (.inl ret)) ∨
    ∃ header, createHeader tgt mem msg = .ok (.inr header) ∧
      1 ≤ header.sz ∧ header.sz < maxColNum

section Create

variable {tgt : Target} {mem : Leftover} {msg : NetworkMsg}

/-- The grammar has no more items than there are columns. -/
theorem col_le_of_createGrammar {ts : List CreateItem} {k k' : Place}
    (hpath : (createGrammar tgt msg).Path ts k k') (hk : k.col ≤ maxColNum) :
    k'.col ≤ maxColNum := by
  refine hpath.invariant (fun k => k.col ≤ maxColNum) ?_ hk
  rintro k t _ ⟨hcol, _⟩
  exact hcol

/-- The check behind the loop is never taken: the loop has left the array before. -/
theorem colDefSz_le_of_createLoop {vars : CreateVars}
    (hloop : createLoop tgt msg (maxNetMsg + 1) (createVars mem msg) = .ok (.inr vars)) :
    vars.colDefSz ≤ maxColNum := by
  have hreads := createTuple_reads tgt msg
  obtain ⟨⟨ts, hpath⟩, _⟩ := (hreads.ends_inr_iff (createVars mem msg) vars.place).mp
    ⟨vars, ⟨_, hloop⟩, rfl⟩
  exact col_le_of_createGrammar hpath (Nat.zero_le _)

theorem createHeader_inl :
    (∃ ret < 0, createHeader tgt mem msg = .ok (.inl ret)) ↔
      (createGrammar tgt msg).Refused ⟨0, msg.layNmSz.toNat, 0⟩ := by
  have hreads := createTuple_reads tgt msg
  rw [show (⟨0, msg.layNmSz.toNat, 0⟩ : Place) = (createVars mem msg).place from rfl,
    ← hreads.ends_inl_iff]
  simp only [createLoop_ends_iff]
  constructor
  · rintro ⟨ret, _, h⟩
    obtain ⟨x | vars, hloop, h⟩ := bind_eq_ok.mp h
    · exact ⟨x, hloop⟩
    · dsimp only at h
      rw [if_neg (colDefSz_le_of_createLoop hloop).not_gt] at h
      cases h
  · rintro ⟨ret, hloop⟩
    have hneg : ret < 0 := whileLoop_inl (P := fun ret => ret < 0) createTuple_neg hloop
    refine ⟨ret, hneg, ?_⟩
    rw [createHeader, hloop]
    rfl

theorem createHeader_inr {n : ℕ} :
    (∃ header, createHeader tgt mem msg = .ok (.inr header) ∧ header.sz = n) ↔
      ∃ k, ((∃ ts, (createGrammar tgt msg).Path ts ⟨0, msg.layNmSz.toNat, 0⟩ k) ∧
        ¬(createGrammar tgt msg).More k) ∧ k.col = n := by
  have hreads := createTuple_reads tgt msg
  rw [show (⟨0, msg.layNmSz.toNat, 0⟩ : Place) = (createVars mem msg).place from rfl]
  simp only [← hreads.ends_inr_iff, createLoop_ends_iff]
  constructor
  · rintro ⟨header, h, hsz⟩
    obtain ⟨x | vars, hloop, h⟩ := bind_eq_ok.mp h
    · cases h
    · refine ⟨vars.place, ⟨vars, hloop, rfl⟩, ?_⟩
      dsimp only at h
      split at h
      · cases h
      · cases h
        exact hsz
  · rintro ⟨k, ⟨vars, hloop, rfl⟩, hcol⟩
    refine ⟨{ vars.header with sz := vars.colDefSz }, ?_, hcol⟩
    rw [createHeader, hloop, ok_bind]
    exact if_neg (colDefSz_le_of_createLoop hloop).not_gt

theorem createSafe_iff (tgt : Target) (mem : Leftover) (msg : NetworkMsg) :
    CreateSafe tgt mem msg ↔
      (createGrammar tgt msg).Refused ⟨0, msg.layNmSz.toNat, 0⟩ ∨
        ∃ k, ((∃ ts, (createGrammar tgt msg).Path ts ⟨0, msg.layNmSz.toNat, 0⟩ k) ∧
          ¬(createGrammar tgt msg).More k) ∧ 1 ≤ k.col ∧ k.col < maxColNum := by
  rw [CreateSafe, createHeader_inl]
  refine or_congr_right ⟨?_, ?_⟩
  · rintro ⟨header, h, hbounds⟩
    obtain ⟨k, hread, hcol⟩ := createHeader_inr.mp ⟨header, h, rfl⟩
    exact ⟨k, hread, hcol ▸ hbounds⟩
  · rintro ⟨k, hread, hbounds⟩
    obtain ⟨header, h, hsz⟩ := createHeader_inr.mpr ⟨k, hread, rfl⟩
    exact ⟨header, h, hsz ▸ hbounds⟩

end Create

/-! ### The conditions of a select message -/

namespace FlowMngr

/-- The part of `handle_select` up to the constructor of `Comparable`. -/
def buildQuery (s : FlowMngr) (cols : ℕ → BufferSz) (vals : ℕ → RawVal) (msg : NetworkMsg) :
    Except Fault (ℤ ⊕ ArrayLayout × Comparable) := do
  match ← s.locate msg with
  | .inl ret => return .inl ret
  | .inr lay =>
    match ← readQuery cols vals msg with
    | .inl ret => return .inl ret
    | .inr vars => do
      let l ← s.deref lay
      let comp ← Comparable.new ((List.range vars.idx).map vars.cols)
        ((List.range vars.idx).map vars.vals) l.header
      return .inr (l, comp)

/-- `handle_select` returns a negative number, or builds a `Comparable` of one to `MAX_COL_NUM`
conditions. -/
def SelectSafe (s : FlowMngr) (cols : ℕ → BufferSz) (vals : ℕ → RawVal) (msg : NetworkMsg) : Prop :=
  (∃ ret < 0, s.handleSelect cols vals msg = .ok (s, ret)) ∨
    ∃ l comp, s.buildQuery cols vals msg = .ok (.inr (l, comp)) ∧
      1 ≤ comp.sz ∧ comp.sz ≤ maxColNum

/-- No layout has more columns than fit in a header. -/
def ColumnsFit (s : FlowMngr) : Prop := ∀ l ∈ s.layouts, l.header.sz ≤ maxColNum

variable {s : FlowMngr} {cols : ℕ → BufferSz} {vals : ℕ → RawVal} {msg : NetworkMsg}

theorem mem_of_deref {lay : ℕ} {l : ArrayLayout} (h : s.deref lay = .ok l) : l ∈ s.layouts := by
  unfold deref at h
  split at h
  · cases h
  · next hget =>
    cases h
    exact List.mem_of_getElem? hget

theorem columnsFit_fresh : freshFlowMngr.ColumnsFit := fun _ hl => absurd hl List.not_mem_nil

/-- The constructor of `ArrayLayout` sees to it. -/
theorem ColumnsFit.handleCreate {tgt : Target} {s' : FlowMngr} {mem : Leftover} {ret : ℤ}
    (hfit : s.ColumnsFit) (h : s.handleCreate tgt mem msg = .ok (s', ret)) : s'.ColumnsFit := by
  rw [handleCreate_eq] at h
  obtain ⟨ret' | header, _, h⟩ := bind_eq_ok.mp h
  · cases h
    exact hfit
  · simp only [registerTable, bind_eq_ok] at h
    obtain ⟨⟨alloc, lay⟩, hnew, _, _, _, _, _, _, h⟩ := h
    cases h
    have hbuilt := ArrayLayout.new_spec hnew
    intro l hl
    rcases List.mem_append.mp hl with hl | hl
    · exact hfit l hl
    · rw [List.mem_singleton.mp hl, hbuilt.header_sz]
      exact hbuilt.head_sz.le

/-- It holds after every sequence of create messages. -/
theorem columnsFit_of_exec {tgt : Target} {ops : List (NetworkMsg × Leftover)} {s' : FlowMngr}
    {rets : List ℤ} (hfit : s.ColumnsFit) (hrun : exec (createStep tgt) s ops = .ok (s', rets)) :
    s'.ColumnsFit :=
  exec_invariant (fun _ s => s.ColumnsFit) (fun _ _ _ _ _ hfit hstep => hfit.handleCreate hstep)
    hfit hrun

theorem handleSelect_eq :
    s.handleSelect cols vals msg = s.buildQuery cols vals msg >>= fun r => match r with
      | .inl ret => .ok (s, ret)
      | .inr (l, comp) => do
        let res ← l.findEntry comp
        if res.length = 0 then return (s, -2)
        return (s, 0) := by
  unfold handleSelect buildQuery
  rcases s.locate msg with f | ret | lay
  · rfl
  · rfl
  rcases readQuery cols vals msg with f | ret | vars
  · rfl
  · rfl
  simp only [ok_bind]
  rcases s.deref lay with f | l
  · rfl
  simp only [ok_bind]
  rcases Comparable.new _ _ l.header with f | comp
  · rfl
  · rfl

/-- The tuples of the message, up to the place where they are all read. -/
def ReadUpTo (msg : NetworkMsg) (k : Place) : Prop :=
  (∃ ns, (selectGrammar msg).Path ns ⟨0, msg.layNmSz.toNat, 0⟩ k) ∧ ¬(selectGrammar msg).More k

theorem readQuery_inl (cols : ℕ → BufferSz) (vals : ℕ → RawVal) (msg : NetworkMsg) :
    (∃ ret, readQuery cols vals msg = .ok (.inl ret)) ↔
      (selectGrammar msg).Refused ⟨0, msg.layNmSz.toNat, 0⟩ := by
  have hplace : (⟨0, msg.layNmSz.toNat, 0⟩ : Place)
      = SelectVars.place ⟨cols, vals, 0, msg.layNmSz.toNat, 0⟩ := rfl
  rw [hplace, ← (selectTuple_reads msg).ends_inl_iff]
  simp only [selectLoop_ends_iff, readQuery]

theorem readQuery_inr (cols : ℕ → BufferSz) (vals : ℕ → RawVal) (msg : NetworkMsg) (k : Place) :
    (∃ vars, readQuery cols vals msg = .ok (.inr vars) ∧ vars.place = k) ↔ ReadUpTo msg k := by
  have hplace : (⟨0, msg.layNmSz.toNat, 0⟩ : Place)
      = SelectVars.place ⟨cols, vals, 0, msg.layNmSz.toNat, 0⟩ := rfl
  rw [ReadUpTo, hplace, ← (selectTuple_reads msg).ends_inr_iff]
  simp only [selectLoop_ends_iff, readQuery]

theorem ReadUpTo.col_le {k : Place} (h : ReadUpTo msg k) : k.col ≤ maxColNum := by
  obtain ⟨⟨ns, hpath⟩, _⟩ := h
  refine hpath.invariant (fun k => k.col ≤ maxColNum) ?_ (Nat.zero_le _)
  rintro k n _ ⟨hcol, _⟩
  exact hcol

theorem readQuery_neg {ret : ℤ} (h : readQuery cols vals msg = .ok (.inl ret)) : ret < 0 :=
  whileLoop_inl (P := fun ret => ret < 0) selectTuple_neg h

/-- The query is refused while it is read, or read to its end. -/
theorem buildQuery_inl (s : FlowMngr) (cols : ℕ → BufferSz) (vals : ℕ → RawVal) (msg : NetworkMsg)
    (ret : ℤ) :
    s.buildQuery cols vals msg = .ok (.inl ret) ↔
      (∃ lay, s.locate msg = .ok (.inr lay)) ∧ readQuery cols vals msg = .ok (.inl ret) := by
  constructor
  · intro h
    obtain ⟨ret' | lay, hlay, h⟩ := bind_eq_ok.mp h
    · exact absurd hlay (locate_ne_inl s msg ret')
    · obtain ⟨ret' | vars, hread, h⟩ := bind_eq_ok.mp h
      · cases h
        exact ⟨⟨lay, hlay⟩, hread⟩
      · simp only [bind_eq_ok] at h
        obtain ⟨_, _, _, _, h⟩ := h
        cases h
  · rintro ⟨⟨lay, hlay⟩, hread⟩
    rw [buildQuery, hlay, ok_bind]
    dsimp only
    rw [hread]
    rfl

theorem buildQuery_eq_inr {l : ArrayLayout} {comp : Comparable} :
    s.buildQuery cols vals msg = .ok (.inr (l, comp)) ↔ ∃ lay vars,
      s.locate msg = .ok (.inr lay) ∧ readQuery cols vals msg = .ok (.inr vars) ∧
        s.deref lay = .ok l ∧ Comparable.new ((List.range vars.idx).map vars.cols)
          ((List.range vars.idx).map vars.vals) l.header = .ok comp := by
  constructor
  · intro h
    obtain ⟨ret | lay, hlay, h⟩ := bind_eq_ok.mp h
    · exact absurd hlay (locate_ne_inl s msg ret)
    obtain ⟨ret | vars, hread, h⟩ := bind_eq_ok.mp h
    · cases h
    simp only [bind_eq_ok] at h
    obtain ⟨l', hderef, comp', hcomp, h⟩ := h
    cases h
    exact ⟨lay, vars, hlay, hread, hderef, hcomp⟩
  · rintro ⟨lay, vars, hlay, hread, hderef, hcomp⟩
    rw [buildQuery, hlay, ok_bind]
    dsimp only
    rw [hread, ok_bind]
    dsimp only
    rw [hderef, ok_bind, hcomp]
    rfl

/-- The conditions of the query are the tuples of the message. -/
theorem buildQuery_inr (hfit : s.ColumnsFit) (cols : ℕ → BufferSz) (vals : ℕ → RawVal)
    (msg : NetworkMsg) (n : ℕ) :
    (∃ l comp, s.buildQuery cols vals msg = .ok (.inr (l, comp)) ∧ comp.sz = n) ↔
      ∃ lay l k, s.locate msg = .ok (.inr lay) ∧ s.deref lay = .ok l ∧ 0 < l.header.sz ∧
        ReadUpTo msg k ∧ 1 ≤ k.col ∧ k.col = n := by
  have hlen : ∀ vars : SelectVars, ((List.range vars.idx).map vars.cols).length = vars.idx := by
    intro vars
    rw [List.length_map, List.length_range]
  have hlens : ∀ vars : SelectVars, ((List.range vars.idx).map vars.vals).length
      = ((List.range vars.idx).map vars.cols).length := by
    intro vars
    rw [List.length_map, List.length_map]
  constructor
  · rintro ⟨l, comp, h, hsz⟩
    obtain ⟨lay, vars, hlay, hread, hderef, hcomp⟩ := buildQuery_eq_inr.mp h
    obtain ⟨hcompsz, hpos, _, hhead⟩ := Comparable.sz_of_new (hlens vars) hcomp
    rw [hlen] at hcompsz hpos
    have hupto := (readQuery_inr cols vals msg vars.place).mp ⟨vars, hread, rfl⟩
    exact ⟨lay, l, vars.place, hlay, hderef, hhead, hupto, hpos, hcompsz.symm.trans hsz⟩
  · rintro ⟨lay, l, k, hlay, hderef, hhead, hupto, hpos, hn⟩
    have hcol := hupto.col_le
    obtain ⟨vars, hread, rfl⟩ := (readQuery_inr cols vals msg k).mpr hupto
    -- the table's own header lets the constructor look the columns up
    obtain ⟨comp, hcomp⟩ := Comparable.exists_new ((List.range vars.idx).map vars.cols)
      ((List.range vars.idx).map vars.vals) ((hlen vars).symm ▸ hpos) ((hlen vars).symm ▸ hcol)
      hhead (hfit l (mem_of_deref hderef))
    refine ⟨l, comp, buildQuery_eq_inr.mpr ⟨lay, vars, hlay, hread, hderef, hcomp⟩, ?_⟩
    rw [(Comparable.sz_of_new (hlens vars) hcomp).1, hlen]
    exact hn

theorem selectSafe_iff (hfit : s.ColumnsFit) (cols : ℕ → BufferSz) (vals : ℕ → RawVal)
    (msg : NetworkMsg) :
    s.SelectSafe cols vals msg ↔ ∃ lay, s.locate msg = .ok (.inr lay) ∧
      ((selectGrammar msg).Refused ⟨0, msg.layNmSz.toNat, 0⟩ ∨
        ∃ l k, s.deref lay = .ok l ∧ 0 < l.header.sz ∧ ReadUpTo msg k ∧ 1 ≤ k.col) := by
  rw [SelectSafe, handleSelect_eq]
  constructor
  · rintro (⟨ret, _, h⟩ | ⟨l, comp, h, _⟩)
    · obtain ⟨ret' | ⟨l, comp⟩, hquery, _⟩ := bind_eq_ok.mp h
      · obtain ⟨⟨lay, hlay⟩, hread⟩ := (buildQuery_inl s cols vals msg ret').mp hquery
        exact ⟨lay, hlay, Or.inl ((readQuery_inl _ _ _).mp ⟨ret', hread⟩)⟩
      · obtain ⟨lay, l', k, hlay, hderef, hhead, hupto, hpos, _⟩ :=
          (buildQuery_inr hfit _ _ _ _).mp ⟨l, comp, hquery, rfl⟩
        exact ⟨lay, hlay, Or.inr ⟨l', k, hderef, hhead, hupto, hpos⟩⟩
    · obtain ⟨lay, l', k, hlay, hderef, hhead, hupto, hpos, _⟩ :=
        (buildQuery_inr hfit _ _ _ _).mp ⟨l, comp, h, rfl⟩
      exact ⟨lay, hlay, Or.inr ⟨l', k, hderef, hhead, hupto, hpos⟩⟩
  · rintro ⟨lay, hlay, hrefused | ⟨l, k, hderef, hhead, hupto, hpos⟩⟩
    · obtain ⟨ret, hread⟩ := (readQuery_inl cols vals msg).mpr hrefused
      have hquery := (buildQuery_inl s cols vals msg ret).mpr ⟨⟨lay, hlay⟩, hread⟩
      refine Or.inl ⟨ret, readQuery_neg hread, ?_⟩
      rw [hquery]
      rfl
    · obtain ⟨l', comp, hquery, hsz⟩ := (buildQuery_inr hfit cols vals msg _).mpr
        ⟨lay, l, k, hlay, hderef, hhead, hupto, hpos, rfl⟩
      exact Or.inr ⟨l', comp, hquery, hsz ▸ hpos, hsz ▸ hupto.col_le⟩

end FlowMngr

/-! ### Both handlers -/

/-- **Assertions.**  A create message keeps clear of the assertions if and only if it is refused
while it is read, or has one to 19 columns; a select message if and only if its table is found and
it is refused while it is read, or has a condition and the table a column. -/
theorem assertionsHold_iff (tgt : Target) (mem : Leftover) {s : FlowMngr} (hfit : s.ColumnsFit)
    (cols : ℕ → BufferSz) (vals : ℕ → RawVal) (msg : NetworkMsg) :
    (CreateSafe tgt mem msg ↔
      (createGrammar tgt msg).Refused ⟨0, msg.layNmSz.toNat, 0⟩ ∨
        ∃ k, ((∃ ts, (createGrammar tgt msg).Path ts ⟨0, msg.layNmSz.toNat, 0⟩ k) ∧
          ¬(createGrammar tgt msg).More k) ∧ 1 ≤ k.col ∧ k.col < maxColNum) ∧
    (s.SelectSafe cols vals msg ↔ ∃ lay, s.locate msg = .ok (.inr lay) ∧
      ((selectGrammar msg).Refused ⟨0, msg.layNmSz.toNat, 0⟩ ∨
        ∃ l k, s.deref lay = .ok l ∧ 0 < l.header.sz ∧ FlowMngr.ReadUpTo msg k ∧ 1 ≤ k.col)) :=
  ⟨createSafe_iff tgt mem msg, FlowMngr.selectSafe_iff hfit cols vals msg⟩

/-- A second create message after a first one has been accepted. -/
theorem createSafe_oneColumnMsg : ∃ s,
    exec (createStep lp64) freshFlowMngr [(oneColumnMsg, leftoverNe 0)] = .ok (s, [0]) ∧
      CreateSafe lp64 (leftoverNe 0) oneColumnMsg := by
  obtain ⟨hmore, hitem, _⟩ := oneColumnMsg_fits
  obtain ⟨s, hs⟩ := accepted_oneColumnMsg.isOk freshFlowMngr (leftoverNe 0)
  have hrun : exec (createStep lp64) freshFlowMngr [(oneColumnMsg, leftoverNe 0)] = .ok (s, [0]) :=
    exec_singleton_eq_ok.mpr ⟨0, hs, rfl⟩
  refine ⟨s, hrun, (assertionsHold_iff lp64 (leftoverNe 0)
    (FlowMngr.columnsFit_of_exec FlowMngr.columnsFit_fresh hrun) (fun _ => ⟨0, fun _ => 0⟩)
    (fun _ => RawVal.ofMem (fun _ => 0) 0) oneColumnMsg).1.mpr
    (Or.inr ⟨⟨1, 16, 15⟩, ⟨?_, ?_⟩, ?_⟩)⟩
  · exact ⟨[⟨4, 3⟩], hmore, hitem, rfl⟩
  · show ¬15 < 15
    decide
  · decide

/-- A table without columns. -/
def noColumnsMsg : NetworkMsg := { oneColumnMsg with paramSz := 0 }

/-- The constructor is called with a header without columns. -/
theorem not_createSafe_noColumnsMsg : ¬CreateSafe lp64 (leftoverNe 0) noColumnsMsg := by
  rw [createSafe_iff]
  rintro (⟨k, _, hmore, _⟩ | ⟨k, ⟨⟨ts, hpath⟩, _⟩, hpos, _⟩)
  · exact absurd hmore (Nat.not_lt_zero _)
  · rcases ts with _ | ⟨t, ts⟩
    · cases hpath
      exact absurd hpos (by decide)
    · exact absurd hpath.1 (Nat.not_lt_zero _)

end Lab1.MemDb
