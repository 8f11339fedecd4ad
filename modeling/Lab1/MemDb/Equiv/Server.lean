import Lab1.MemDb.Equiv.Matching
import Lab1.MemDb.Equiv.Refusals
import Lab1.MemDb.Server

/-!
# What the server holds

`Held` is all that the catalogues of the server ever hold: nothing before the first create message,
and after it the table of the last create message, if that was accepted.  Which messages are
accepted depends on the messages alone, so `heldAfter` is a function of them, and every run of the
server ends with catalogues that are as it says (`holds_heldAfter`).

The handlers call neither `addEntry` nor `updateEntry`, so the layouts stay as their constructor has
left them: no run stores a row, and no select message finds one (`noRows_run`).
-/

namespace Lab1.MemDb

open FlowMngr

/-! ### The abstract server -/

/-- What the catalogues hold. -/
inductive Held where
  /-- there are no catalogues -/
  | unset
  | empty
  | table (nm : List UInt8)

open Classical in
/-- A create message replaces the table, be it by nothing; the others change nothing. -/
noncomputable def Held.next (tgt : Target) (h : Held) (msg : NetworkMsg) : Held :=
  match msg.qTyp with
  | .CR => if Accepted tgt msg then .table msg.layNm else .empty
  | _ => h

noncomputable def heldAfter (tgt : Target) (msgs : List NetworkMsg) : Held :=
  msgs.foldl (Held.next tgt) .unset

/-- The create messages that are accepted. -/
def Creates (tgt : Target) (msg : NetworkMsg) : Prop := msg.qTyp = .CR ∧ Accepted tgt msg

open Classical in
noncomputable def created (tgt : Target) (msgs : List NetworkMsg) : ℕ :=
  msgs.countP fun msg => decide (Creates tgt msg)

/-- The table is the layout made last, and both catalogues have it, and it alone. -/
structure OnlyTable (s : FlowMngr) (nm : List UInt8) : Prop where
  cap : nm.length ≤ bufferCap
  entry : ∃ front lay, s.layouts = front ++ [lay] ∧
    (∃ arr : TblNm2DataBuff ℕ, s.tbNm2ArrLay = some (arr.single nm front.length)) ∧
    ∃ pt : TblNm2DataBuff Pointer, s.tbNm2Pt = some (pt.single nm lay.point)

/-- The catalogues of `s` are as `h` says. -/
def FlowMngr.Holds (s : FlowMngr) : Held → Prop
  | .unset => s.tbNm2ArrLay = none ∧ s.tbNm2Pt = none
  | .empty => ∃ arr pt, s.tbNm2ArrLay = some arr ∧ s.tbNm2Pt = some pt ∧ arr.indx = 0 ∧ pt.indx = 0
  | .table nm => OnlyTable s nm

/-! ### One message -/

section Step

variable {tgt : Target} {s s' : FlowMngr} {turn : Turn} {mem : Leftover} {msg : NetworkMsg}
  {ret : ℤ}

/-- **What a create message does.** -/
theorem handleCreate_cases (h : s.handleCreate tgt mem msg = .ok (s', ret)) :
    (ret = 0 ∧ Accepted tgt msg ∧ OnlyTable s' msg.layNm ∧
      ∃ lay, s'.layouts = s.layouts ++ [lay] ∧ SlotInv 0 lay) ∨
    (ret ≠ 0 ∧ ¬Accepted tgt msg ∧ s' = s.reset mem) := by
  by_cases hret : ret = 0
  · subst hret
    obtain ⟨_, alloc, lay, _, hnew, hcap, rfl⟩ := handleCreate_eq_zero.mp h
    have hlen : msg.layNm.length = msg.layNmSz.toNat := Mem.length_read _ _ _
    exact Or.inl ⟨rfl, ⟨_, _, _, h⟩, ⟨hlen ▸ hcap, _, lay, rfl, ⟨_, rfl⟩, _, rfl⟩, lay, rfl,
      (ArrayLayout.new_spec hnew).slotInv⟩
  · refine Or.inr ⟨hret, fun hacc => ?_, ?_⟩
    · -- an accepted message is accepted in every state
      obtain ⟨t, hok⟩ := hacc.isOk s mem
      obtain ⟨-, rfl⟩ := ok_pair_inj (h.symm.trans hok)
      exact hret rfl
    · rw [handleCreate_eq] at h
      obtain ⟨ret' | header, _, h⟩ := bind_eq_ok.mp h
      · cases h
        rfl
      · exact absurd (registerTable_ret h) hret

/-- An insert message changes nothing. -/
theorem handleInsert_state {buff colName : Mem}
    (h : s.handleInsert buff colName msg = .ok (s', ret)) : s' = s := by
  unfold handleInsert at h
  obtain ⟨ret' | lay, _, h⟩ := bind_eq_ok.mp h
  · cases h
    rfl
  · obtain ⟨l, _, h⟩ := bind_eq_ok.mp h
    obtain ⟨ret' | v, _, h⟩ := bind_eq_ok.mp h
    · cases h
      rfl
    · cases h
      rfl

/-- A select message changes nothing; what it answers is what it finds in a layout. -/
theorem handleSelect_cases {cols : ℕ → BufferSz} {vals : ℕ → RawVal}
    (h : s.handleSelect cols vals msg = .ok (s', ret)) :
    s' = s ∧ (ret ≠ 0 ∨ ∃ l ∈ s.layouts, ∃ comp res, l.findEntry comp = .ok res ∧ res ≠ []) := by
  rw [handleSelect_eq] at h
  obtain ⟨ret' | ⟨l, comp⟩, hquery, h⟩ := bind_eq_ok.mp h
  · cases h
    refine ⟨rfl, Or.inl (readQuery_neg ((buildQuery_inl _ _ _ _ _).mp hquery).2).ne⟩
  · obtain ⟨lay, vars, _, _, hderef, _⟩ := buildQuery_eq_inr.mp hquery
    obtain ⟨res, hfind, h⟩ := bind_eq_ok.mp h
    split_ifs at h with hnone
    · cases h
      exact ⟨rfl, Or.inl (by decide)⟩
    · cases h
      refine ⟨rfl, Or.inr ⟨l, mem_of_deref hderef, comp, res, hfind, ?_⟩⟩
      rintro rfl
      exact hnone rfl

/-- A message that is no create message leaves the server as it is. -/
theorem runTurn_state (hcr : turn.msg.qTyp ≠ .CR) (h : s.runTurn tgt turn = .ok (s', ret)) :
    s' = s := by
  unfold runTurn at h
  split at h
  · exact absurd ‹_› hcr
  · exact handleInsert_state h
  · cases h
    rfl
  · exact (handleSelect_cases h).1

theorem runTurn_create (hcr : turn.msg.qTyp = .CR) :
    s.runTurn tgt turn = s.handleCreate tgt turn.mem turn.msg := by
  rw [runTurn, hcr]

theorem holds_start (alloc : MemAllocator) : (FlowMngr.start alloc).Holds .unset := ⟨rfl, rfl⟩

/-- **The step of the refinement.** -/
theorem holds_runTurn {h : Held} (hs : s.Holds h) (hstep : s.runTurn tgt turn = .ok (s', ret)) :
    s'.Holds (h.next tgt turn.msg) := by
  by_cases hcr : turn.msg.qTyp = .CR
  · rw [runTurn_create hcr] at hstep
    unfold Held.next
    rw [hcr]
    dsimp only
    rcases handleCreate_cases hstep with ⟨-, hacc, htable, -⟩ | ⟨-, hacc, rfl⟩
    · rw [if_pos hacc]
      exact htable
    · -- a message that is refused has reset the catalogues before
      rw [if_neg hacc]
      exact ⟨_, _, rfl, rfl, rfl, rfl⟩
  · obtain rfl := runTurn_state hcr hstep
    have hsame : h.next tgt turn.msg = h := by
      unfold Held.next
      split
      · exact absurd ‹_› hcr
      · rfl
    rwa [hsame]

open Classical in
theorem length_layouts_runTurn (hstep : s.runTurn tgt turn = .ok (s', ret)) :
    s'.layouts.length = s.layouts.length + created tgt [turn.msg] ∧
      (turn.msg.qTyp = .CR → (ret = 0 ↔ Accepted tgt turn.msg)) := by
  by_cases hcr : turn.msg.qTyp = .CR
  · rw [runTurn_create hcr] at hstep
    rcases handleCreate_cases hstep with ⟨hret, hacc, -, lay, hlay, -⟩ | ⟨hret, hacc, rfl⟩
    · have hone : created tgt [turn.msg] = 1 :=
        List.countP_cons_of_pos (by simp [Creates, hcr, hacc])
      rw [hlay, List.length_append, hone]
      exact ⟨rfl, fun _ => iff_of_true hret hacc⟩
    · have hzero : created tgt [turn.msg] = 0 := List.countP_cons_of_neg (by simp [Creates, hacc])
      rw [hzero]
      exact ⟨rfl, fun _ => iff_of_false hret hacc⟩
  · obtain rfl := runTurn_state hcr hstep
    have hzero : created tgt [turn.msg] = 0 := List.countP_cons_of_neg (by simp [Creates, hcr])
    rw [hzero]
    exact ⟨rfl, fun h => absurd h hcr⟩

/-- Every layout is as its constructor has left it. -/
def NoRows (s : FlowMngr) : Prop := ∀ l ∈ s.layouts, SlotInv 0 l

theorem NoRows.runTurn (hs : NoRows s) (hstep : s.runTurn tgt turn = .ok (s', ret)) :
    NoRows s' := by
  by_cases hcr : turn.msg.qTyp = .CR
  · rw [runTurn_create hcr] at hstep
    rcases handleCreate_cases hstep with ⟨-, -, -, lay, hlay, hinv⟩ | ⟨-, -, rfl⟩
    · intro l hl
      rw [hlay] at hl
      rcases List.mem_append.mp hl with hl | hl
      · exact hs l hl
      · rwa [List.mem_singleton.mp hl]
    · exact hs
  · rwa [runTurn_state hcr hstep]

theorem SlotInv.on_eq_false {l : ArrayLayout} (h : SlotInv 0 l) (o : ℕ) : on l o = false := by
  rw [h.on_eq, decide_eq_false_iff_not]
  omega

/-- In a layout without rows nothing is found. -/
theorem SlotInv.findEntry_nil {l : ArrayLayout} (h : SlotInv 0 l) {comp : Comparable}
    {res : List Result} (hfind : l.findEntry comp = .ok res) : res = [] := by
  have hnone : l.scanned = [] := List.filter_eq_nil_iff.mpr fun o _ => by simp [h.on_eq_false o]
  rw [findEntry_of_scanned_nil h.getSz_pos hnone] at hfind
  exact (Except.ok.inj hfind).symm

theorem SlotInv.liveSlots_nil {l : ArrayLayout} (h : SlotInv 0 l) : l.liveSlots = [] := by
  rw [h.liveSlots_eq]
  exact List.filter_eq_nil_iff.mpr fun o _ => by simp [h.on_eq_false o]

theorem NoRows.select_ne_zero (hs : NoRows s) (hsel : turn.msg.qTyp = .SEL)
    (hstep : s.runTurn tgt turn = .ok (s', ret)) : ret ≠ 0 := by
  rw [FlowMngr.runTurn, hsel] at hstep
  rcases (handleSelect_cases hstep).2 with hret | ⟨l, hl, comp, res, hfind, hne⟩
  · exact hret
  · exact absurd ((hs l hl).findEntry_nil hfind) hne

end Step

/-! ### Runs -/

section Runs

variable {tgt : Target} {alloc : MemAllocator} {turns : List Turn} {s : FlowMngr} {rets : List ℤ}

/-- **The server has one table at most.**  After every run from the start, the catalogues hold what
the create messages of the run say, the layouts are as many as the create messages that were
accepted, and a create message returned zero if and only if it is one of those. -/
theorem holds_heldAfter
    (hrun : exec (FlowMngr.runTurn tgt) (FlowMngr.start alloc) turns = .ok (s, rets)) :
    s.Holds (heldAfter tgt (turns.map Turn.msg)) ∧
      s.layouts.length = created tgt (turns.map Turn.msg) ∧
      ∀ p ∈ turns.zip rets, p.1.msg.qTyp = .CR → (p.2 = 0 ↔ Accepted tgt p.1.msg) := by
  have hhist := exec_history_invariant (fun hist s =>
    s.Holds (heldAfter tgt (hist.map fun p => p.1.msg)) ∧
      s.layouts.length = created tgt (hist.map fun p => p.1.msg) ∧
      ∀ p ∈ hist, p.1.msg.qTyp = .CR → (p.2 = 0 ↔ Accepted tgt p.1.msg)) ?_ ?_ hrun
  · have hmap : (turns.zip rets).map (fun p => p.1.msg) = turns.map Turn.msg := by
      rw [show (fun p : Turn × ℤ => p.1.msg) = Turn.msg ∘ Prod.fst from rfl, ← List.map_map,
        List.map_fst_zip (length_exec hrun).ge]
    rwa [hmap] at hhist
  · rintro hist s turn s' ret ⟨hheld, hlen, hrets⟩ hstep
    obtain ⟨hlen', hret⟩ := length_layouts_runTurn hstep
    rw [List.map_append]
    refine ⟨?_, ?_, ?_⟩
    · rw [heldAfter, List.foldl_append]
      exact holds_runTurn hheld hstep
    · rw [hlen', hlen]
      exact List.countP_append.symm
    · intro p hp
      rcases List.mem_append.mp hp with hp | hp
      · exact hrets p hp
      · rw [List.mem_singleton.mp hp]
        exact hret
  · exact ⟨holds_start alloc, rfl, fun p hp => absurd hp List.not_mem_nil⟩

/-- **No row is ever stored or found.** -/
theorem noRows_run
    (hrun : exec (FlowMngr.runTurn tgt) (FlowMngr.start alloc) turns = .ok (s, rets)) :
    (∀ l ∈ s.layouts, l.liveSlots = []) ∧
      ∀ p ∈ turns.zip rets, p.1.msg.qTyp = .SEL → p.2 ≠ 0 := by
  have hhist := exec_history_invariant (fun hist s =>
    NoRows s ∧ ∀ p ∈ hist, p.1.msg.qTyp = .SEL → p.2 ≠ 0) ?_ ?_ hrun
  · exact ⟨fun l hl => (hhist.1 l hl).liveSlots_nil, hhist.2⟩
  · rintro hist s turn s' ret ⟨hrows, hrets⟩ hstep
    refine ⟨hrows.runTurn hstep, fun p hp hsel => ?_⟩
    rcases List.mem_append.mp hp with hp | hp
    · exact hrets p hp hsel
    · obtain rfl := List.mem_singleton.mp hp
      exact hrows.select_ne_zero hsel hstep
  · exact ⟨fun l hl => absurd hl List.not_mem_nil, fun p hp => absurd hp List.not_mem_nil⟩

end Runs

/-! ### A table is made and asked for -/

/-- A turn on memory that holds zeros. -/
def turnOf (msg : NetworkMsg) : Turn where
  msg
  mem := leftoverNe 0
  cols _ := ⟨0, fun _ => 0⟩
  vals _ := RawVal.ofMem (fun _ => 0) 0
  buff _ := 0
  colName _ := 0

/-- The table `t` is created; then its rows are asked for whose column `col1` has a certain
value. -/
def createThenSelect : List Turn := [turnOf oneColumnMsg, turnOf { oneColumnMsg with qTyp := .SEL }]

theorem exec_createThenSelect :
    ∃ s, exec (runTurn lp64) (FlowMngr.start freshAlloc) createThenSelect = .ok (s, [0, -2]) :=
  ⟨_, rfl⟩

theorem holds_createThenSelect : ∃ s : FlowMngr,
    exec (runTurn lp64) (FlowMngr.start freshAlloc) createThenSelect = .ok (s, [0, -2]) ∧
      s.Holds (heldAfter lp64 (createThenSelect.map Turn.msg)) ∧
      s.layouts.length = created lp64 (createThenSelect.map Turn.msg) ∧
      ∀ p ∈ createThenSelect.zip [0, -2], p.1.msg.qTyp = .CR →
        (p.2 = 0 ↔ Accepted lp64 p.1.msg) := by
  obtain ⟨s, hrun⟩ := exec_createThenSelect
  exact ⟨s, hrun, holds_heldAfter hrun⟩

theorem noRows_createThenSelect : ∃ s : FlowMngr,
    exec (runTurn lp64) (FlowMngr.start freshAlloc) createThenSelect = .ok (s, [0, -2]) ∧
      (∀ l ∈ s.layouts, l.liveSlots = []) ∧
      ∀ p ∈ createThenSelect.zip [0, -2], p.1.msg.qTyp = .SEL → p.2 ≠ 0 := by
  obtain ⟨s, hrun⟩ := exec_createThenSelect
  exact ⟨s, hrun, noRows_run hrun⟩

end Lab1.MemDb
