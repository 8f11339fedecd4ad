import Lab1.MemDb.Equiv.Slots
import Lab1.MemDb.Equiv.TupleLoops

/-!
# Tables created one after the other

`handle_create` makes two new catalogues each time it is called; the test for the first call is
commented out.  So after a create message that is accepted, both catalogues have exactly one
entry, the one of this message (`handleCreate_eq_zero`), and tables created before can no longer be
found.

Whether a message is accepted depends on the message alone (`Accepted.isOk`), not on what the memory
used for it holds.
-/

namespace Lab1.MemDb

open ArrayLayout

/-! ### The property -/

/-- One create message, and what the memory that its handling takes holds. -/
def createStep (tgt : Target) (s : FlowMngr) (op : NetworkMsg × Leftover) :
    Except Fault (FlowMngr × ℤ) := s.handleCreate tgt op.2 op.1

/-- The table of `msg` is found, its datum is the layout number `j`, and the other catalogue has
the same name at the same index. -/
def TableFound (s : FlowMngr) (msg : NetworkMsg) (j : ℕ) : Prop :=
  ∃ cat pt, ∃ idx : ℕ, s.tbNm2ArrLay = some cat ∧ s.tbNm2Pt = some pt ∧
    cat.findTbIdx msg.buff msg.layNmSz.toNat = .ok idx ∧ cat.data idx = j ∧
    (cat.tbNm idx).bytes = msg.layNm ∧ (pt.tbNm idx).bytes = msg.layNm

/-- After all messages, each of their tables is found with the layout that its own message built:
the one at the position where the list of layouts ended before. -/
def NoTableLost (tgt : Target) (s₀ : FlowMngr) (msgs : List NetworkMsg) : Prop :=
  ∀ ops : List (NetworkMsg × Leftover), ops.map Prod.fst = msgs →
    ∀ s rets, exec (createStep tgt) s₀ ops = .ok (s, rets) → (∀ ret ∈ rets, ret = 0) →
    ∀ pre op post s₁ rets₁, ops = pre ++ op :: post →
      exec (createStep tgt) s₀ pre = .ok (s₁, rets₁) → TableFound s op.1 s₁.layouts.length

/-- `handle_create` can return zero for this message. -/
def Accepted (tgt : Target) (msg : NetworkMsg) : Prop :=
  ∃ s mem s', FlowMngr.handleCreate tgt s mem msg = .ok (s', 0)

/-! ### One create message -/

/-- A catalogue with one entry, on the memory `t`. -/
def TblNm2DataBuff.single {TYP : Type} (t : TblNm2DataBuff TYP) (nm : List UInt8) (datum : TYP) :
    TblNm2DataBuff TYP where
  tbNm := Function.update t.tbNm 0 ((t.tbNm 0).set nm)
  data := Function.update t.data 0 datum
  indx := 1

section Single

variable {TYP : Type} (t : TblNm2DataBuff TYP) (nm : List UInt8) (datum : TYP)

@[simp] theorem TblNm2DataBuff.single_data : (t.single nm datum).data 0 = datum := by
  simp [single]

@[simp] theorem TblNm2DataBuff.single_tbNm : (t.single nm datum).tbNm 0 = (t.tbNm 0).set nm := by
  simp [single]

theorem TblNm2DataBuff.single_tbNm_one : (t.single nm datum).tbNm 1 = t.tbNm 1 := by
  simp [single]

end Single

theorem register_init {TYP : Type} {t t' : TblNm2DataBuff TYP} {nm : List UInt8} {datum : TYP} :
    t.init.register nm datum = .ok t' ↔ nm.length ≤ bufferCap ∧ t' = t.single nm datum := by
  unfold TblNm2DataBuff.register
  rw [bind_eq_ok]
  constructor
  · rintro ⟨_, hreq, hpure⟩
    cases hpure
    exact ⟨(require_eq_ok.mp hreq).2, rfl⟩
  · rintro ⟨hlen, rfl⟩
    have hzero : t.init.indx < maxTblNm := by
      show 0 < 256
      decide
    exact ⟨(), require_true ⟨hzero, hlen⟩, rfl⟩

/-- The variables with which `handle_create` enters its loop. -/
def createVars (mem : Leftover) (msg : NetworkMsg) : CreateVars :=
  ⟨mem.header, mem.type, 0, msg.layNmSz.toNat, 0⟩

/-- **What an accepted create message does.** -/
theorem handleCreate_eq_zero {tgt : Target} {s s' : FlowMngr} {mem : Leftover} {msg : NetworkMsg} :
    s.handleCreate tgt mem msg = .ok (s', 0) ↔ ∃ vars alloc lay,
      createLoop tgt msg (maxNetMsg + 1) (createVars mem msg) = .ok (.inr vars) ∧
      ArrayLayout.new s.alloc mem.shm { vars.header with sz := vars.colDefSz } maxArrayLaySz
        = .ok (alloc, lay) ∧
      msg.layNmSz.toNat ≤ bufferCap ∧
      s' = ⟨alloc, some (mem.pt.single msg.layNm lay.point),
        some (mem.arrLay.single msg.layNm s.layouts.length), s.layouts ++ [lay]⟩ := by
  unfold FlowMngr.handleCreate
  rw [bind_eq_ok]
  have hlen : msg.layNm.length = msg.layNmSz.toNat := Mem.length_read _ _ _
  constructor
  · rintro ⟨ret | vars, hloop, h⟩
    · -- the loop returns only negative numbers
      have hneg : ret < 0 := whileLoop_inl (P := fun ret => ret < 0) createTuple_neg hloop
      cases h
      exact absurd hneg (lt_irrefl 0)
    · simp only at h
      split_ifs at h with hmax
      · cases h
      simp only [bind_eq_ok] at h
      obtain ⟨⟨alloc, lay⟩, hnew, name, hname, pt, hpt, arrLay, harr, hpure⟩ := h
      obtain ⟨_, rfl⟩ := NetworkMsg.readBytes_eq_ok.mp hname
      obtain ⟨hcap, rfl⟩ := register_init.mp hpt
      obtain ⟨_, rfl⟩ := register_init.mp harr
      cases hpure
      exact ⟨vars, alloc, lay, hloop, hnew, hlen ▸ hcap, rfl⟩
  · rintro ⟨vars, alloc, lay, hloop, hnew, hcap, rfl⟩
    refine ⟨.inr vars, hloop, ?_⟩
    have hmax : ¬maxColNum < vars.colDefSz := (new_spec hnew).head_sz.not_gt
    have hin : 0 + msg.layNmSz.toNat ≤ maxNetMsg := by
      have hcap' : bufferCap ≤ maxNetMsg := by decide
      omega
    simp only [if_neg hmax, hnew, ok_bind, NetworkMsg.readBytes_of_le hin]
    have hreg : ∀ {TYP : Type} (t : TblNm2DataBuff TYP) (datum : TYP),
        t.init.register msg.layNm datum = .ok (t.single msg.layNm datum) :=
      fun t datum => register_init.mpr ⟨hlen ▸ hcap, rfl⟩
    rw [NetworkMsg.layNm] at hreg
    rw [hreg, ok_bind, hreg, ok_bind]
    rfl

/-- The columns read so far have names that fit. -/
def NamesFit (v : CreateVars) : Prop :=
  ∀ i < v.colDefSz, (v.header.columns i).name.sz ≤ bufferCap

theorem NamesFit.turn {tgt : Target} {msg : NetworkMsg} {v v' : CreateVars} (h : NamesFit v)
    (hbody : createTuple tgt msg v = .ok (.inr v')) : NamesFit v' := by
  rcases createTuple_cases hbody with ⟨hret, _⟩ | ⟨t, v'', hv, ⟨_, htext, _⟩, hplace, hheader⟩
  · cases hret
  · cases hv
    have hcol : v'.colDefSz = v.colDefSz + 1 := congrArg Place.col hplace
    intro i hi
    rw [hheader, LayoutHeader.setColumn]
    show ((Function.update v.header.columns v.colDefSz _) i).name.sz ≤ bufferCap
    -- the loop has checked nothing, but the copy of a longer name would have faulted
    by_cases hlast : i = v.colDefSz
    · subst hlast
      rw [Function.update_self, CreateVars.column, BufferSz.set_sz, Mem.length_read]
      exact htext.le
    · rw [Function.update_of_ne hlast]
      exact h i (by omega)

/-- Tuple after tuple, at most 19 of them, up to the end of the parameters. -/
theorem Accepted.exists_path {tgt : Target} {msg : NetworkMsg} (h : Accepted tgt msg) :
    msg.layNmSz.toNat ≤ bufferCap ∧ ∃ k : Place, k.col < maxColNum ∧
      (∃ ts, (createGrammar tgt msg).Path ts ⟨0, msg.layNmSz.toNat, 0⟩ k) ∧
      ¬(createGrammar tgt msg).More k := by
  obtain ⟨s, mem, s', h⟩ := h
  obtain ⟨vars, alloc, lay, hloop, hnew, hcap, _⟩ := handleCreate_eq_zero.mp h
  have hpath := ((createTuple_reads tgt msg).ends_inr_iff (createVars mem msg) vars.place).mp
    ⟨vars, ⟨_, hloop⟩, rfl⟩
  exact ⟨hcap, vars.place, (new_spec hnew).head_sz, hpath⟩

theorem handleCreate_isOk {tgt : Target} (msg : NetworkMsg) (hcap : msg.layNmSz.toNat ≤ bufferCap)
    {k : Place} (hcol : k.col < maxColNum)
    (hpath : ∃ ts, (createGrammar tgt msg).Path ts ⟨0, msg.layNmSz.toNat, 0⟩ k)
    (hlast : ¬(createGrammar tgt msg).More k) (s : FlowMngr) (mem : Leftover) :
    ∃ s', s.handleCreate tgt mem msg = .ok (s', 0) := by
  obtain ⟨vars, hends, rfl⟩ :=
    ((createTuple_reads tgt msg).ends_inr_iff (createVars mem msg) k).mpr ⟨hpath, hlast⟩
  have hloop := createLoop_ends_iff.mp hends
  have hnone : NamesFit (createVars mem msg) := fun i hi => absurd hi (Nat.not_lt_zero i)
  have hnames : NamesFit vars :=
    (whileLoop_invariant NamesFit (fun v v' hv _ hbody => hv.turn hbody) hnone hloop).1
  have hpos : 0 < s.alloc.vmem + u32 (maxArrayLaySz + sizeofArrayLayoutData) :=
    Nat.add_pos_right _ (by decide)
  obtain ⟨alloc, lay, hnew⟩ := new_isOk s.alloc mem.shm
    { vars.header with sz := vars.colDefSz } maxArrayLaySz hpos hcol hnames
  exact ⟨_, handleCreate_eq_zero.mpr ⟨vars, alloc, lay, hloop, hnew, hcap, rfl⟩⟩

/-- A message that is accepted once is accepted in every state and on any memory. -/
theorem Accepted.isOk {tgt : Target} {msg : NetworkMsg} (h : Accepted tgt msg) (s : FlowMngr)
    (mem : Leftover) : ∃ s', s.handleCreate tgt mem msg = .ok (s', 0) := by
  obtain ⟨hcap, k, hcol, hpath, hlast⟩ := h.exists_path
  exact handleCreate_isOk msg hcap hcol hpath hlast s mem

theorem Accepted.le {tgt : Target} {msg : NetworkMsg} (h : Accepted tgt msg) :
    msg.layNmSz.toNat ≤ bufferCap := h.exists_path.1

/-! ### Looking up -/

section Lookup

variable {TYP : Type} {t : TblNm2DataBuff TYP} {nm : List UInt8} {datum : TYP}
  {msg : NetworkMsg}

theorem u16_layNmSz (h : msg.layNmSz.toNat ≤ bufferCap) :
    u16 msg.layNmSz.toNat = msg.layNmSz.toNat := by
  have hcap : bufferCap = 1024 := rfl
  exact Nat.mod_eq_of_lt (by omega)

theorem findTbIdx_single_self (h : msg.layNmSz.toNat ≤ bufferCap) :
    (t.single msg.layNm datum).findTbIdx msg.buff msg.layNmSz.toNat = .ok 0 := by
  have hsz : ((t.single msg.layNm datum).tbNm 0).sz = msg.layNmSz.toNat := by
    rw [TblNm2DataBuff.single_tbNm, BufferSz.set_sz, NetworkMsg.layNm, Mem.length_read]
  have hbytes : ((t.single msg.layNm datum).tbNm 0).buff.read 0 msg.layNmSz.toNat = msg.layNm := by
    rw [← hsz, TblNm2DataBuff.single_tbNm]
    exact BufferSz.bytes_set _ msg.layNm
  have hrange : List.range ((t.single msg.layNm datum).indx + 1) = [0, 1] := rfl
  rw [TblNm2DataBuff.findTbIdx, u16_layNmSz h, hrange, TblNm2DataBuff.findLoop,
    require_true (by decide), ok_bind, if_pos hsz.symm, require_true h, ok_bind,
    if_pos (by rw [hbytes]; rfl)]
  rfl

/-- A name that is not the one in the catalogue is looked for behind it, in memory that nothing has
set.  If that memory does not hold it by chance, it is not found. -/
theorem findTbIdx_single_ne (h : msg.layNmSz.toNat ≤ bufferCap) (hne : msg.layNm ≠ nm)
    (hsz : (t.tbNm 1).sz ≠ msg.layNmSz.toNat) :
    (t.single nm datum).findTbIdx msg.buff msg.layNmSz.toNat = .ok (-1) := by
  have hsz₀ : ((t.single nm datum).tbNm 0).sz = nm.length := by
    rw [TblNm2DataBuff.single_tbNm, BufferSz.set_sz]
  have hsz₁ : ((t.single nm datum).tbNm 1).sz = (t.tbNm 1).sz := by
    rw [TblNm2DataBuff.single_tbNm_one]
  have hbytes : ((t.single nm datum).tbNm 0).buff.read 0 nm.length = nm := by
    rw [TblNm2DataBuff.single_tbNm]
    exact BufferSz.bytes_set _ nm
  have hrange : List.range ((t.single nm datum).indx + 1) = [0, 1] := rfl
  -- the loop goes on to index 1, behind the only entry
  have hlast : (t.single nm datum).findLoop msg.buff msg.layNmSz.toNat [1] = .ok (-1) := by
    rw [TblNm2DataBuff.findLoop, require_true (by decide), ok_bind, hsz₁, if_neg (Ne.symm hsz)]
    rfl
  rw [TblNm2DataBuff.findTbIdx, u16_layNmSz h, hrange, TblNm2DataBuff.findLoop,
    require_true (by decide), ok_bind]
  by_cases hlen : msg.layNmSz.toNat = nm.length
  · have hbytes : ¬msg.buff.read 0 msg.layNmSz.toNat
        = ((t.single nm datum).tbNm 0).buff.read 0 msg.layNmSz.toNat := by
      rw [hlen, hbytes, ← hlen]
      exact hne
    rw [hsz₀, if_pos hlen, require_true h, ok_bind, if_neg hbytes, hlast]
  · rw [hsz₀, if_neg hlen, hlast]

end Lookup

/-! ### Sequences of create messages -/

theorem exec_createStep_isOk {tgt : Target} {ops : List (NetworkMsg × Leftover)}
    (hacc : ∀ op ∈ ops, Accepted tgt op.1) (s : FlowMngr) :
    ∃ s' rets, exec (createStep tgt) s ops = .ok (s', rets) ∧ ∀ ret ∈ rets, ret = 0 := by
  refine exec_progress (fun _ rets _ => ∀ ret ∈ rets, ret = 0) ?_ (by simp)
  intro pre op post rets s₁ hops hzero
  have hmem : op ∈ ops := hops ▸ List.mem_append_right _ List.mem_cons_self
  obtain ⟨s₂, hop⟩ := (hacc op hmem).isOk s₁ op.2
  refine ⟨s₂, 0, hop, fun ret hret => ?_⟩
  rcases List.mem_append.mp hret with hret | hret
  · exact hzero ret hret
  · exact List.mem_singleton.mp hret

/-- After a run that ends with an accepted message, the catalogues hold this message alone. -/
theorem exec_createStep_append {tgt : Target} (ops : List (NetworkMsg × Leftover))
    {op : NetworkMsg × Leftover} {s₀ s : FlowMngr} {rets : List ℤ}
    (hrun : exec (createStep tgt) s₀ (ops ++ [op]) = .ok (s, rets))
    (hzero : ∀ ret ∈ rets, ret = 0) :
    ∃ s₁ rets₁, ∃ lay : ArrayLayout, exec (createStep tgt) s₀ ops = .ok (s₁, rets₁) ∧
      s.tbNm2Pt = some (op.2.pt.single op.1.layNm lay.point) ∧
      s.tbNm2ArrLay = some (op.2.arrLay.single op.1.layNm s₁.layouts.length) := by
  obtain ⟨s₁, rets₁, rets₂, hpre, hlast, rfl⟩ := exec_append_eq_ok.mp hrun
  obtain ⟨ret, hstep, rfl⟩ := exec_singleton_eq_ok.mp hlast
  obtain rfl := hzero ret (List.mem_append_right _ (List.mem_singleton_self _))
  obtain ⟨_, _, lay, _, _, _, rfl⟩ := handleCreate_eq_zero.mp hstep
  exact ⟨s₁, rets₁, lay, hpre, rfl, rfl⟩

/-- The memory of a call, with an unused catalogue slot whose size is not `n`. -/
def leftoverNe (n : ℕ) : Leftover where
  arrLay := ⟨fun _ => ⟨n + 1, fun _ => 0⟩, fun _ => 0, 0⟩
  pt := ⟨fun _ => ⟨n + 1, fun _ => 0⟩, fun _ => 0, 0⟩
  header := zeroHeader
  type := .INT
  shm := zeroChunk

/-- The first of two or more tables is lost. -/
theorem length_le_one_of_noTableLost {tgt : Target} {s₀ : FlowMngr} {msgs : List NetworkMsg}
    (hdiff : (msgs.map NetworkMsg.layNm).Nodup) (hacc : ∀ msg ∈ msgs, Accepted tgt msg)
    (h : NoTableLost tgt s₀ msgs) : msgs.length ≤ 1 := by
  by_contra hlen
  obtain ⟨first, rest, rfl⟩ := List.exists_cons_of_length_pos (by omega : 0 < msgs.length)
  obtain ⟨front, last, rfl⟩ : ∃ front last, rest = front ++ [last] := by
    have hrest : rest ≠ [] := by
      rintro rfl
      exact hlen le_rfl
    exact ⟨_, _, (List.dropLast_append_getLast hrest).symm⟩
  have hfirst := hacc first (List.mem_cons_self ..)
  have hne : first.layNm ≠ last.layNm := by
    rw [List.map_cons, List.nodup_cons, List.map_append, List.mem_append] at hdiff
    intro heq
    exact hdiff.1 (Or.inr (List.mem_singleton.mpr heq))
  -- memory that does not hold the first name by chance
  let op : NetworkMsg → NetworkMsg × Leftover := fun msg => (msg, leftoverNe first.layNmSz.toNat)
  have hfst : ((first :: (front ++ [last])).map op).map Prod.fst = first :: (front ++ [last]) := by
    rw [List.map_map]
    exact List.map_id _
  have hops : ∀ o ∈ (first :: (front ++ [last])).map op, Accepted tgt o.1 := by
    intro o ho
    obtain ⟨msg, hmsg, rfl⟩ := List.mem_map.mp ho
    exact hacc msg hmsg
  obtain ⟨s, rets, hrun, hzero⟩ := exec_createStep_isOk hops s₀
  obtain ⟨cat, pt, idx, hcat, _, hfind, _⟩ :=
    h _ hfst s rets hrun hzero [] (op first) ((front ++ [last]).map op) s₀ [] rfl rfl
  have hsplit : (first :: (front ++ [last])).map op = (first :: front).map op ++ [op last] := by
    rw [← List.cons_append, List.map_append]
    rfl
  rw [hsplit] at hrun
  -- the last create message has left its own table only
  obtain ⟨_, _, _, _, _, hlast⟩ := exec_createStep_append _ hrun hzero
  rw [hlast] at hcat
  obtain rfl := Option.some.inj hcat
  have hsz : ((op last).2.arrLay.tbNm 1).sz ≠ first.layNmSz.toNat := Nat.succ_ne_self _
  rw [show (op first).1 = first from rfl, findTbIdx_single_ne hfirst.le hne hsz] at hfind
  have hidx : (-1 : ℤ) = idx := Except.ok.inj hfind
  omega

/-- **No table is lost.**  When messages with different names are all accepted, every one of their
tables is found afterwards if and only if there is at most one of them. -/
theorem noTableLost_iff {tgt : Target} {s₀ : FlowMngr} {msgs : List NetworkMsg}
    (hdiff : (msgs.map NetworkMsg.layNm).Nodup) (hacc : ∀ msg ∈ msgs, Accepted tgt msg) :
    NoTableLost tgt s₀ msgs ↔ msgs.length ≤ 1 := by
  refine ⟨length_le_one_of_noTableLost hdiff hacc, fun hlen => ?_⟩
  rintro ops rfl s rets hrun hzero pre op post s₁ rets₁ rfl hpre
  -- the only message is the last one
  rw [List.length_map, List.length_append, List.length_cons] at hlen
  obtain rfl : pre = [] := List.eq_nil_of_length_eq_zero (by omega)
  obtain rfl : post = [] := List.eq_nil_of_length_eq_zero (by omega)
  obtain ⟨s₂, rets₂, lay, hpre₂, hpt, hcat⟩ := exec_createStep_append [] hrun hzero
  cases hpre
  cases hpre₂
  have hop := (hacc op.1 (List.mem_map_of_mem List.mem_cons_self)).le
  refine ⟨_, _, 0, hcat, hpt, findTbIdx_single_self hop, ?_, ?_, ?_⟩
  · rw [TblNm2DataBuff.single_data]
  · rw [TblNm2DataBuff.single_tbNm, BufferSz.bytes_set]
  · rw [TblNm2DataBuff.single_tbNm, BufferSz.bytes_set]

/-! ### Two tables -/

/-- The flow manager before the first create message. -/
def freshFlowMngr : FlowMngr := ⟨freshAlloc, none, none, []⟩

/-- A table `u` with the column `col1` of type `int`. -/
def otherTableMsg : NetworkMsg :=
  { oneColumnMsg with buff := Mem.ofList ([0x75] ++ oneColumnMsg.buff.read 1 15) }

theorem accepted_oneColumnMsg : Accepted lp64 oneColumnMsg := by
  obtain ⟨hmore, hitem, hrest⟩ := oneColumnMsg_fits
  obtain ⟨s', h⟩ := handleCreate_isOk oneColumnMsg (k := ⟨1, 16, 15⟩) (by decide) (by decide)
    ⟨[⟨4, 3⟩], hmore, hitem, rfl⟩ (by decide : ¬15 < 15) freshFlowMngr (leftoverNe 0)
  exact ⟨_, _, s', h⟩

theorem accepted_otherTableMsg : Accepted lp64 otherTableMsg := by
  have hname : TextAt otherTableMsg bufferCap 1 4 := ⟨by decide, by decide, by decide, by decide⟩
  have htype : TypeAt otherTableMsg 9 3 := ⟨by decide, by decide, by decide⟩
  have hknown : KnownType lp64 otherTableMsg 9 3 := by
    unfold KnownType
    decide
  obtain ⟨s', h⟩ := handleCreate_isOk otherTableMsg (k := ⟨1, 16, 15⟩) (by decide)
    (by decide) ⟨[⟨4, 3⟩], (by decide : 0 < 15), ⟨(by decide : 0 < 20), hname, htype, hknown⟩, rfl⟩
    (by decide : ¬15 < 15) freshFlowMngr (leftoverNe 0)
  exact ⟨_, _, s', h⟩

theorem noTableLost_oneColumnMsg : NoTableLost lp64 freshFlowMngr [oneColumnMsg] :=
  (noTableLost_iff (by decide) fun msg hmsg => by
    rw [List.mem_singleton.mp hmsg]
    exact accepted_oneColumnMsg).mpr le_rfl

/-- The second create message loses the table of the first. -/
theorem not_noTableLost_two : ¬NoTableLost lp64 freshFlowMngr [oneColumnMsg, otherTableMsg] := by
  intro h
  have hacc : ∀ msg ∈ [oneColumnMsg, otherTableMsg], Accepted lp64 msg := by
    intro msg hmsg
    rcases List.mem_pair.mp hmsg with rfl | rfl
    · exact accepted_oneColumnMsg
    · exact accepted_otherTableMsg
  have hle := length_le_one_of_noTableLost (by decide) hacc h
  exact absurd hle (by decide)

end Lab1.MemDb
