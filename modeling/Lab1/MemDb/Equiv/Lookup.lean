import Lab1.MemDb.Queries
import Lab1.MemDb.Equiv.Catalogue

/-!
# Looking up a table

`findTbIdx` goes through the slots `0 … indx`, one slot too many: the slot `indx` holds whatever
the memory of the catalogue held before (`findTbIdx_eq`).  So the lookup is a function of the
registered entries only when it stops before that slot, that is, when the name is registered
(`seesRegistered_iff`).

The number `-1` for a name that is not found is then stored in an `unsigned short`, and the handlers
that compare it with `-1` never take the branch that refuses the query (`locate_ne_inl`).
-/

namespace Lab1.MemDb

namespace TblNm2DataBuff

variable {TYP : Type}

/-! ### The property -/

/-- Entry `i` has the name `nm`. -/
def named (t : TblNm2DataBuff TYP) (nm : List UInt8) (i : ℕ) : Bool :=
  decide ((t.tbNm i).bytes = nm)

/-- The first registered entry of that name, or `-1`. -/
def firstNamed (t : TblNm2DataBuff TYP) (nm : List UInt8) : ℤ :=
  match (List.range t.indx).find? (t.named nm) with
  | some i => i
  | none => -1

/-- There is an entry of that name. -/
def Holds (t : TblNm2DataBuff TYP) (nm : List UInt8) : Prop := ∃ i < t.indx, (t.tbNm i).bytes = nm

/-- A catalogue with `indx` entries, as `register` makes them. -/
structure Valid (t : TblNm2DataBuff TYP) : Prop where
  indx_le : t.indx ≤ maxTblNm
  sz_le : ∀ i < t.indx, (t.tbNm i).sz ≤ bufferCap

/-- The catalogues have the same entries, and differ at most in the unused slots. -/
structure SameEntries (t t' : TblNm2DataBuff TYP) : Prop where
  indx : t'.indx = t.indx
  tbNm : ∀ i < t.indx, t'.tbNm i = t.tbNm i

/-- Whatever the unused slots hold, `findTbIdx` returns the first registered entry of that name. -/
def SeesRegistered (t : TblNm2DataBuff TYP) (nm : Mem) (sz : UInt16) : Prop :=
  ∀ t', SameEntries t t' →
    t'.findTbIdx nm sz.toNat = .ok (t.firstNamed (nm.read 0 sz.toNat))

/-! ### Valid catalogues -/

variable {t t' : TblNm2DataBuff TYP} {nm : Mem} {sz : ℕ}

theorem Valid.register (ht : t.Valid) {name : List UInt8} {datum : TYP}
    (h : t.register name datum = .ok t') : t'.Valid := by
  obtain ⟨_, hreq, h⟩ := bind_eq_ok.mp h
  obtain ⟨hroom, hlen⟩ := require_eq_ok.mp hreq
  cases h
  have hmax : maxTblNm = 256 := rfl
  have hindx : u16 (t.indx + 1) = t.indx + 1 := Nat.mod_eq_of_lt (by omega)
  refine ⟨?_, fun i hi => ?_⟩
  · show u16 (t.indx + 1) ≤ maxTblNm
    omega
  · have hi : i < u16 (t.indx + 1) := hi
    show (Function.update t.tbNm t.indx ((t.tbNm t.indx).set name) i).sz ≤ bufferCap
    by_cases hlast : i = t.indx
    · subst hlast
      simpa using hlen
    · rw [Function.update_of_ne hlast]
      exact ht.sz_le i (by omega)

/-! ### The loop -/

theorem SameEntries.refl (t : TblNm2DataBuff TYP) : SameEntries t t := ⟨rfl, fun _ _ => rfl⟩

theorem SameEntries.valid (h : SameEntries t t') (ht : t.Valid) : t'.Valid where
  indx_le := h.indx ▸ ht.indx_le
  sz_le i hi := by
    rw [h.indx] at hi
    rw [h.tbNm i hi]
    exact ht.sz_le i hi

theorem SameEntries.firstNamed_eq (h : SameEntries t t') (name : List UInt8) :
    t'.firstNamed name = t.firstNamed name := by
  have hfind : (List.range t.indx).find? (t'.named name)
      = (List.range t.indx).find? (t.named name) := by
    rw [← List.head?_filter, ← List.head?_filter]
    congr 1
    apply List.filter_congr
    intro i hi
    rw [named, named, h.tbNm i (List.mem_range.mp hi)]
  rw [firstNamed, firstNamed, h.indx, hfind]

/-- Comparing the lengths and then the bytes compares the names. -/
theorem findLoop_cons {i : ℕ} {is : List ℕ} (hi : i < maxTblNm)
    (hsz : (t.tbNm i).sz ≤ bufferCap) :
    t.findLoop nm sz (i :: is)
      = if (t.tbNm i).bytes = nm.read 0 sz then .ok (i : ℤ) else t.findLoop nm sz is := by
  have hiff : (t.tbNm i).bytes = nm.read 0 sz ↔
      sz = (t.tbNm i).sz ∧ nm.read 0 sz = (t.tbNm i).buff.read 0 sz := by
    constructor
    · intro h
      have hlen := congrArg List.length h
      rw [BufferSz.length_bytes, Mem.length_read] at hlen
      refine ⟨hlen.symm, ?_⟩
      rw [← h, BufferSz.bytes, hlen]
    · rintro ⟨rfl, h⟩
      exact h.symm
  rw [findLoop, require_true hi, ok_bind]
  by_cases hlen : sz = (t.tbNm i).sz
  · rw [if_pos hlen, require_true (hlen ▸ hsz), ok_bind]
    by_cases hname : nm.read 0 sz = (t.tbNm i).buff.read 0 sz
    · rw [if_pos hname, if_pos (hiff.mpr ⟨hlen, hname⟩)]
      rfl
    · rw [if_neg hname, if_neg fun h => hname (hiff.mp h).2]
  · rw [if_neg hlen, if_neg fun h => hlen (hiff.mp h).1]

/-- Over entries that are registered the loop stops at the first one of that name. -/
theorem findLoop_append (t : TblNm2DataBuff TYP) (nm : Mem) (sz : ℕ) (is rest : List ℕ)
    (his : ∀ i ∈ is, i < maxTblNm ∧ (t.tbNm i).sz ≤ bufferCap) :
    t.findLoop nm sz (is ++ rest) = match is.find? (t.named (nm.read 0 sz)) with
      | some i => .ok (i : ℤ)
      | none => t.findLoop nm sz rest := by
  induction is with
  | nil => rfl
  | cons i is ih =>
    obtain ⟨hi, hsz⟩ := his i List.mem_cons_self
    have ih := ih fun i' hi' => his i' (List.mem_cons_of_mem _ hi')
    rw [List.cons_append, findLoop_cons hi hsz]
    by_cases hname : (t.tbNm i).bytes = nm.read 0 sz
    · rw [if_pos hname, List.find?_cons_of_pos (by simpa [named] using hname)]
    · rw [if_neg hname, List.find?_cons_of_neg (by simpa [named] using hname), ih]

theorem find?_named_isSome {name : List UInt8} :
    (∃ i, (List.range t.indx).find? (t.named name) = some i) ↔ t.Holds name := by
  rw [← Option.isSome_iff_exists, List.find?_isSome]
  simp [named, Holds]

/-- **What `findTbIdx` does.**  It returns the first registered entry of that name; if there is
none, it goes on to look at the slot behind the entries. -/
theorem findTbIdx_eq (ht : t.Valid) (nm : Mem) (sz : UInt16) :
    (t.Holds (nm.read 0 sz.toNat) ∧
      t.findTbIdx nm sz.toNat = .ok (t.firstNamed (nm.read 0 sz.toNat))) ∨
    (¬t.Holds (nm.read 0 sz.toNat) ∧ t.firstNamed (nm.read 0 sz.toNat) = -1 ∧
      t.findTbIdx nm sz.toNat = t.findLoop nm sz.toNat [t.indx]) := by
  have hu16 : u16 sz.toNat = sz.toNat := Nat.mod_eq_of_lt sz.toNat_lt
  have hloop := findLoop_append t nm sz.toNat (List.range t.indx) [t.indx] fun i hi =>
    ⟨(List.mem_range.mp hi).trans_le ht.indx_le, ht.sz_le i (List.mem_range.mp hi)⟩
  rw [findTbIdx, hu16, List.range_succ, hloop, firstNamed, ← find?_named_isSome]
  rcases hfind : (List.range t.indx).find? (t.named (nm.read 0 sz.toNat)) with _ | i
  · refine Or.inr ⟨?_, rfl, rfl⟩
    rintro ⟨i, hi⟩
    cases hi
  · exact Or.inl ⟨⟨i, rfl⟩, rfl⟩

/-! ### The slot behind the entries -/

/-- The catalogue with the name `nm` in the slot behind its entries. -/
def withLeftover (t : TblNm2DataBuff TYP) (nm : BufferSz) : TblNm2DataBuff TYP :=
  { t with tbNm := Function.update t.tbNm t.indx nm }

theorem sameEntries_withLeftover (t : TblNm2DataBuff TYP) (nm : BufferSz) :
    SameEntries t (t.withLeftover nm) where
  indx := rfl
  tbNm _ hi := Function.update_of_ne hi.ne _ _

/-- If that slot holds the name by chance, it is found, or the comparison leaves the array. -/
theorem findLoop_withLeftover_ne (t : TblNm2DataBuff TYP) (nm : Mem) (sz : ℕ) :
    (t.withLeftover ⟨sz, nm⟩).findLoop nm sz [t.indx] ≠ .ok (-1) := by
  have hslot : (t.withLeftover ⟨sz, nm⟩).tbNm t.indx = ⟨sz, nm⟩ := Function.update_self ..
  rw [findLoop, hslot]
  intro h
  obtain ⟨_, _, h⟩ := bind_eq_ok.mp h
  rw [if_pos rfl] at h
  obtain ⟨_, _, h⟩ := bind_eq_ok.mp h
  rw [if_pos rfl] at h
  have hidx : (t.indx : ℤ) = -1 := Except.ok.inj h
  omega

/-- **Catalogue lookup.**  The result of a lookup depends on the registered entries alone, and is
the first one of the name, if and only if the name is registered. -/
theorem seesRegistered_iff (ht : t.Valid) (nm : Mem) (sz : UInt16) :
    t.SeesRegistered nm sz ↔ t.Holds (nm.read 0 sz.toNat) := by
  constructor
  · intro hsees
    by_contra hnot
    have hsame := sameEntries_withLeftover t ⟨sz.toNat, nm⟩
    have hfind := hsees _ hsame
    have hfirst := hsame.firstNamed_eq (nm.read 0 sz.toNat)
    rcases findTbIdx_eq (hsame.valid ht) nm sz with ⟨⟨i, hi, hname⟩, _⟩ | ⟨_, hnone, hlast⟩
    · rw [hsame.indx] at hi
      rw [hsame.tbNm i hi] at hname
      exact hnot ⟨i, hi, hname⟩
    · rw [hlast, ← hfirst, hnone] at hfind
      exact findLoop_withLeftover_ne t nm sz.toNat hfind
  · intro hholds t' hsame
    have hfirst := hsame.firstNamed_eq (nm.read 0 sz.toNat)
    rcases findTbIdx_eq (hsame.valid ht) nm sz with ⟨_, hfind⟩ | ⟨hnot, _⟩
    · rw [hfind, hfirst]
    · obtain ⟨i, hi, hname⟩ := hholds
      have hnamed : (t'.tbNm i).bytes = nm.read 0 sz.toNat := by
        rw [hsame.tbNm i hi]
        exact hname
      exact absurd ⟨i, hsame.indx.symm ▸ hi, hnamed⟩ hnot

/-! ### A catalogue without entries -/

/-- A catalogue after `init`, on memory that once held the name `t`. -/
def emptied : TblNm2DataBuff ℕ := ⟨fun _ => ⟨1, fun _ => 0x74⟩, fun _ => 0, 0⟩

theorem valid_emptied : emptied.Valid :=
  ⟨by decide, fun i hi => absurd hi (Nat.not_lt_zero i)⟩

theorem seesRegistered_single : (emptied.single [0x75] 0).SeesRegistered (fun _ => 0x75) 1 := by
  refine (seesRegistered_iff ⟨by decide, fun i hi => ?_⟩ _ _).mpr ⟨0, by decide, by decide⟩
  obtain rfl : i = 0 := Nat.lt_one_iff.mp hi
  decide

/-- The name that the memory holds by chance is found at index `0`. -/
theorem not_seesRegistered_emptied :
    emptied.Valid ∧ ¬emptied.SeesRegistered (fun _ => 0x74) 1 := by
  refine ⟨valid_emptied, fun h => ?_⟩
  have hfind := h emptied (SameEntries.refl _)
  have hidx : (0 : ℤ) = -1 := Except.ok.inj hfind
  exact absurd hidx (by decide)

end TblNm2DataBuff

/-! ### Queries on unknown tables -/

namespace FlowMngr

/-- A table of the message's name is registered. -/
def Registered (s : FlowMngr) (msg : NetworkMsg) : Prop :=
  ∃ cat, s.tbNm2ArrLay = some cat ∧ cat.Holds msg.layNm

/-- Both handlers return `-1` before they look at `data`, and nothing is changed. -/
structure Refused (s : FlowMngr) (msg : NetworkMsg) : Prop where
  locate : s.locate msg = .ok (.inl (-1))
  select : ∀ cols vals, s.handleSelect cols vals msg = .ok (s, -1)
  insert : ∀ buff colName, s.handleInsert buff colName msg = .ok (s, -1)

/-- A query on a table that is not registered is refused. -/
def RefusesUnknown (s : FlowMngr) (msg : NetworkMsg) : Prop := ¬s.Registered msg → s.Refused msg

/-- No value of an `unsigned short` is `-1`. -/
theorem locate_ne_inl (s : FlowMngr) (msg : NetworkMsg) (ret : ℤ) :
    s.locate msg ≠ .ok (.inl ret) := by
  intro h
  unfold locate at h
  split at h
  · cases h
  · obtain ⟨found, _, h⟩ := bind_eq_ok.mp h
    have hidx : (-1 : ℤ) ≠ (found % 65536).toNat := by omega
    rw [if_neg hidx] at h
    obtain ⟨_, _, h⟩ := bind_eq_ok.mp h
    cases h

/-- **Unknown tables.**  No query on a table that is not registered is refused. -/
theorem refusesUnknown_iff (s : FlowMngr) (msg : NetworkMsg) :
    s.RefusesUnknown msg ↔ s.Registered msg := by
  constructor
  · intro hrefuses
    by_contra hunknown
    exact locate_ne_inl s msg _ (hrefuses hunknown).locate
  · intro hreg hunknown
    exact absurd hreg hunknown

/-- The table of the name `nm` is the layout `l`, at the position `lay`. -/
structure TableAt (s : FlowMngr) (nm : List UInt8) (lay : ℕ) (l : ArrayLayout) : Prop where
  registered : ∃ cat i, s.tbNm2ArrLay = some cat ∧ cat.Valid ∧
    (List.range cat.indx).find? (cat.named nm) = some i ∧ cat.data i = lay
  layout : s.layouts[lay]? = some l

theorem deref_of_tableAt {s : FlowMngr} {nm : List UInt8} {lay : ℕ} {l : ArrayLayout}
    (h : s.TableAt nm lay l) : s.deref lay = .ok l := by
  rw [deref, h.layout]

/-- A registered table is found. -/
theorem locate_of_tableAt {s : FlowMngr} {msg : NetworkMsg} {lay : ℕ} {l : ArrayLayout}
    (h : s.TableAt msg.layNm lay l) (hlen : msg.layNmSz.toNat < 65536) :
    s.locate msg = .ok (.inr lay) := by
  obtain ⟨cat, i, hcat, hvalid, hfind, rfl⟩ := h.registered
  have hi : i < cat.indx := List.mem_range.mp (List.mem_of_find?_eq_some hfind)
  have hmax : i < maxTblNm := hi.trans_le hvalid.indx_le
  have hsz : (UInt16.ofNat msg.layNmSz.toNat).toNat = msg.layNmSz.toNat := by
    rw [UInt16.toNat_ofNat']
    exact Nat.mod_eq_of_lt hlen
  have hlookup : cat.findTbIdx msg.buff msg.layNmSz.toNat = .ok (i : ℤ) := by
    have heq := TblNm2DataBuff.findTbIdx_eq hvalid msg.buff (UInt16.ofNat msg.layNmSz.toNat)
    rw [hsz] at heq
    rcases heq with ⟨_, hok⟩ | ⟨hnot, _⟩
    · rw [hok, TblNm2DataBuff.firstNamed,
        show msg.buff.read 0 msg.layNmSz.toNat = msg.layNm from rfl,
        hfind]
    · exact absurd (TblNm2DataBuff.find?_named_isSome.mp ⟨i, hfind⟩) hnot
  have hmax' : maxTblNm = 256 := rfl
  have hidx : ((i : ℤ) % 65536).toNat = i := by omega
  rw [locate, hcat]
  dsimp only
  rw [hlookup, ok_bind, hidx, if_neg (by omega), require_true hmax]
  rfl

/-- Where no table has been created, the catalogue is followed through a pointer that nothing has
set. -/
theorem not_refusesUnknown_fresh : ¬freshFlowMngr.RefusesUnknown oneColumnMsg := by
  intro hrefuses
  refine locate_ne_inl freshFlowMngr oneColumnMsg _ (hrefuses ?_).locate
  rintro ⟨cat, hcat, _⟩
  cases hcat

end FlowMngr

end Lab1.MemDb
