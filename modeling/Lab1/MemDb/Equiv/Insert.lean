import Lab1.MemDb.Equiv.Lookup

/-!
# What an insert message does

`handle_insert` builds the row in a local array and shows it; it never calls `addEntry`.  Nor does
it get to the end of a message that names a column of the table: when a column is found, the offset
is set back to zero, and zero is what the loop takes for a column that does not exist.  So the
message is refused at its first column that exists.

After a name that no column has, the loop goes on behind the name, where the value stands, unless
the offset is still zero.  `storesRow_iff` says which messages are treated as they should be: those
that are to be refused and are.
-/

namespace Lab1.MemDb

open FlowMngr

/-! ### Insert messages -/

/-- A column name and the bytes of a value. -/
structure InsertItem where
  name : List UInt8
  val : List UInt8

def InsertItem.encode (t : InsertItem) : List UInt8 := wordBytes t.name.length ++ (t.name ++ t.val)

def encodeInsert (ts : List InsertItem) : List UInt8 := ts.flatMap InsertItem.encode

/-- `msg` names different columns, each followed by a value of the column's size, if there is such
a column. -/
structure InsertMsg (phead : LayoutHeader) (msg : NetworkMsg) (ts : List InsertItem) : Prop where
  ne_nil : ts ≠ []
  distinct : (ts.map InsertItem.name).Nodup
  val_sz : ∀ t ∈ ts, ∀ i, columnNamed phead t.name = some i →
    t.val.length = (phead.columns i).typsz
  paramSz : msg.paramSz.toNat = (encodeInsert ts).length
  fits : msg.layNmSz.toNat + (encodeInsert ts).length ≤ maxNetMsg
  params : msg.buff.read msg.layNmSz.toNat (encodeInsert ts).length = encodeInsert ts

/-! ### The property -/

/-- The row holds the values of the columns that are named, and zeros in the others. -/
def DescribedRow (phead : LayoutHeader) (ts : List InsertItem) (row : Mem) : Prop :=
  ∀ i < phead.sz, row.read (phead.offset i) (phead.columns i).typsz =
    match ts.find? fun t => columnNamed phead t.name = some i with
    | some t => t.val
    | none => List.replicate (phead.columns i).typsz 0

/-- If all columns exist, the row that the message describes is added to the layout `l` at the
position `lay`; otherwise the message is refused and nothing is changed. -/
def StoresRow (s : FlowMngr) (msg : NetworkMsg) (ts : List InsertItem) (lay : ℕ) (l : ArrayLayout) :
    Prop :=
  ∀ buff colName : Mem,
    ((∀ t ∈ ts, ∃ i, columnNamed l.header t.name = some i) → ∃ row l',
      DescribedRow l.header ts row ∧ l.addEntry row = .ok (l', 0) ∧
        s.handleInsert buff colName msg = .ok ({ s with layouts := s.layouts.set lay l' }, 0)) ∧
    ((∃ t ∈ ts, columnNamed l.header t.name = none) →
      s.handleInsert buff colName msg = .ok (s, -1))

/-! ### The first tuple -/

section First

variable {phead : LayoutHeader} {msg : NetworkMsg} {t : InsertItem} {ts : List InsertItem}

theorem InsertItem.length_encode (t : InsertItem) :
    t.encode.length = 4 + t.name.length + t.val.length := by
  simp only [encode, List.length_append, length_wordBytes]
  omega

theorem encodeInsert_cons : encodeInsert (t :: ts) = t.encode ++ encodeInsert ts :=
  List.flatMap_cons

/-- Where the encoding starts, the length and the bytes of the first name are read. -/
theorem InsertMsg.first (h : InsertMsg phead msg (t :: ts)) :
    msg.buff.word msg.layNmSz.toNat = t.name.length ∧
      msg.buff.read (msg.layNmSz.toNat + 4) t.name.length = t.name := by
  have hfits := h.fits
  have hparams := h.params
  have hmax : maxNetMsg = 4096 := rfl
  rw [encodeInsert_cons, List.length_append, t.length_encode] at hfits
  rw [encodeInsert_cons, Mem.read_append_iff, InsertItem.encode, Mem.read_append_iff,
    Mem.read_append_iff, length_wordBytes] at hparams
  obtain ⟨⟨hword, hname, _⟩, _⟩ := hparams
  exact ⟨Mem.word_of_read (by omega) hword, hname⟩

theorem InsertMsg.paramSz_pos (h : InsertMsg phead msg ts) : 0 < msg.paramSz.toNat := by
  obtain ⟨t, ts, rfl⟩ := List.exists_cons_of_ne_nil h.ne_nil
  rw [h.paramSz, encodeInsert_cons, List.length_append, t.length_encode]
  omega

theorem InsertMsg.paramSz_le (h : InsertMsg phead msg ts) : msg.paramSz.toNat ≤ maxNetMsg := by
  have hfits := h.fits
  rw [h.paramSz]
  omega

end First

/-! ### The handler -/

section Handler

variable {s s' : FlowMngr} {msg : NetworkMsg} {ts : List InsertItem} {lay : ℕ} {l : ArrayLayout}
  {buff colName : Mem} {ret : ℤ}

/-- The variables with which the loop starts. -/
def insertVars (buff colName : Mem) (msg : NetworkMsg) : InsertVars :=
  ⟨buff, colName, 0, msg.layNmSz.toNat, 0⟩

/-- What the handler returns is what its loop returns, or zero; and nothing is changed. -/
theorem handleInsert_eq_ok (htable : s.TableAt msg.layNm lay l) (hlen : msg.layNmSz.toNat < 65536) :
    s.handleInsert buff colName msg = .ok (s', ret) ↔ s' = s ∧
      (insertLoop l.header msg (maxNetMsg + 1) (insertVars buff colName msg) = .ok (.inl ret) ∨
        ret = 0 ∧
          ∃ v, insertLoop l.header msg (maxNetMsg + 1) (insertVars buff colName msg)
            = .ok (.inr v)) := by
  rw [handleInsert, locate_of_tableAt htable hlen, ok_bind]
  dsimp only
  rw [deref_of_tableAt htable, ok_bind, bind_eq_ok]
  constructor
  · rintro ⟨ret' | v, hloop, h⟩
    · cases h
      exact ⟨rfl, Or.inl hloop⟩
    · cases h
      exact ⟨rfl, Or.inr ⟨rfl, v, hloop⟩⟩
  · rintro ⟨rfl, hloop | ⟨rfl, v, hloop⟩⟩
    · exact ⟨_, hloop, rfl⟩
    · exact ⟨_, hloop, rfl⟩

/-- The loop returns nothing but `-1`. -/
theorem insertTuple_inl (hsz : l.header.sz ≤ maxColNum) (v : InsertVars) (x : ℤ)
    (h : insertTuple l.header msg v = .ok (.inl x)) : x = -1 := by
  rcases insertTuple_cases hsz h with ⟨h, _⟩ | ⟨_, _, h, _⟩
  · exact Sum.inl.inj h
  · cases h

theorem InsertMsg.layNmSz_lt {phead : LayoutHeader} (h : InsertMsg phead msg ts) :
    msg.layNmSz.toNat < 65536 := by
  have hfits := h.fits
  have hmax : maxNetMsg = 4096 := rfl
  omega

/-- The message is refused if and only if the loop is stopped by it. -/
theorem handleInsert_refused_iff (htable : s.TableAt msg.layNm lay l)
    (hsz : l.header.sz ≤ maxColNum) (hmsg : InsertMsg l.header msg ts) (buff colName : Mem) :
    s.handleInsert buff colName msg = .ok (s, -1) ↔
      (insertGrammar l.header msg).Refused ⟨msg.layNmSz.toNat, 0, 0⟩ := by
  have hreads := (insertTuple_reads hsz msg).ends_inl_iff
    { insertVars buff colName msg with
      buff := (insertVars buff colName msg).buff.write 0 (List.replicate msg.paramSz.toNat 0) }
  rw [handleInsert_eq_ok htable hmsg.layNmSz_lt, and_iff_right rfl,
    or_iff_left (fun h => by omega), ← insertLoop_ends_iff hsz hmsg.paramSz_le]
  refine Iff.trans ⟨fun hends => ⟨-1, hends⟩, ?_⟩ hreads
  rintro ⟨x, fuel, hrun⟩
  obtain rfl : x = -1 := whileLoop_inl (P := fun x => x = -1) (insertTuple_inl hsz) hrun
  exact ⟨fuel, hrun⟩

/-- A message whose first column exists is not read to its end. -/
theorem handleInsert_ne_zero (htable : s.TableAt msg.layNm lay l) (hsz : l.header.sz ≤ maxColNum)
    (hmsg : InsertMsg l.header msg ts)
    (hall : ∀ t ∈ ts, ∃ i, columnNamed l.header t.name = some i) :
    s.handleInsert buff colName msg ≠ .ok (s', 0) := by
  intro h
  rcases ((handleInsert_eq_ok htable hmsg.layNmSz_lt).mp h).2 with hloop | ⟨_, v, hloop⟩
  · obtain ⟨fuel, hrun⟩ := (insertLoop_ends_iff hsz hmsg.paramSz_le).mpr hloop
    have hret : (0 : ℤ) = -1 := whileLoop_inl (P := fun x => x = -1) (insertTuple_inl hsz) hrun
    exact absurd hret (by decide)
  · have hends := (insertLoop_ends_iff hsz hmsg.paramSz_le).mpr hloop
    obtain ⟨⟨ns, hpath⟩, hend⟩ := ((insertTuple_reads hsz msg).ends_inr_iff _ v.place).mp
      ⟨v, hends, rfl⟩
    rcases ns with _ | ⟨n, ns⟩
    · have hplace : _ = v.place := hpath
      rw [← hplace] at hend
      exact hend hmsg.paramSz_pos
    · -- the first item is a name that no column has
      obtain ⟨t, ts, rfl⟩ := List.exists_cons_of_ne_nil hmsg.ne_nil
      obtain ⟨hword, hname⟩ := hmsg.first
      obtain ⟨_, ⟨htext, hnone, _⟩, _⟩ := hpath
      have hn : t.name.length = n := hword.symm.trans htext.word
      have hnone : columnNamed l.header (msg.buff.read (msg.layNmSz.toNat + 4) n) = none := hnone
      rw [← hn, hname] at hnone
      obtain ⟨i, hi⟩ := hall t List.mem_cons_self
      rw [hi] at hnone
      cases hnone

theorem refused_of_storesRow (htable : s.TableAt msg.layNm lay l) (hsz : l.header.sz ≤ maxColNum)
    (hmsg : InsertMsg l.header msg ts) (h : StoresRow s msg ts lay l) :
    (∃ t ∈ ts, columnNamed l.header t.name = none) ∧
      (insertGrammar l.header msg).Refused ⟨msg.layNmSz.toNat, 0, 0⟩ := by
  obtain ⟨hstored, hrefused⟩ := h (fun _ => 0) fun _ => 0
  have hmissing : ∃ t ∈ ts, columnNamed l.header t.name = none := by
    by_contra hnone
    simp only [not_exists, not_and] at hnone
    have hall := fun t ht => Option.ne_none_iff_exists'.mp (hnone t ht)
    obtain ⟨row, l', _, _, hzero⟩ := hstored hall
    exact handleInsert_ne_zero htable hsz hmsg hall hzero
  exact ⟨hmissing, (handleInsert_refused_iff htable hsz hmsg _ _).mp (hrefused hmissing)⟩

/-- **Insert messages.**  A message does what it should if and only if one of its columns does not
exist, and `handle_insert`, which takes what stands behind an unknown name for the next length,
comes to something it refuses before it leaves the message. -/
theorem storesRow_iff (htable : s.TableAt msg.layNm lay l) (hsz : l.header.sz ≤ maxColNum)
    (hmsg : InsertMsg l.header msg ts) :
    StoresRow s msg ts lay l ↔ (∃ t ∈ ts, columnNamed l.header t.name = none) ∧
      (insertGrammar l.header msg).Refused ⟨msg.layNmSz.toNat, 0, 0⟩ := by
  refine ⟨refused_of_storesRow htable hsz hmsg, ?_⟩
  rintro ⟨⟨t, ht, hnone⟩, hrefused⟩ buff colName
  refine ⟨fun hall => ?_, fun _ => (handleInsert_refused_iff htable hsz hmsg _ _).mpr hrefused⟩
  obtain ⟨i, hi⟩ := hall t ht
  rw [hi] at hnone
  cases hnone

end Handler

/-! ### Two messages for a table -/

/-- A layout with the column `col1` of type `int` and 32 free slots. -/
def col1Layout : ArrayLayout where
  stack := ⟨32, 32, id⟩
  bitMap := BitMap.init
  header := ⟨1, fun _ => ⟨⟨4, Mem.ofList [0x63, 0x6f, 0x6c, 0x31]⟩, 0, 4, .INT⟩⟩
  data := fun _ => 0
  totTypSz := 4
  point := 0

/-- A flow manager with the table `t`. -/
def tableT : FlowMngr :=
  ⟨freshAlloc, none, some (TblNm2DataBuff.emptied.single [0x74] 0), [col1Layout]⟩

/-- An insert message for the table `t`. -/
def insertT (ts : List InsertItem) : NetworkMsg :=
  ⟨Mem.ofList ([0x74] ++ encodeInsert ts), 1, UInt32.ofNat (encodeInsert ts).length, .INST⟩

theorem tableAt_tableT : tableT.TableAt [0x74] 0 col1Layout := by
  refine ⟨⟨TblNm2DataBuff.emptied.single [0x74] 0, 0, rfl, ⟨by decide, fun i hi => ?_⟩, ?_, rfl⟩,
    rfl⟩
  · obtain rfl : i = 0 := Nat.lt_one_iff.mp hi
    decide
  · decide

/-- The column `x`, which the table does not have. -/
theorem storesRow_unknown :
    StoresRow tableT (insertT [⟨[0x78], []⟩]) [⟨[0x78], []⟩] 0 col1Layout := by
  refine (storesRow_iff (tableAt_tableT) (by decide) ?_).mpr ⟨?_, ?_⟩
  · exact ⟨by decide, by decide, by decide, by decide, by decide, by decide⟩
  · exact ⟨_, List.mem_singleton_self _, by decide⟩
  · have hmore : 0 < (insertT [⟨[0x78], []⟩]).paramSz.toNat := by decide
    have hname : TextAt (insertT [⟨[0x78], []⟩]) maxColNum 1 1 :=
      ⟨by decide, by decide, by decide, by decide⟩
    exact ⟨_, ⟨[], rfl⟩, hmore, Or.inr ⟨1, hname, Or.inl ⟨by decide, by decide⟩⟩⟩

/-- The column `col1`, which the table has. -/
theorem not_storesRow_col1 :
    ¬StoresRow tableT (insertT [⟨[0x63, 0x6f, 0x6c, 0x31], [1, 0, 0, 0]⟩])
      [⟨[0x63, 0x6f, 0x6c, 0x31], [1, 0, 0, 0]⟩] 0 col1Layout := by
  intro h
  obtain ⟨⟨t, ht, hnone⟩, _⟩ := refused_of_storesRow tableAt_tableT (by decide)
    ⟨by decide, by decide, by decide, by decide, by decide, by decide⟩ h
  rw [List.mem_singleton.mp ht] at hnone
  exact absurd hnone (by decide)

end Lab1.MemDb
