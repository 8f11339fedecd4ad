import Lab1.MemDb.FlowManager

/-!
# Reading messages of any content

The tuple loops of `handle_create`, `handle_select` and `handle_insert` check that a length is
not zero, and nothing else: not that the texts lie inside the message, nor that they fit where
they are copied to, nor, before the loop is over, that there are few enough of them.

For each loop a `Grammar` says what a message must look like for the loop to stay inside its
arrays: from the end of the table name on, item after item lies inside the message and fits its
destination, until `paramSz` bytes are counted (in 32 bits) or an item is refused.
`safelyParsed_iff` says that the loops are safe on exactly these messages.
-/

namespace Lab1.MemDb

/-- The loop ends for every large enough amount of fuel, with a negative result if it returns. -/
def SafelyParsed {σ : Type} (run : ℕ → Except Fault (ℤ ⊕ σ)) : Prop :=
  ∃ fuel₀ r, (∀ fuel ≥ fuel₀, run fuel = .ok r) ∧ ∀ ret, r = .inl ret → ret < 0

/-- A loop whose body returns only negative numbers is safe if it ends. -/
theorem safelyParsed_iff_ends {σ : Type} {cond : σ → Bool} {body : σ → Except Fault (ℤ ⊕ σ)}
    (hneg : ∀ s ret, body s = .ok (.inl ret) → ret < 0) (s : σ) :
    (SafelyParsed fun fuel => whileLoop cond body fuel s) ↔ ∃ r, Ends cond body s r := by
  constructor
  · rintro ⟨fuel₀, r, hrun, _⟩
    exact ⟨r, fuel₀, hrun fuel₀ le_rfl⟩
  · rintro ⟨r, fuel₀, hrun⟩
    refine ⟨fuel₀, r, fun fuel hfuel => whileLoop_mono hrun hfuel, ?_⟩
    rintro ret rfl
    exact whileLoop_inl (P := fun ret => ret < 0) hneg hrun

/-! ### Items -/

/-- At `pos` stands a length `n` from `1` to `max`, and behind it a text of this length. -/
structure TextAt (msg : NetworkMsg) (max pos n : ℕ) : Prop where
  word : msg.buff.word pos = n
  one_le : 1 ≤ n
  le : n ≤ max
  inside : pos + 4 + n ≤ maxNetMsg

/-- At `pos` stands the length zero. -/
structure ZeroAt (msg : NetworkMsg) (pos : ℕ) : Prop where
  word : msg.buff.word pos = 0
  inside : pos + 4 ≤ maxNetMsg

/-- At `pos` stands a length `m` that is not zero, and behind it as many bytes as `memcmp` looks at,
which takes its length modulo 65536. -/
structure TypeAt (msg : NetworkMsg) (pos m : ℕ) : Prop where
  word : msg.buff.word pos = m
  one_le : 1 ≤ m
  inside : pos + 4 + u16 m ≤ maxNetMsg

/-- The type name at `pos` is one of the known ones. -/
def KnownType (tgt : Target) (msg : NetworkMsg) (pos m : ℕ) : Prop :=
  (getTypSzByStr tgt (msg.buff.read (pos + 4) (u16 m)) .INT).1 ≠ badTypSz

theorem getTypSzByStr_fst (tgt : Target) (tyNm : List UInt8) (t t' : ColTyp) :
    (getTypSzByStr tgt tyNm t).1 = (getTypSzByStr tgt tyNm t').1 := by
  unfold getTypSzByStr
  split_ifs <;> rfl

theorem knownType_iff {tgt : Target} {msg : NetworkMsg} {pos m : ℕ} (t : ColTyp) :
    KnownType tgt msg pos m ↔
      (getTypSzByStr tgt (msg.buff.read (pos + 4) (u16 m)) t).1 ≠ badTypSz := by
  rw [KnownType, getTypSzByStr_fst _ _ _ t]

section Reading

variable {msg : NetworkMsg} {max pos n : ℕ}

theorem ZeroAt.readWord (h : ZeroAt msg pos) : msg.readWord pos = .ok 0 :=
  NetworkMsg.readWord_eq_ok.mpr ⟨h.inside, h.word⟩

theorem TextAt.readWord (h : TextAt msg max pos n) : msg.readWord pos = .ok n :=
  NetworkMsg.readWord_eq_ok.mpr ⟨by have := h.inside; omega, h.word⟩

theorem TextAt.readBytes (h : TextAt msg max pos n) :
    msg.readBytes (pos + 4) n = .ok (msg.buff.read (pos + 4) n) :=
  NetworkMsg.readBytes_eq_ok.mpr ⟨h.inside, rfl⟩

theorem TypeAt.readWord (h : TypeAt msg pos n) : msg.readWord pos = .ok n :=
  NetworkMsg.readWord_eq_ok.mpr ⟨by have := h.inside; omega, h.word⟩

theorem TypeAt.readBytes (h : TypeAt msg pos n) :
    msg.readBytes (pos + 4) (u16 n) = .ok (msg.buff.read (pos + 4) (u16 n)) :=
  NetworkMsg.readBytes_eq_ok.mpr ⟨h.inside, rfl⟩

/-- What the first two statements of a tuple come to: a length that is not zero is left. -/
theorem readLength_cases {β : Type} {f : ℕ → Except Fault (ℤ ⊕ β)} {r : ℤ ⊕ β}
    (h : (msg.readWord pos >>= fun n => if n = 0 then pure (.inl (-1)) else f n) = .ok r) :
    (r = .inl (-1) ∧ ZeroAt msg pos) ∨ ∃ n, 1 ≤ n ∧ msg.buff.word pos = n ∧ f n = .ok r := by
  rw [bind_eq_ok] at h
  obtain ⟨n, hword, h⟩ := h
  obtain ⟨hin, hword⟩ := NetworkMsg.readWord_eq_ok.mp hword
  split_ifs at h with hn
  · cases h
    exact Or.inl ⟨rfl, hword.trans hn, hin⟩
  · exact Or.inr ⟨n, Nat.pos_of_ne_zero hn, hword, h⟩

end Reading

/-! ### Create messages -/

/-- Where a loop is: the number of tuples read, the offset in the message, and the number of
bytes counted. -/
structure Place where
  col : ℕ
  pos : ℕ
  acc : ℕ

/-- The lengths of the two texts of a tuple `<col name, type>`. -/
structure CreateItem where
  nameSz : ℕ
  typeSz : ℕ

def createGrammar (tgt : Target) (msg : NetworkMsg) : Grammar Place CreateItem where
  More k := k.acc < msg.paramSz.toNat
  Item k t :=
    k.col < maxColNum ∧ TextAt msg bufferCap k.pos t.nameSz ∧
      TypeAt msg (k.pos + 4 + t.nameSz) t.typeSz ∧
      KnownType tgt msg (k.pos + 4 + t.nameSz) t.typeSz
  next k t :=
    ⟨k.col + 1, k.pos + 4 + t.nameSz + 4 + t.typeSz, u32 (k.acc + 4 + t.nameSz + 4 + t.typeSz)⟩
  Stop k :=
    ZeroAt msg k.pos ∨ ∃ n, k.col < maxColNum ∧ TextAt msg bufferCap k.pos n ∧
      (ZeroAt msg (k.pos + 4 + n) ∨ ∃ m, TypeAt msg (k.pos + 4 + n) m ∧
        ¬KnownType tgt msg (k.pos + 4 + n) m)

def CreateVars.place (v : CreateVars) : Place := ⟨v.colDefSz, v.pmsg, v.accStrSz⟩

section Create

variable {tgt : Target} {msg : NetworkMsg} {v : CreateVars}

/-- The column that the loop makes of an item. -/
def CreateVars.column (tgt : Target) (msg : NetworkMsg) (v : CreateVars) (t : CreateItem) :
    ColumnDef :=
  let old := v.header.columns v.colDefSz
  let tyNm := msg.buff.read (v.pmsg + 4 + t.nameSz + 4) (u16 t.typeSz)
  { name := old.name.set (msg.buff.read (v.pmsg + 4) t.nameSz)
    loc := old.loc
    typsz := (getTypSzByStr tgt tyNm v.type).1
    typ := (getTypSzByStr tgt tyNm v.type).2 }

/-- What a turn of the loop can come to. -/
theorem createTuple_cases {r : ℤ ⊕ CreateVars} (h : createTuple tgt msg v = .ok r) :
    (r = .inl (-1) ∧ (createGrammar tgt msg).Stop v.place) ∨
      ∃ t v', r = .inr v' ∧ (createGrammar tgt msg).Item v.place t ∧
        v'.place = (createGrammar tgt msg).next v.place t ∧
        v'.header = v.header.setColumn v.colDefSz (v.column tgt msg t) := by
  unfold createTuple at h
  rcases readLength_cases h with ⟨rfl, hzero⟩ | ⟨n, hn, hword, h⟩
  · -- the length of the name is zero
    exact Or.inl ⟨rfl, Or.inl hzero⟩
  simp only [bind_eq_ok] at h
  obtain ⟨name, hname, _, hfits, h⟩ := h
  obtain ⟨hread, rfl⟩ := NetworkMsg.readBytes_eq_ok.mp hname
  obtain ⟨hcol, hcap⟩ := require_eq_ok.mp hfits
  have htext : TextAt msg bufferCap v.pmsg n := ⟨hword, hn, hcap, hread⟩
  rcases readLength_cases (bind_eq_ok.mpr h) with ⟨rfl, hzero⟩ | ⟨n', hn', hword', h⟩
  · -- the length of the type is zero
    exact Or.inl ⟨rfl, Or.inr ⟨n, hcol, htext, Or.inl hzero⟩⟩
  rw [bind_eq_ok] at h
  obtain ⟨tyNm, htyNm, h⟩ := h
  obtain ⟨hin'', htyNm⟩ := NetworkMsg.readBytes_eq_ok.mp htyNm
  have htype : TypeAt msg (v.pmsg + 4 + n) n' := ⟨hword', hn', hin''⟩
  subst htyNm
  split_ifs at h with hbad
  · -- the type is not known
    cases h
    have hunknown : ¬KnownType tgt msg (v.pmsg + 4 + n) n' := by
      rw [knownType_iff v.type]
      exact not_not_intro hbad
    exact Or.inl ⟨rfl, Or.inr ⟨n, hcol, htext, Or.inr ⟨n', htype, hunknown⟩⟩⟩
  · cases h
    have hknown : KnownType tgt msg (v.pmsg + 4 + n) n' := (knownType_iff v.type).mpr hbad
    refine Or.inr ⟨⟨n, n'⟩, _, rfl, ⟨hcol, htext, htype, hknown⟩, ?_, rfl⟩
    simp only [CreateVars.place, createGrammar, u32_add_left]

theorem createTuple_of_stop (h : (createGrammar tgt msg).Stop v.place) :
    createTuple tgt msg v = .ok (.inl (-1)) := by
  unfold createTuple
  rcases h with (hzero : ZeroAt msg v.pmsg) |
    ⟨n, (hcol : v.colDefSz < maxColNum), (htext : TextAt msg _ v.pmsg n), hrest⟩
  · rw [hzero.readWord, ok_bind]
    rfl
  have hn : n ≠ 0 := Nat.pos_iff_ne_zero.mp htext.one_le
  simp only [htext.readWord, ok_bind, if_neg hn, htext.readBytes,
    require_true (And.intro hcol htext.le)]
  rcases hrest with (hzero : ZeroAt msg (v.pmsg + 4 + n)) |
    ⟨m, (htype : TypeAt msg (v.pmsg + 4 + n) m), hbad⟩
  · rw [hzero.readWord, ok_bind]
    rfl
  · have hm : m ≠ 0 := Nat.pos_iff_ne_zero.mp htype.one_le
    have hbad := not_not.mp ((knownType_iff v.type).not.mp hbad)
    simp only [htype.readWord, ok_bind, if_neg hm, htype.readBytes]
    exact if_pos hbad

theorem createTuple_of_item {t : CreateItem} (h : (createGrammar tgt msg).Item v.place t) :
    ∃ v', createTuple tgt msg v = .ok (.inr v') ∧
      v'.place = (createGrammar tgt msg).next v.place t := by
  obtain ⟨n, m⟩ := t
  obtain ⟨(hcol : v.colDefSz < maxColNum), (htext : TextAt msg _ v.pmsg n),
    (htype : TypeAt msg (v.pmsg + 4 + n) m), hknown⟩ := h
  have hn : n ≠ 0 := Nat.pos_iff_ne_zero.mp htext.one_le
  have hm : m ≠ 0 := Nat.pos_iff_ne_zero.mp htype.one_le
  have hknown := (knownType_iff v.type).mp hknown
  unfold createTuple
  simp only [htext.readWord, ok_bind, if_neg hn, htext.readBytes,
    require_true (And.intro hcol htext.le), htype.readWord, if_neg hm, htype.readBytes]
  refine ⟨_, if_neg hknown, ?_⟩
  simp only [CreateVars.place, createGrammar, u32_add_left]

theorem createTuple_reads (tgt : Target) (msg : NetworkMsg) :
    Reads (createGrammar tgt msg) CreateVars.place
      (fun v => decide (v.accStrSz < msg.paramSz.toNat)) (createTuple tgt msg) := by
  refine Reads.of_cases (fun _ => decide_eq_true_iff) (fun v r h => ?_)
    (fun _ h => ⟨_, createTuple_of_stop h⟩) (fun _ _ h => createTuple_of_item h)
  rcases createTuple_cases h with hstop | ⟨t, v', hinr, hitem, hnext, _⟩
  · exact Or.inl ⟨_, hstop⟩
  · exact Or.inr ⟨t, v', hinr, hitem, hnext⟩

theorem createTuple_neg (v : CreateVars) (ret : ℤ) (h : createTuple tgt msg v = .ok (.inl ret)) :
    ret < 0 := by
  rcases createTuple_cases h with ⟨h, _⟩ | ⟨t, v', h, _⟩
  · cases h
    decide
  · cases h

end Create

/-! ### Select messages -/

/-- The items are tuples `<colNm, val>`, given by the length of the name. -/
def selectGrammar (msg : NetworkMsg) : Grammar Place ℕ where
  More k := k.acc < msg.paramSz.toNat
  Item k n :=
    k.col < maxColNum ∧ TextAt msg bufferCap k.pos n ∧ k.pos + 4 + n + 8 ≤ maxNetMsg
  next k n := ⟨k.col + 1, k.pos + 4 + n + 8, u32 (k.acc + 4 + n + 8)⟩
  Stop k := ZeroAt msg k.pos

def SelectVars.place (v : SelectVars) : Place := ⟨v.idx, v.pmsg, v.accStrSz⟩

section Select

variable {msg : NetworkMsg} {v : SelectVars}

theorem u16_succ {n : ℕ} (h : n < maxColNum) : u16 (n + 1) = n + 1 := by
  have hmax : maxColNum = 20 := rfl
  exact Nat.mod_eq_of_lt (by omega)

theorem selectTuple_cases {r : ℤ ⊕ SelectVars} (h : selectTuple msg v = .ok r) :
    (r = .inl (-1) ∧ (selectGrammar msg).Stop v.place) ∨
      ∃ n v', r = .inr v' ∧ (selectGrammar msg).Item v.place n ∧
        v'.place = (selectGrammar msg).next v.place n := by
  unfold selectTuple at h
  rcases readLength_cases h with ⟨rfl, hzero⟩ | ⟨n, hn, hword, h⟩
  · exact Or.inl ⟨rfl, hzero⟩
  -- the value is read without any check
  simp only [bind_eq_ok] at h
  obtain ⟨name, hname, _, hfits, val, hval, h⟩ := h
  obtain ⟨hcol, hcap⟩ := require_eq_ok.mp hfits
  have htext : TextAt msg bufferCap v.pmsg n :=
    ⟨hword, hn, hcap, (NetworkMsg.readBytes_eq_ok.mp hname).1⟩
  have hval := (NetworkMsg.readBytes_eq_ok.mp hval).1
  cases h
  refine Or.inr ⟨n, _, rfl, ⟨hcol, htext, hval⟩, ?_⟩
  simp only [SelectVars.place, selectGrammar, u32_add_left, u16_succ hcol]

theorem selectTuple_of_item {n : ℕ} (h : (selectGrammar msg).Item v.place n) :
    ∃ v', selectTuple msg v = .ok (.inr v') ∧
      v'.place = (selectGrammar msg).next v.place n := by
  obtain ⟨(hcol : v.idx < maxColNum), (htext : TextAt msg _ v.pmsg n),
    (hval : v.pmsg + 4 + n + 8 ≤ maxNetMsg)⟩ := h
  have hn : n ≠ 0 := Nat.pos_iff_ne_zero.mp htext.one_le
  unfold selectTuple
  simp only [htext.readWord, ok_bind, if_neg hn, htext.readBytes,
    require_true (And.intro hcol htext.le), NetworkMsg.readBytes_of_le hval]
  refine ⟨_, rfl, ?_⟩
  simp only [SelectVars.place, selectGrammar, u32_add_left, u16_succ hcol]

theorem selectTuple_of_stop (h : (selectGrammar msg).Stop v.place) :
    selectTuple msg v = .ok (.inl (-1)) := by
  have hzero : ZeroAt msg v.pmsg := h
  rw [selectTuple, hzero.readWord, ok_bind]
  rfl

theorem selectTuple_reads (msg : NetworkMsg) :
    Reads (selectGrammar msg) SelectVars.place
      (fun v => decide (v.accStrSz < msg.paramSz.toNat)) (selectTuple msg) :=
  Reads.of_cases (fun _ => decide_eq_true_iff)
    (fun _ _ h => (selectTuple_cases h).imp_left fun hstop => ⟨_, hstop⟩)
    (fun _ h => ⟨_, selectTuple_of_stop h⟩) (fun _ _ h => selectTuple_of_item h)

theorem selectTuple_neg (v : SelectVars) (ret : ℤ) (h : selectTuple msg v = .ok (.inl ret)) :
    ret < 0 := by
  rcases selectTuple_cases h with ⟨h, _⟩ | ⟨n, v', h, _⟩
  · cases h
    decide
  · cases h

end Select

/-! ### Insert messages -/

/-- The first column of that name. -/
def columnNamed (phead : LayoutHeader) (name : List UInt8) : Option ℕ :=
  (List.range phead.sz).find? fun i => (phead.columns i).name.bytes = name

/-- The columns before it, or all columns if there is none of that name. -/
def columnsBefore (phead : LayoutHeader) (name : List UInt8) : List ℕ :=
  (List.range phead.sz).takeWhile fun i => (phead.columns i).name.bytes ≠ name

/-- How far `offset` moves over the columns `is`: it counts those with a name as long as `name`. -/
def passColumns (phead : LayoutHeader) (name : List UInt8) (is : List ℕ) (offset : ℕ) : ℕ :=
  is.foldl (fun offset i =>
    if (phead.columns i).name.sz = name.length then u32 (offset + (phead.columns i).typsz)
    else offset) offset

theorem insertColumn_eq {phead : LayoutHeader} {name : List UInt8} {is : List ℕ}
    (his : ∀ i ∈ is, i < maxColNum) (offset : ℕ) :
    insertColumn phead name is offset = .ok
      (passColumns phead name (is.takeWhile fun i => (phead.columns i).name.bytes ≠ name) offset,
        is.find? fun i => (phead.columns i).name.bytes = name) := by
  induction is generalizing offset with
  | nil => rfl
  | cons i is ih =>
    have ih := fun offset => ih (fun i' hi' => his i' (List.mem_cons_of_mem _ hi')) offset
    rw [insertColumn, require_true (his i (List.mem_cons_self ..)), ok_bind]
    by_cases hname : (phead.columns i).name.bytes = name
    · have hsz : (phead.columns i).name.sz = name.length := by
        rw [← hname, BufferSz.length_bytes]
      rw [if_pos hsz, if_pos hname, List.takeWhile_cons_of_neg (by simpa using hname),
        List.find?_cons_of_pos (by simpa using hname)]
      rfl
    · rw [List.takeWhile_cons_of_pos (by simpa using hname),
        List.find?_cons_of_neg (by simpa using hname), passColumns, List.foldl_cons]
      split_ifs with hsz
      · exact ih _
      · exact ih _

/-- Where the insert loop is: as `Place`, with the value of `offset`. -/
structure InsertPlace where
  pos : ℕ
  acc : ℕ
  offset : ℕ

/-- The value of `offset` behind the columns before the one that the text at `pos` names. -/
def offsetAt (phead : LayoutHeader) (msg : NetworkMsg) (k : InsertPlace) (n : ℕ) : ℕ :=
  passColumns phead (msg.buff.read (k.pos + 4) n)
    (columnsBefore phead (msg.buff.read (k.pos + 4) n)) k.offset

/-- An item is a name that no column has; the name of a column ends the loop. -/
def insertGrammar (phead : LayoutHeader) (msg : NetworkMsg) : Grammar InsertPlace ℕ where
  More k := k.acc < msg.paramSz.toNat
  Item k n :=
    TextAt msg maxColNum k.pos n ∧ columnNamed phead (msg.buff.read (k.pos + 4) n) = none ∧
      offsetAt phead msg k n ≠ 0
  next k n := ⟨k.pos + 4 + n, u32 (k.acc + 4 + n), offsetAt phead msg k n⟩
  Stop k :=
    ZeroAt msg k.pos ∨ ∃ n, TextAt msg maxColNum k.pos n ∧
      ((columnNamed phead (msg.buff.read (k.pos + 4) n) = none ∧ offsetAt phead msg k n = 0) ∨
        ∃ i, columnNamed phead (msg.buff.read (k.pos + 4) n) = some i ∧
          k.pos + 4 + n + (phead.columns i).typsz ≤ maxNetMsg ∧
          offsetAt phead msg k n + (phead.columns i).typsz ≤ maxNetMsg)

def InsertVars.place (v : InsertVars) : InsertPlace := ⟨v.pmsg, v.accStrSz, v.offset⟩

section Insert

variable {phead : LayoutHeader} {msg : NetworkMsg} {v : InsertVars}

theorem insertColumn_range (hsz : phead.sz ≤ maxColNum) (n : ℕ) :
    insertColumn phead (msg.buff.read (v.pmsg + 4) n) (List.range phead.sz) v.offset =
      .ok (offsetAt phead msg v.place n, columnNamed phead (msg.buff.read (v.pmsg + 4) n)) :=
  insertColumn_eq (fun i hi => by have := List.mem_range.mp hi; omega) _

theorem insertTuple_cases (hsz : phead.sz ≤ maxColNum) {r : ℤ ⊕ InsertVars}
    (h : insertTuple phead msg v = .ok r) :
    (r = .inl (-1) ∧ (insertGrammar phead msg).Stop v.place) ∨
      ∃ n v', r = .inr v' ∧ (insertGrammar phead msg).Item v.place n ∧
        v'.place = (insertGrammar phead msg).next v.place n := by
  unfold insertTuple at h
  rcases readLength_cases h with ⟨rfl, hzero⟩ | ⟨n, hn, hword, h⟩
  · exact Or.inl ⟨rfl, Or.inl hzero⟩
  simp only [bind_eq_ok] at h
  obtain ⟨name, hname, _, hfits, ⟨offset, found⟩, hcolumn, h⟩ := h
  obtain ⟨hread, rfl⟩ := NetworkMsg.readBytes_eq_ok.mp hname
  have htext : TextAt msg maxColNum v.pmsg n := ⟨hword, hn, require_eq_ok.mp hfits, hread⟩
  rw [insertColumn_range hsz] at hcolumn
  cases hcolumn
  rcases hfound : columnNamed phead (msg.buff.read (v.pmsg + 4) n) with _ | i
  · -- no column has the name: the loop goes on, unless `offset` is still zero
    simp only [hfound] at h
    change (if offsetAt phead msg v.place n = 0 then _ else _) = _ at h
    split_ifs at h with hoff
    · cases h
      exact Or.inl ⟨rfl, Or.inr ⟨n, htext, Or.inl ⟨hfound, hoff⟩⟩⟩
    · cases h
      refine Or.inr ⟨n, _, rfl, ⟨htext, hfound, hoff⟩, ?_⟩
      simp only [InsertVars.place, insertGrammar, u32_add_left]
  · -- a column has it: its value is copied, and the function returns all the same
    simp only [hfound, bind_eq_ok] at h
    obtain ⟨val, hval, _, hroom, v', hv', h⟩ := h
    cases hv'
    cases h
    have hval := (NetworkMsg.readBytes_eq_ok.mp hval).1
    exact Or.inl ⟨rfl, Or.inr ⟨n, htext, Or.inr ⟨i, hfound, hval, require_eq_ok.mp hroom⟩⟩⟩

theorem insertTuple_of_stop (hsz : phead.sz ≤ maxColNum)
    (h : (insertGrammar phead msg).Stop v.place) :
    insertTuple phead msg v = .ok (.inl (-1)) := by
  unfold insertTuple
  rcases h with (hzero : ZeroAt msg v.pmsg) | ⟨n, (htext : TextAt msg _ v.pmsg n), hrest⟩
  · rw [hzero.readWord, ok_bind]
    rfl
  have hn : n ≠ 0 := Nat.pos_iff_ne_zero.mp htext.one_le
  simp only [htext.readWord, ok_bind, if_neg hn, htext.readBytes, require_true htext.le,
    insertColumn_range hsz]
  rcases hrest with ⟨hnone, hoff⟩ | ⟨i, hsome, hval, hroom⟩
  · rw [show columnNamed phead (msg.buff.read (v.pmsg + 4) n) = none from hnone]
    exact if_pos hoff
  · rw [show columnNamed phead (msg.buff.read (v.pmsg + 4) n) = some i from hsome]
    simp only [NetworkMsg.readBytes_of_le (show v.pmsg + 4 + n + _ ≤ maxNetMsg from hval), ok_bind,
      require_true hroom]
    rfl

theorem insertTuple_of_item (hsz : phead.sz ≤ maxColNum) {n : ℕ}
    (h : (insertGrammar phead msg).Item v.place n) :
    ∃ v', insertTuple phead msg v = .ok (.inr v') ∧
      v'.place = (insertGrammar phead msg).next v.place n := by
  obtain ⟨(htext : TextAt msg _ v.pmsg n),
    (hnone : columnNamed phead (msg.buff.read (v.pmsg + 4) n) = none), hoff⟩ := h
  have hn : n ≠ 0 := Nat.pos_iff_ne_zero.mp htext.one_le
  unfold insertTuple
  simp only [htext.readWord, ok_bind, if_neg hn, htext.readBytes, require_true htext.le,
    insertColumn_range hsz, hnone]
  refine ⟨_, if_neg hoff, ?_⟩
  simp only [InsertVars.place, insertGrammar, u32_add_left]

theorem insertTuple_reads (hsz : phead.sz ≤ maxColNum) (msg : NetworkMsg) :
    Reads (insertGrammar phead msg) InsertVars.place
      (fun v => decide (v.accStrSz < msg.paramSz.toNat)) (insertTuple phead msg) :=
  Reads.of_cases (fun _ => decide_eq_true_iff)
    (fun _ _ h => (insertTuple_cases hsz h).imp_left fun hstop => ⟨_, hstop⟩)
    (fun _ h => ⟨_, insertTuple_of_stop hsz h⟩) (fun _ _ h => insertTuple_of_item hsz h)

theorem insertTuple_neg (hsz : phead.sz ≤ maxColNum) (v : InsertVars) (ret : ℤ)
    (h : insertTuple phead msg v = .ok (.inl ret)) : ret < 0 := by
  rcases insertTuple_cases hsz h with ⟨h, _⟩ | ⟨n, v', h, _⟩
  · cases h
    decide
  · cases h

end Insert

/-! ### The three loops -/

/-- No message is so long that the fuel of `handleCreate` runs out. -/
theorem createLoop_ends_iff {tgt : Target} {msg : NetworkMsg} {v : CreateVars}
    {r : ℤ ⊕ CreateVars} :
    Ends (fun v => decide (v.accStrSz < msg.paramSz.toNat)) (createTuple tgt msg) v r ↔
      createLoop tgt msg (maxNetMsg + 1) v = .ok r := by
  -- every turn reads at `pmsg`, below the end of the message, and moves it on
  apply ends_iff_of_measure (fun v => maxNetMsg - v.pmsg)
  · intro v v' _ hbody
    rcases createTuple_cases hbody with ⟨h, _⟩ | ⟨t, v'', h, ⟨_, htext, _, _⟩, hnext, _⟩
    · cases h
    · cases h
      have hin : v.pmsg + 4 + t.nameSz ≤ maxNetMsg := htext.inside
      have hpos : v'.pmsg = v.pmsg + 4 + t.nameSz + 4 + t.typeSz := congrArg Place.pos hnext
      omega
  · omega

theorem selectLoop_ends_iff {msg : NetworkMsg} {v : SelectVars} {r : ℤ ⊕ SelectVars} :
    Ends (fun v => decide (v.accStrSz < msg.paramSz.toNat)) (selectTuple msg) v r ↔
      selectLoop msg (maxNetMsg + 1) v = .ok r := by
  apply ends_iff_of_measure (fun v => maxNetMsg - v.pmsg)
  · intro v v' _ hbody
    rcases selectTuple_cases hbody with ⟨h, _⟩ | ⟨n, v'', h, ⟨_, htext, _⟩, hnext⟩
    · cases h
    · cases h
      have hin : v.pmsg + 4 + n ≤ maxNetMsg := htext.inside
      have hpos : v'.pmsg = v.pmsg + 4 + n + 8 := congrArg Place.pos hnext
      omega
  · omega

theorem insertLoop_ends_iff {phead : LayoutHeader} (hsz : phead.sz ≤ maxColNum) {msg : NetworkMsg}
    (hparam : msg.paramSz.toNat ≤ maxNetMsg) {v : InsertVars} {r : ℤ ⊕ InsertVars} :
    Ends (fun v => decide (v.accStrSz < msg.paramSz.toNat)) (insertTuple phead msg)
        { v with buff := v.buff.write 0 (List.replicate msg.paramSz.toNat 0) } r ↔
      insertLoop phead msg (maxNetMsg + 1) v = .ok r := by
  rw [insertLoop, require_true hparam, ok_bind]
  apply ends_iff_of_measure (fun v => maxNetMsg - v.pmsg)
  · intro v v' _ hbody
    rcases insertTuple_cases hsz hbody with ⟨h, _⟩ | ⟨n, v'', h, ⟨htext, _⟩, hnext⟩
    · cases h
    · cases h
      have hin : v.pmsg + 4 + n ≤ maxNetMsg := htext.inside
      have hpos : v'.pmsg = v.pmsg + 4 + n := congrArg InsertPlace.pos hnext
      have hone := htext.one_le
      omega
  · omega

theorem createLoop_safelyParsed (tgt : Target) (msg : NetworkMsg) (v : CreateVars) :
    (SafelyParsed fun fuel => createLoop tgt msg fuel v) ↔
      ∃ ts, (createGrammar tgt msg).Fits ts v.place :=
  (safelyParsed_iff_ends createTuple_neg v).trans ((createTuple_reads tgt msg).ends_iff_fits v)

theorem selectLoop_safelyParsed (msg : NetworkMsg) (v : SelectVars) :
    (SafelyParsed fun fuel => selectLoop msg fuel v) ↔
      ∃ ns, (selectGrammar msg).Fits ns v.place :=
  (safelyParsed_iff_ends selectTuple_neg v).trans ((selectTuple_reads msg).ends_iff_fits v)

theorem insertLoop_safelyParsed {phead : LayoutHeader} (hsz : phead.sz ≤ maxColNum)
    (msg : NetworkMsg) (v : InsertVars) :
    (SafelyParsed fun fuel => insertLoop phead msg fuel v) ↔
      msg.paramSz.toNat ≤ maxNetMsg ∧ ∃ ns, (insertGrammar phead msg).Fits ns v.place := by
  by_cases hparam : msg.paramSz.toNat ≤ maxNetMsg
  · have hrun : ∀ fuel, insertLoop phead msg fuel v = whileLoop _ (insertTuple phead msg) fuel _ :=
      fun fuel => by rw [insertLoop, require_true hparam, ok_bind]
    simp only [hrun, and_iff_right hparam]
    exact (safelyParsed_iff_ends (insertTuple_neg hsz) _).trans
      ((insertTuple_reads hsz msg).ends_iff_fits _)
  · -- the `memset` goes over the end of `buff`
    refine iff_of_false ?_ fun h => hparam h.1
    rintro ⟨fuel₀, r, hrun, _⟩
    have h : insertLoop phead msg fuel₀ v = .ok r := hrun fuel₀ le_rfl
    rw [insertLoop, require_false hparam] at h
    cases h

/-- **Memory safety of parsing.**  Each loop stays inside its arrays and ends, with a negative
result if it refuses the message, if and only if the message has the shape that the loop takes for
granted. -/
theorem safelyParsed_iff (tgt : Target) (msg : NetworkMsg) (header : LayoutHeader) (type : ColTyp)
    (cols : ℕ → BufferSz) (vals : ℕ → RawVal) (buff colName : Mem) {phead : LayoutHeader}
    (hsz : phead.sz ≤ maxColNum) :
    ((SafelyParsed fun fuel => createLoop tgt msg fuel ⟨header, type, 0, msg.layNmSz.toNat, 0⟩) ↔
      ∃ ts, (createGrammar tgt msg).Fits ts ⟨0, msg.layNmSz.toNat, 0⟩) ∧
    ((SafelyParsed fun fuel => selectLoop msg fuel ⟨cols, vals, 0, msg.layNmSz.toNat, 0⟩) ↔
      ∃ ns, (selectGrammar msg).Fits ns ⟨0, msg.layNmSz.toNat, 0⟩) ∧
    ((SafelyParsed fun fuel =>
        insertLoop phead msg fuel ⟨buff, colName, 0, msg.layNmSz.toNat, 0⟩) ↔
      msg.paramSz.toNat ≤ maxNetMsg ∧
        ∃ ns, (insertGrammar phead msg).Fits ns ⟨msg.layNmSz.toNat, 0, 0⟩) :=
  ⟨createLoop_safelyParsed tgt msg _, selectLoop_safelyParsed msg _,
    insertLoop_safelyParsed hsz msg _⟩

/-! ### Two messages -/

/-- A table `t` with the column `col1` of type `int`. -/
def oneColumnMsg : NetworkMsg where
  buff := Mem.ofList ([0x74] ++ wordBytes 4 ++ [0x63, 0x6f, 0x6c, 0x31] ++
    wordBytes 3 ++ [0x69, 0x6e, 0x74])
  layNmSz := 1
  paramSz := 15
  qTyp := .CR

/-- A 64-bit machine with zeros behind its string literals. -/
def lp64 : Target := ⟨8, Or.inr rfl, fun _ _ => 0⟩

/-- All variables zero. -/
def zeroHeader : LayoutHeader := ⟨0, fun _ => ⟨⟨0, fun _ => 0⟩, 0, 0, .INT⟩⟩

theorem oneColumnMsg_fits :
    (createGrammar lp64 oneColumnMsg).Fits [⟨4, 3⟩] ⟨0, 1, 0⟩ := by
  have hname : TextAt oneColumnMsg bufferCap 1 4 := ⟨by decide, by decide, by decide, by decide⟩
  have htype : TypeAt oneColumnMsg 9 3 := ⟨by decide, by decide, by decide⟩
  have hknown : KnownType lp64 oneColumnMsg 9 3 := by
    unfold KnownType
    decide
  refine ⟨?_, ⟨?_, hname, htype, hknown⟩, Or.inl ?_⟩
  · show 0 < 15
    decide
  · show 0 < 20
    decide
  · show ¬15 < 15
    decide

theorem createLoop_oneColumnMsg :
    SafelyParsed fun fuel => createLoop lp64 oneColumnMsg fuel ⟨zeroHeader, .INT, 0, 1, 0⟩ :=
  (safelyParsed_iff lp64 oneColumnMsg zeroHeader .INT (fun _ => ⟨0, fun _ => 0⟩)
    (fun _ => RawVal.ofMem (fun _ => 0) 0) (fun _ => 0) (fun _ => 0)
    (by decide : zeroHeader.sz ≤ maxColNum)).1.mpr ⟨_, oneColumnMsg_fits⟩

/-- A column whose name has 1500 bytes. -/
def longNameMsg : NetworkMsg where
  buff := Mem.ofList (wordBytes 1500)
  layNmSz := 0
  paramSz := 1511
  qTyp := .CR

/-- The name is copied into an array of 1024 bytes. -/
theorem not_safelyParsed_longNameMsg :
    ¬SafelyParsed fun fuel => createLoop lp64 longNameMsg fuel ⟨zeroHeader, .INT, 0, 0, 0⟩ := by
  rw [createLoop_safelyParsed]
  have hword : longNameMsg.buff.word 0 = 1500 := by decide
  have htext : ∀ n, ¬TextAt longNameMsg bufferCap 0 n := by
    intro n h
    have hn : 1500 = n := hword.symm.trans h.word
    have hle : n ≤ 1024 := h.le
    omega
  rintro ⟨_ | ⟨t, ts⟩, hfits⟩
  · rcases hfits with hmore | hzero | ⟨n, _, h, _⟩
    · exact hmore (by decide : 0 < 1511)
    · exact absurd (hword.symm.trans hzero.word) (by decide)
    · exact htext n h
  · exact htext _ hfits.2.1.2.1

end Lab1.MemDb
