import Lab1.MemDb.Equiv.Catalogue
import Lab1.MemDb.Equiv.Headers

/-!
# Two descriptions of a table

A program describes a table with `ColumnDef` objects that it gives to `addColumnDef`; a client
describes it in a create message.  The sizes of the column types come from two tables, `gTypeRef`
and `getTypSzByStr`, which differ for `VCR`; and `handle_create` sets no `loc`.

`agreeBothWays_iff` says for which schemas the two descriptions come to the same.
-/

namespace Lab1.MemDb

/-! ### Schemas -/

/-- The names of the types in create messages. -/
def typeName : ColTyp → List Char
  | .INT => ['i', 'n', 't']
  | .LONG => ['l', 'o', 'n', 'g']
  | .LLONG => ['l', 'o', 'n', 'g', ' ', 'l', 'o', 'n', 'g']
  | .FLOAT => ['f', 'l', 'o', 'a', 't']
  | .DOUBLE => ['d', 'o', 'u', 'b', 'l', 'e']
  | .VCR => ['v', 'a', 'r', 'c']

def typeBytes (t : ColTyp) : List UInt8 := (typeName t).map fun c => UInt8.ofNat c.toNat

structure SchemaCol where
  name : BufferSz
  typ : ColTyp
  one_le : 1 ≤ name.sz
  le : name.sz ≤ bufferCap

namespace SchemaCol

/-- The tuple `<col name, type>` of a create message: both with their lengths before them. -/
def encode (c : SchemaCol) : List UInt8 :=
  wordBytes c.name.sz ++ (c.name.bytes ++ (wordBytes (typeBytes c.typ).length ++ typeBytes c.typ))

end SchemaCol

def encodeSchema (cols : List SchemaCol) : List UInt8 := cols.flatMap SchemaCol.encode

/-- The message `msg` creates a table with the columns `cols`. -/
structure Encodes (msg : NetworkMsg) (cols : List SchemaCol) : Prop where
  paramSz : msg.paramSz.toNat = (encodeSchema cols).length
  fits : msg.layNmSz.toNat + (encodeSchema cols).length ≤ maxNetMsg
  params : msg.buff.read msg.layNmSz.toNat (encodeSchema cols).length = encodeSchema cols

/-! ### The property -/

/-- The sum of the sizes of the first `i` columns. -/
def packedLoc (tgt : Target) (cols : List SchemaCol) (i : ℕ) : ℕ :=
  ((cols.take i).map fun c => gTypeRef tgt c.typ).sum

/-- A program that describes the columns, each with the sum of the sizes before it as `loc`. -/
def addColumns (tgt : Target) (uninit : ColumnDef) :
    List SchemaCol → ℕ → LayoutHeader → Except Fault LayoutHeader
  | [], _, h => .ok h
  | c :: cs, loc, h => do
    let d ← ColumnDef.new tgt uninit c.name loc c.typ
    let (h, _) ← h.addColumnDef d
    addColumns tgt uninit cs (loc + gTypeRef tgt c.typ) h

/-- The header that `handle_create` builds from the message is the one that the program builds. -/
def AgreeBothWays (tgt : Target) (mem : Leftover) (msg : NetworkMsg) (dst : LayoutHeader)
    (uninit : ColumnDef) (cols : List SchemaCol) : Prop :=
  ∃ vars h, createLoop tgt msg (maxNetMsg + 1) (createVars mem msg) = .ok (.inr vars) ∧
    addColumns tgt uninit cols 0 { dst with sz := 0 } = .ok h ∧
    vars.colDefSz = h.sz ∧ vars.header.SameCols h h.sz

/-! ### The program -/

theorem packedLoc_cons (tgt : Target) (c : SchemaCol) (cols : List SchemaCol) (i : ℕ) :
    packedLoc tgt (c :: cols) (i + 1) = gTypeRef tgt c.typ + packedLoc tgt cols i := by
  simp [packedLoc]

theorem ColumnDef.new_eq (tgt : Target) (uninit : ColumnDef) (c : SchemaCol) (loc : ℕ) :
    ColumnDef.new tgt uninit c.name loc c.typ = .ok { uninit with
      name := uninit.name.set c.name.bytes, loc, typsz := gTypeRef tgt c.typ } := by
  unfold ColumnDef.new
  rw [require_true c.le]
  rfl

/-- The columns are described one behind the other. -/
theorem addColumns_spec (tgt : Target) (uninit : ColumnDef) (cols : List SchemaCol) (loc : ℕ)
    {h : LayoutHeader} (hroom : h.sz + cols.length ≤ maxColNum) :
    ∃ h', addColumns tgt uninit cols loc h = .ok h' ∧ h'.sz = h.sz + cols.length ∧
      (∀ j < h.sz, h'.columns j = h.columns j) ∧
      ∀ i, (hi : i < cols.length) →
        (h'.columns (h.sz + i)).name.bytes = cols[i].name.bytes ∧
        (h'.columns (h.sz + i)).loc = loc + packedLoc tgt cols i ∧
        (h'.columns (h.sz + i)).typsz = gTypeRef tgt cols[i].typ := by
  induction cols generalizing loc h with
  | nil => exact ⟨h, rfl, rfl, fun _ _ => rfl, fun i hi => absurd hi (Nat.not_lt_zero i)⟩
  | cons c cols ih =>
    rw [List.length_cons] at hroom
    have hname : (uninit.name.set c.name.bytes).sz ≤ bufferCap := by
      rw [BufferSz.set_sz, BufferSz.length_bytes]
      exact c.le
    have hadd := LayoutHeader.addColumnDef_eq (h := h) (d := { uninit with
      name := uninit.name.set c.name.bytes, loc, typsz := gTypeRef tgt c.typ }) (by omega) hname
    obtain ⟨h', hrest, hsz, hbefore, hcols⟩ := ih (loc + gTypeRef tgt c.typ)
      (h := { h.setColumn h.sz { h.columns h.sz with
        name := (h.columns h.sz).name.set (uninit.name.set c.name.bytes).bytes
        loc := loc, typsz := gTypeRef tgt c.typ } with sz := h.sz + 1 }) (by simp only; omega)
    refine ⟨h', ?_, ?_, fun j hj => ?_, fun i hi => ?_⟩
    · rw [addColumns, ColumnDef.new_eq, ok_bind, hadd]
      exact hrest
    · rw [hsz, List.length_cons]
      simp only
      omega
    · rw [hbefore j (Nat.lt_succ_of_lt hj)]
      exact Function.update_of_ne hj.ne _ _
    · cases i with
      | zero =>
        -- the column that the first call has filled in
        rw [Nat.add_zero, hbefore h.sz (Nat.lt_succ_self _), LayoutHeader.setColumn]
        simp [packedLoc]
      | succ i =>
        have hcol := hcols i (by simpa using hi)
        have hidx : h.sz + (i + 1) = h.sz + 1 + i := by omega
        rw [packedLoc_cons, ← Nat.add_assoc loc, hidx]
        exact hcol

/-! ### The create message -/

/-- The two tables of sizes differ for `VCR`. -/
theorem getTypSzByStr_typeBytes (tgt : Target) (t oTyp : ColTyp) :
    getTypSzByStr tgt (typeBytes t) oTyp = (if t = .VCR then 4 else gTypeRef tgt t, t) := by
  cases t with
  | INT => rfl
  | LONG => rfl
  | LLONG => rfl
  | FLOAT => rfl
  | DOUBLE => rfl
  | VCR => rfl

theorem msgTypSz_ne_bad (tgt : Target) (t : ColTyp) :
    (if t = .VCR then 4 else gTypeRef tgt t) ≠ badTypSz := by
  have hlong := tgt.long_eq
  have hle : (if t = .VCR then 4 else gTypeRef tgt t) ≤ 8 := by
    cases t with
    | LONG =>
      show tgt.sizeofLong ≤ 8
      omega
    | INT => exact (by decide : 4 ≤ 8)
    | FLOAT => exact (by decide : 4 ≤ 8)
    | LLONG => exact le_refl 8
    | DOUBLE => exact le_refl 8
    | VCR => exact (by decide : 4 ≤ 8)
  have hbig : 8 < badTypSz := by decide
  omega

theorem length_typeBytes (t : ColTyp) : 1 ≤ (typeBytes t).length ∧ (typeBytes t).length ≤ 9 := by
  cases t with
  | INT | LONG | LLONG | FLOAT | DOUBLE | VCR => decide

theorem SchemaCol.length_encode (c : SchemaCol) :
    c.encode.length = 8 + c.name.sz + (typeBytes c.typ).length := by
  simp only [encode, List.length_append, length_wordBytes, BufferSz.length_bytes]
  omega

/-- The local variables after a turn that has read the column `c`. -/
def CreateVars.withColumn (tgt : Target) (v : CreateVars) (c : SchemaCol) : CreateVars where
  header := v.header.setColumn v.colDefSz { v.header.columns v.colDefSz with
    name := (v.header.columns v.colDefSz).name.set c.name.bytes
    typsz := if c.typ = .VCR then 4 else gTypeRef tgt c.typ
    typ := c.typ }
  type := c.typ
  colDefSz := v.colDefSz + 1
  pmsg := v.pmsg + c.encode.length
  accStrSz := v.accStrSz + c.encode.length

section WithColumn

variable (tgt : Target) (v : CreateVars) (c : SchemaCol)

theorem CreateVars.withColumn_colDefSz : (v.withColumn tgt c).colDefSz = v.colDefSz + 1 := rfl

theorem CreateVars.withColumn_pmsg : (v.withColumn tgt c).pmsg = v.pmsg + c.encode.length := rfl

theorem CreateVars.withColumn_accStrSz :
    (v.withColumn tgt c).accStrSz = v.accStrSz + c.encode.length := rfl

/-- The turn leaves the other columns alone. -/
theorem CreateVars.withColumn_columns_of_ne {j : ℕ} (hj : j ≠ v.colDefSz) :
    (v.withColumn tgt c).header.columns j = v.header.columns j := Function.update_of_ne hj _ _

theorem CreateVars.withColumn_columns_self :
    (v.withColumn tgt c).header.columns v.colDefSz = { v.header.columns v.colDefSz with
      name := (v.header.columns v.colDefSz).name.set c.name.bytes
      typsz := if c.typ = .VCR then 4 else gTypeRef tgt c.typ
      typ := c.typ } := Function.update_self _ _ _

end WithColumn

/-- One turn of the loop reads one encoded column. -/
theorem createTuple_encode (tgt : Target) {msg : NetworkMsg} {v : CreateVars} {c : SchemaCol}
    (hcol : v.colDefSz < maxColNum) (hread : msg.buff.read v.pmsg c.encode.length = c.encode)
    (hin : v.pmsg + c.encode.length ≤ maxNetMsg)
    (hacc : v.accStrSz + c.encode.length < 4294967296) :
    createTuple tgt msg v = .ok (.inr (v.withColumn tgt c)) := by
  have hone := c.one_le
  have hle := c.le
  have hcap : bufferCap = 1024 := rfl
  obtain ⟨htype1, htype9⟩ := length_typeBytes c.typ
  have hlen := c.length_encode
  have hbytes : c.name.bytes.length = c.name.sz := BufferSz.length_bytes _
  unfold SchemaCol.encode at hread
  rw [Mem.read_append_iff, Mem.read_append_iff, Mem.read_append_iff, hbytes, length_wordBytes,
    length_wordBytes] at hread
  obtain ⟨hword₁, hname, hword₂, htype⟩ := hread
  have hname_word := Mem.word_of_read (by omega) hword₁
  have htype_word := Mem.word_of_read (by omega) hword₂
  have hu16 : u16 (typeBytes c.typ).length = (typeBytes c.typ).length := Nat.mod_eq_of_lt (by omega)
  have hread₁ : msg.readWord v.pmsg = .ok c.name.sz :=
    NetworkMsg.readWord_eq_ok.mpr ⟨by omega, hname_word⟩
  have hread₂ : msg.readBytes (v.pmsg + 4) c.name.sz = .ok c.name.bytes := by
    rw [NetworkMsg.readBytes_of_le (by omega), hname]
  have hread₃ : msg.readWord (v.pmsg + 4 + c.name.sz) = .ok (typeBytes c.typ).length :=
    NetworkMsg.readWord_eq_ok.mpr ⟨by omega, htype_word⟩
  have hread₄ : msg.readBytes (v.pmsg + 4 + c.name.sz + 4) (typeBytes c.typ).length
      = .ok (typeBytes c.typ) := by
    rw [NetworkMsg.readBytes_of_le (by omega), htype]
  unfold createTuple
  simp only [hread₁, ok_bind, if_neg (Nat.pos_iff_ne_zero.mp hone), hread₂,
    require_true (And.intro hcol hle), hread₃, if_neg (Nat.pos_iff_ne_zero.mp htype1), hu16, hread₄,
    getTypSzByStr_typeBytes, if_neg (msgTypSz_ne_bad tgt c.typ)]
  simp only [u32_add_left]
  rw [u32_of_lt (by omega)]
  have hpos : v.pmsg + 4 + c.name.sz + 4 + (typeBytes c.typ).length
      = v.pmsg + c.encode.length := by omega
  have hcount : v.accStrSz + 4 + c.name.sz + 4 + (typeBytes c.typ).length
      = v.accStrSz + c.encode.length := by omega
  rw [hpos, hcount]
  rfl

theorem encodeSchema_cons (c : SchemaCol) (cols : List SchemaCol) :
    encodeSchema (c :: cols) = c.encode ++ encodeSchema cols := List.flatMap_cons

/-- What the loop makes of the columns of the schema. -/
theorem createLoop_encode (tgt : Target) {msg : NetworkMsg} {cols : List SchemaCol}
    {v : CreateVars} (fuel : ℕ) (hfuel : cols.length < fuel)
    (hroom : v.colDefSz + cols.length ≤ maxColNum)
    (hread : msg.buff.read v.pmsg (encodeSchema cols).length = encodeSchema cols)
    (hin : v.pmsg + (encodeSchema cols).length ≤ maxNetMsg)
    (hacc : v.accStrSz + (encodeSchema cols).length = msg.paramSz.toNat) :
    ∃ v', createLoop tgt msg fuel v = .ok (.inr v') ∧ v'.colDefSz = v.colDefSz + cols.length ∧
      (∀ j < v.colDefSz, v'.header.columns j = v.header.columns j) ∧
      ∀ i, (hi : i < cols.length) →
        (v'.header.columns (v.colDefSz + i)).name.bytes = cols[i].name.bytes ∧
        (v'.header.columns (v.colDefSz + i)).loc = (v.header.columns (v.colDefSz + i)).loc ∧
        (v'.header.columns (v.colDefSz + i)).typsz
          = if cols[i].typ = .VCR then 4 else gTypeRef tgt cols[i].typ := by
  induction cols generalizing v fuel with
  | nil =>
    obtain ⟨fuel, rfl⟩ : ∃ n, fuel = n + 1 := ⟨fuel - 1, by omega⟩
    have hacc : v.accStrSz = msg.paramSz.toNat := hacc
    have hcond : decide (v.accStrSz < msg.paramSz.toNat) = false := by
      rw [hacc, decide_eq_false_iff_not]
      exact Nat.lt_irrefl _
    exact ⟨v, whileLoop_of_not hcond, rfl, fun _ _ => rfl,
      fun i hi => absurd hi (Nat.not_lt_zero i)⟩
  | cons c cols ih =>
    obtain ⟨fuel, rfl⟩ : ∃ n, fuel = n + 1 := ⟨fuel - 1, by omega⟩
    rw [List.length_cons] at hfuel hroom
    have hparam : msg.paramSz.toNat < 4294967296 := msg.paramSz.toNat_lt
    have hpos : 0 < c.encode.length := by
      rw [c.length_encode]
      omega
    rw [encodeSchema_cons] at hread hin hacc
    rw [List.length_append] at hin hacc
    obtain ⟨hfirst, hrest⟩ := (Mem.read_append_iff _ _).mp hread
    have hcond : decide (v.accStrSz < msg.paramSz.toNat) = true := decide_eq_true (by omega)
    have hturn := createTuple_encode tgt (v := v) (by omega) hfirst (by omega) (by omega)
    obtain ⟨v', hloop, hsz, hbefore, hcols⟩ := ih (v := v.withColumn tgt c) fuel (by omega)
      (by rw [v.withColumn_colDefSz]; omega) hrest (by rw [v.withColumn_pmsg]; omega)
      (by rw [v.withColumn_accStrSz]; omega)
    rw [v.withColumn_colDefSz] at hsz hbefore hcols
    refine ⟨v', ?_, ?_, fun j hj => ?_, fun i hi => ?_⟩
    · have hstep : createLoop tgt msg (fuel + 1) v
          = createLoop tgt msg fuel (v.withColumn tgt c) := whileLoop_of_inr hcond hturn
      rw [hstep, hloop]
    · rw [hsz, List.length_cons]
      omega
    · rw [hbefore j (Nat.lt_succ_of_lt hj), v.withColumn_columns_of_ne tgt c hj.ne]
    · cases i with
      | zero =>
        -- this turn has filled the column in, and the later ones leave it alone
        rw [Nat.add_zero, hbefore v.colDefSz (Nat.lt_succ_self _), v.withColumn_columns_self]
        exact ⟨BufferSz.bytes_set _ _, rfl, rfl⟩
      | succ i =>
        have hcol := hcols i (by simpa using hi)
        have hidx : v.colDefSz + 1 + i = v.colDefSz + (i + 1) := by omega
        rw [hidx, v.withColumn_columns_of_ne tgt c (by omega)] at hcol
        exact hcol

/-! ### When they agree -/

/-- Four bytes in the one table, and 128 in the other. -/
theorem msgTypSz_eq_iff (tgt : Target) (t : ColTyp) :
    (if t = .VCR then 4 else gTypeRef tgt t) = gTypeRef tgt t ↔ t ≠ .VCR := by
  by_cases ht : t = .VCR
  · subst ht
    rw [if_pos rfl]
    exact iff_of_false (by decide : (4 : ℕ) ≠ 128) (fun h => h rfl)
  · rw [if_neg ht]
    exact iff_of_true rfl ht

/-- Column by column. -/
theorem agreeBothWays_iff_columns (tgt : Target) (mem : Leftover) {msg : NetworkMsg}
    (dst : LayoutHeader) (uninit : ColumnDef) {cols : List SchemaCol}
    (hcols : cols.length < maxColNum) (hmsg : Encodes msg cols) :
    AgreeBothWays tgt mem msg dst uninit cols ↔ ∀ i, (hi : i < cols.length) →
      cols[i].typ ≠ .VCR ∧ (mem.header.columns i).loc = packedLoc tgt cols i := by
  have hmax : maxColNum = 20 := rfl
  have hmaxMsg : maxNetMsg = 4096 := rfl
  obtain ⟨v', hloop, hsz, _, hcreate⟩ := createLoop_encode tgt (v := createVars mem msg)
    (maxNetMsg + 1) (by omega) (by simp only [createVars]; omega) hmsg.params hmsg.fits
    (by rw [hmsg.paramSz]; exact Nat.zero_add _)
  obtain ⟨h', hadd, hsz', _, hdescribe⟩ := addColumns_spec tgt uninit cols 0
    (h := { dst with sz := 0 }) (by simp only; omega)
  simp only [createVars, Nat.zero_add] at hsz hcreate
  simp only [Nat.zero_add] at hsz' hdescribe
  have hagree : AgreeBothWays tgt mem msg dst uninit cols ↔ v'.header.SameCols h' cols.length := by
    constructor
    · rintro ⟨v, h, hv, hh, _, hsame⟩
      obtain rfl := Sum.inr.inj (Except.ok.inj (hloop.symm.trans hv))
      obtain rfl := Except.ok.inj (hadd.symm.trans hh)
      rw [← hsz']
      exact hsame
    · intro hsame
      exact ⟨v', h', hloop, hadd, by rw [hsz, hsz'], by rw [hsz']; exact hsame⟩
  rw [hagree]
  unfold LayoutHeader.SameCols
  refine forall₂_congr fun i hi => ?_
  obtain ⟨hname, hloc, htypsz⟩ := hcreate i hi
  obtain ⟨hname', hloc', htypsz'⟩ := hdescribe i hi
  -- the names agree in any case
  rw [hname, hname', hloc, hloc', htypsz, htypsz', msgTypSz_eq_iff]
  exact ⟨fun h => ⟨h.2.2, h.2.1⟩, fun h => ⟨rfl, h.2, h.1⟩⟩

/-- **Two descriptions of a table.**  For a schema of at most 19 columns whose create message fits,
`handle_create` builds the header that `addColumnDef` builds if and only if no column is a `VCR` and
the memory that nothing sets holds the packed positions in the `loc` fields by chance. -/
theorem agreeBothWays_iff (tgt : Target) (mem : Leftover) {msg : NetworkMsg} (dst : LayoutHeader)
    (uninit : ColumnDef) {cols : List SchemaCol} (hcols : cols.length < maxColNum)
    (hmsg : Encodes msg cols) :
    AgreeBothWays tgt mem msg dst uninit cols ↔ (∀ c ∈ cols, c.typ ≠ .VCR) ∧
      ∀ i < cols.length, (mem.header.columns i).loc = packedLoc tgt cols i := by
  rw [agreeBothWays_iff_columns tgt mem dst uninit hcols hmsg]
  constructor
  · intro h
    refine ⟨fun c hc => ?_, fun i hi => (h i hi).2⟩
    obtain ⟨i, hi, rfl⟩ := List.getElem_of_mem hc
    exact (h i hi).1
  · rintro ⟨hvcr, hloc⟩ i hi
    exact ⟨hvcr _ (List.getElem_mem hi), hloc i hi⟩

/-! ### Two tables -/

/-- A column `col1` of type `int`. -/
def intCol : SchemaCol where
  name := ⟨4, Mem.ofList [0x63, 0x6f, 0x6c, 0x31]⟩
  typ := .INT
  one_le := by decide
  le := by decide

/-- A column `col2` of type `int`. -/
def secondIntCol : SchemaCol := { intCol with name := ⟨4, Mem.ofList [0x63, 0x6f, 0x6c, 0x32]⟩ }

theorem encodes_oneColumnMsg : Encodes oneColumnMsg [intCol] :=
  ⟨by decide, by decide, by decide⟩

theorem agreeBothWays_oneColumnMsg :
    AgreeBothWays lp64 (leftoverNe 0) oneColumnMsg zeroHeader (zeroHeader.columns 0) [intCol] := by
  refine (agreeBothWays_iff _ _ _ _ (by decide) encodes_oneColumnMsg).mpr ⟨?_, ?_⟩
  · intro c hc
    rw [List.mem_singleton.mp hc]
    decide
  · intro i hi
    obtain rfl : i = 0 := Nat.lt_one_iff.mp hi
    rfl

/-- A table `t` with the columns `col1` and `col2`. -/
def twoColumnsMsg : NetworkMsg :=
  ⟨Mem.ofList ([0x74] ++ encodeSchema [intCol, secondIntCol]), 1, 30, .CR⟩

theorem encodes_twoColumnsMsg : Encodes twoColumnsMsg [intCol, secondIntCol] :=
  ⟨by decide, by decide, by decide⟩

/-- On memory of zeros both columns lie at the start of the row. -/
theorem not_agreeBothWays_twoColumnsMsg : Encodes twoColumnsMsg [intCol, secondIntCol] ∧
    ¬AgreeBothWays lp64 (leftoverNe 0) twoColumnsMsg zeroHeader (zeroHeader.columns 0)
      [intCol, secondIntCol] := by
  refine ⟨encodes_twoColumnsMsg, fun h => ?_⟩
  have hloc := ((agreeBothWays_iff_columns _ _ _ _ (by decide) encodes_twoColumnsMsg).mp h 1
    (by decide)).2
  exact absurd hloc (by decide)

end Lab1.MemDb
