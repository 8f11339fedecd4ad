import Lab1.Library.While
import Lab1.MemDb.Layouts

/-!
# The flow manager

`TblNm2DataBuff` and the message handlers of `FlowMngr` (`mem_db/server/flow/inc/flow_manager.h`,
`mem_db/server/flow/src/flow_manager.cpp`).

The handlers read a message with a pointer `pmsg` into its `buff`, here an offset, in a `while`
loop over tuples.  The body of each loop is a function of its own (`createTuple`, `selectTuple`,
`insertTuple`) on the local variables of the handler.  Every access to an array is checked with
`require .outOfBounds`; moving `pmsg` is no access.

What the memory of a local variable or of an object from `new` happens to hold is an argument, as
nothing sets it.  A catalogue points to the `ArrayLayout` objects by their position in the list
of all objects made so far.  What the handlers print is left out.
-/

namespace Lab1.MemDb

def maxTblNm : ℕ := 256

/-! ### The catalogue -/

structure TblNm2DataBuff (TYP : Type) where
  /-- `tbNm[MAX_TBL_NM]` -/
  tbNm : ℕ → BufferSz
  /-- `data[MAX_TBL_NM]` -/
  data : ℕ → TYP
  indx : ℕ

namespace TblNm2DataBuff

variable {TYP : Type}

def init (t : TblNm2DataBuff TYP) : TblNm2DataBuff TYP := { t with indx := 0 }

/-- The loop of `findTbIdx`. -/
def findLoop (t : TblNm2DataBuff TYP) (nm : Mem) (sz : ℕ) : List ℕ → Except Fault ℤ
  | [] => .ok (-1)
  | i :: is => do
    require .outOfBounds (i < maxTblNm)
    if sz = (t.tbNm i).sz then
      require .outOfBounds (sz ≤ bufferCap)
      if nm.read 0 sz = (t.tbNm i).buff.read 0 sz then return i
      else findLoop t nm sz is
    else findLoop t nm sz is

/-- `sz` is an `unsigned short`. -/
def findTbIdx (t : TblNm2DataBuff TYP) (nm : Mem) (sz : ℕ) : Except Fault ℤ :=
  t.findLoop nm (u16 sz) (List.range (t.indx + 1))

/-- The statements with which `handle_create` enters a name and its datum. -/
def register (t : TblNm2DataBuff TYP) (nm : List UInt8) (datum : TYP) :
    Except Fault (TblNm2DataBuff TYP) := do
  require .outOfBounds (t.indx < maxTblNm ∧ nm.length ≤ bufferCap)
  return {
    tbNm := Function.update t.tbNm t.indx ((t.tbNm t.indx).set nm)
    data := Function.update t.data t.indx datum
    indx := u16 (t.indx + 1) }

end TblNm2DataBuff

/-! ### Type names -/

/-- `(unsigned int)-1`. -/
def badTypSz : ℕ := 4294967295

/-- `0 == memcmp(tyNm, lit, sz)`, where `tyNm` are the `sz` bytes. -/
def Target.isLit (tgt : Target) (tyNm : List UInt8) (lit : List Char) : Bool :=
  decide (tyNm = (List.range tyNm.length).map (tgt.litByte lit))

/-- The function's result and the new value of `o_typ`. -/
def getTypSzByStr (tgt : Target) (tyNm : List UInt8) (oTyp : ColTyp) : ℕ × ColTyp :=
  if tgt.isLit tyNm ['i', 'n', 't'] then (4, .INT)
  else if tgt.isLit tyNm ['f', 'l', 'o', 'a', 't'] then (4, .FLOAT)
  else if tgt.isLit tyNm ['l', 'o', 'n', 'g'] then (tgt.sizeofLong, .LONG)
  else if tgt.isLit tyNm ['d', 'o', 'u', 'b', 'l', 'e'] then (8, .DOUBLE)
  else if tgt.isLit tyNm ['l', 'o', 'n', 'g', ' ', 'l', 'o', 'n', 'g'] then (8, .LLONG)
  else if tgt.isLit tyNm ['v', 'a', 'r', 'c'] then (4, .VCR)
  else (badTypSz, oTyp)

/-! ### Reading a create message -/

/-- The local variables of `handle_create`. -/
structure CreateVars where
  header : LayoutHeader
  type : ColTyp
  colDefSz : ℕ
  pmsg : ℕ
  accStrSz : ℕ

/-- Reading a tuple `<col name, type>`. -/
def createTuple (tgt : Target) (msg : NetworkMsg) (v : CreateVars) :
    Except Fault (ℤ ⊕ CreateVars) := do
  let perStrSz ← msg.readWord v.pmsg
  -- `0 >= perStrSz`, of an unsigned number
  if perStrSz = 0 then return .inl (-1)
  let pmsg := v.pmsg + 4
  let accStrSz := u32 (v.accStrSz + 4)
  let name ← msg.readBytes pmsg perStrSz
  require .outOfBounds (v.colDefSz < maxColNum ∧ perStrSz ≤ bufferCap)
  let column := v.header.columns v.colDefSz
  let column := { column with name := column.name.set name }
  let pmsg := pmsg + perStrSz
  let accStrSz := u32 (accStrSz + perStrSz)
  let perStrSz ← msg.readWord pmsg
  if perStrSz = 0 then return .inl (-1)
  let pmsg := pmsg + 4
  let accStrSz := u32 (accStrSz + 4)
  -- `getTypSzByStr` takes the length as an `unsigned short`
  let tyNm ← msg.readBytes pmsg (u16 perStrSz)
  let (typsz, type) := getTypSzByStr tgt tyNm v.type
  if typsz = badTypSz then return .inl (-1)
  let column := { column with typsz, typ := type }
  return .inr {
    header := v.header.setColumn v.colDefSz column
    type
    colDefSz := v.colDefSz + 1
    pmsg := pmsg + perStrSz
    accStrSz := u32 (accStrSz + perStrSz) }

def createLoop (tgt : Target) (msg : NetworkMsg) (fuel : ℕ) (v : CreateVars) :
    Except Fault (ℤ ⊕ CreateVars) :=
  whileLoop (fun v => decide (v.accStrSz < msg.paramSz.toNat)) (createTuple tgt msg) fuel v

/-! ### Reading a select message -/

/-- The local variables of `handle_select`. -/
structure SelectVars where
  /-- `cols[MAX_COL_NUM]` -/
  cols : ℕ → BufferSz
  /-- `vals[MAX_COL_NUM]` -/
  vals : ℕ → RawVal
  idx : ℕ
  pmsg : ℕ
  accStrSz : ℕ

/-- Reading a tuple `<colNm, val>`. -/
def selectTuple (msg : NetworkMsg) (v : SelectVars) : Except Fault (ℤ ⊕ SelectVars) := do
  let perStrSz ← msg.readWord v.pmsg
  if perStrSz = 0 then return .inl (-1)
  let pmsg := v.pmsg + 4
  let accStrSz := u32 (v.accStrSz + 4)
  let name ← msg.readBytes pmsg perStrSz
  require .outOfBounds (v.idx < maxColNum ∧ perStrSz ≤ bufferCap)
  let pmsg := pmsg + perStrSz
  let accStrSz := u32 (accStrSz + perStrSz)
  let _ ← msg.readBytes pmsg 8
  return .inr {
    cols := Function.update v.cols v.idx ((v.cols v.idx).set name)
    vals := Function.update v.vals v.idx (RawVal.ofMem msg.buff pmsg)
    idx := u16 (v.idx + 1)
    pmsg := pmsg + 8
    accStrSz := u32 (accStrSz + 8) }

def selectLoop (msg : NetworkMsg) (fuel : ℕ) (v : SelectVars) : Except Fault (ℤ ⊕ SelectVars) :=
  whileLoop (fun v => decide (v.accStrSz < msg.paramSz.toNat)) (selectTuple msg) fuel v

/-! ### Reading an insert message -/

/-- The local variables of `handle_insert`. -/
structure InsertVars where
  /-- `buff[MAX_NET_MSG]` -/
  buff : Mem
  /-- `colName[MAX_COL_NUM]` -/
  colName : Mem
  offset : ℕ
  pmsg : ℕ
  accStrSz : ℕ

/-- The `for` loop over the columns: the value of `offset` where it is left, and the column of that
name.  `offset` moves on only over columns whose name has the same length. -/
def insertColumn (phead : LayoutHeader) (name : List UInt8) :
    List ℕ → ℕ → Except Fault (ℕ × Option ℕ)
  | [], offset => .ok (offset, none)
  | i :: is, offset => do
    require .outOfBounds (i < maxColNum)
    if (phead.columns i).name.sz = name.length then
      if (phead.columns i).name.bytes = name then return (offset, some i)
      else insertColumn phead name is (u32 (offset + (phead.columns i).typsz))
    else insertColumn phead name is offset

/-- Reading a tuple `<colNm, val>`. -/
def insertTuple (phead : LayoutHeader) (msg : NetworkMsg) (v : InsertVars) :
    Except Fault (ℤ ⊕ InsertVars) := do
  let perStrSz ← msg.readWord v.pmsg
  if perStrSz = 0 then return .inl (-1)
  let pmsg := v.pmsg + 4
  let accStrSz := u32 (v.accStrSz + 4)
  let name ← msg.readBytes pmsg perStrSz
  require .outOfBounds (perStrSz ≤ maxColNum)
  let colName := v.colName.write 0 name
  let pmsg := pmsg + perStrSz
  let accStrSz := u32 (accStrSz + perStrSz)
  let (offset, found) ← insertColumn phead name (List.range phead.sz) v.offset
  let v ← match found with
    | some i => do
      -- found a match; `offset` is reset, so that the test below takes it for a bad name
      let typsz := (phead.columns i).typsz
      let val ← msg.readBytes pmsg typsz
      require .outOfBounds (offset + typsz ≤ maxNetMsg)
      pure {
        buff := v.buff.write offset val
        colName
        offset := 0
        pmsg := pmsg + typsz
        accStrSz := u32 (accStrSz + typsz) : InsertVars }
    | none => pure { v with colName, offset, pmsg, accStrSz }
  if v.offset = 0 then return .inl (-1)
  return .inr v

/-- The part of `handle_insert` that reads the message: `memset(buff, 0, paramSz)` and the loop. -/
def insertLoop (phead : LayoutHeader) (msg : NetworkMsg) (fuel : ℕ) (v : InsertVars) :
    Except Fault (ℤ ⊕ InsertVars) := do
  require .outOfBounds (msg.paramSz.toNat ≤ maxNetMsg)
  whileLoop (fun v => decide (v.accStrSz < msg.paramSz.toNat)) (insertTuple phead msg) fuel
    { v with buff := v.buff.write 0 (List.replicate msg.paramSz.toNat 0) }

/-! ### Creating a table -/

structure FlowMngr where
  alloc : MemAllocator
  /-- `m_tbNm2Pt`; no object before the first create -/
  tbNm2Pt : Option (TblNm2DataBuff Pointer)
  /-- `m_tbNm2ArrLay`, with the positions of the layouts in `layouts` -/
  tbNm2ArrLay : Option (TblNm2DataBuff ℕ)
  /-- the `ArrayLayout` objects made so far -/
  layouts : List ArrayLayout

/-- What the memory that one call of `handle_create` takes happens to hold. -/
structure Leftover where
  arrLay : TblNm2DataBuff ℕ
  pt : TblNm2DataBuff Pointer
  header : LayoutHeader
  type : ColTyp
  shm : Chunk

namespace FlowMngr

/-- The second component is the function's result.  No message has more tuples than bytes, so
the fuel is enough. -/
def handleCreate (tgt : Target) (s : FlowMngr) (mem : Leftover) (msg : NetworkMsg) :
    Except Fault (FlowMngr × ℤ) := do
  -- the test for the first call is commented out
  let arrLay := mem.arrLay.init
  let pt := mem.pt.init
  let s := { s with tbNm2ArrLay := some arrLay, tbNm2Pt := some pt }
  let vars : CreateVars := {
    header := mem.header, type := mem.type, colDefSz := 0
    pmsg := msg.layNmSz.toNat, accStrSz := 0 }
  match ← createLoop tgt msg (maxNetMsg + 1) vars with
  | .inl ret => return (s, ret)
  | .inr vars => do
    -- too late: the columns have been written
    if maxColNum < vars.colDefSz then return (s, -1)
    let header := { vars.header with sz := vars.colDefSz }
    let (alloc, lay) ← ArrayLayout.new s.alloc mem.shm header maxArrayLaySz
    let name ← msg.readBytes 0 msg.layNmSz.toNat
    let pt ← pt.register name lay.point
    let arrLay ← arrLay.register name s.layouts.length
    return ({
      alloc
      tbNm2Pt := some pt
      tbNm2ArrLay := some arrLay
      layouts := s.layouts ++ [lay] }, 0)

end FlowMngr

end Lab1.MemDb
