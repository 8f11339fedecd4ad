import Lab1.MemDb.DataStructs
import Lab1.MemDb.ShmHandler

/-!
# The array layout

`LayoutHeader`, `Comparable` and `ArrayLayout` of `mem_db/server/layouts/inc/layouts.h`.

An `ArrayLayout` keeps its rows in slots of `totTypSz` bytes each, the slots' numbers on a
`Stack` while they are free, and a bit for each slot in use in a `BitMap`.  All of it lies in one
chunk of shared memory: the header, the stack, the bit map, one word, and then the data area.
`data` is the memory from the start of the data area on; as in the source, nothing stops an
access behind the end of the area.

A `ColumnDef*` is modelled by what it points at (`none` is the null pointer), and the output
of `findEntry`, written into the arrays `resData` and `indices` of a `ResultBuff`, is the list of
the entries written, of which there is room for `maxObjNum`.
-/

namespace Lab1.MemDb

def maxColNum : ℕ := 20

def maxArrayLaySz : ℕ := 4096

/-- `sizeof(ArrayLayoutData)`: the bit map, the stack, the header and `dbSz`. -/
def sizeofArrayLayoutData : ℕ :=
  4 + (4 + 4 + 4 * maxObjNum) + (4 + maxColNum * (4 + bufferCap + 4 + 4)) + 4

/-! ### Column definitions -/

structure ColumnDef where
  name : BufferSz
  loc : ℕ
  typsz : ℕ
  /-- The flow manager stores and reads this field, which `layouts.h` does not declare. -/
  typ : ColTyp

/-- The column sizes of `g_type_ref`. -/
def gTypeRef (tgt : Target) : ColTyp → ℕ
  | .INT => 4
  | .LONG => tgt.sizeofLong
  | .LLONG => 8
  | .FLOAT => 4
  | .DOUBLE => 8
  | .VCR => 128

/-- What `addColumnDef` and the constructor of `ArrayLayout` do to copy a column: the name's
`sz` bytes, and the three numbers. -/
def ColumnDef.copyFrom (dst src : ColumnDef) : Except Fault ColumnDef := do
  require .outOfBounds (src.name.sz ≤ bufferCap)
  return { dst with name := dst.name.set src.name.bytes, loc := src.loc, typsz := src.typsz }

/-- The constructor with arguments, on the memory `dst`. -/
def ColumnDef.new (tgt : Target) (dst : ColumnDef) (name : BufferSz) (loc : ℕ) (colTyp : ColTyp) :
    Except Fault ColumnDef := do
  require .outOfBounds (name.sz ≤ bufferCap)
  return { dst with name := dst.name.set name.bytes, loc, typsz := gTypeRef tgt colTyp }

structure LayoutHeader where
  sz : ℕ
  /-- `columns[MAX_COL_NUM]` -/
  columns : ℕ → ColumnDef

namespace LayoutHeader

def setColumn (h : LayoutHeader) (i : ℕ) (c : ColumnDef) : LayoutHeader :=
  { h with columns := Function.update h.columns i c }

/-- The search stops at the first column of that name.  It leaves the array when there is none
and `sz` is above the array's length. -/
def getDefByName (h : LayoutHeader) (name : BufferSz) : Except Fault (Option ColumnDef) := do
  require .assertFailed (0 < h.sz)
  match ((List.range (min h.sz maxColNum)).map h.columns).find? fun c =>
      name.sz = c.name.sz ∧ name.bytes = c.name.bytes with
  | some c => return some c
  | none => do
    require .outOfBounds (h.sz ≤ maxColNum)
    return none

def addColumnDef (h : LayoutHeader) (d : ColumnDef) : Except Fault (LayoutHeader × ℤ) := do
  if h.sz = maxColNum then return (h, -1)
  require .outOfBounds (h.sz < maxColNum)
  let c ← (h.columns h.sz).copyFrom d
  return ({ h.setColumn h.sz c with sz := h.sz + 1 }, 0)

/-- The number of bytes of the first `i` columns of a packed row. -/
def offset (h : LayoutHeader) (i : ℕ) : ℕ := ((List.range i).map fun j => (h.columns j).typsz).sum

end LayoutHeader

/-! ### Comparables -/

/-- One condition of a `Comparable`: `colDef[i]` and `pVals[i]`. -/
structure Cond where
  colDef : Option ColumnDef
  pVal : RawVal

structure Comparable where
  conds : List Cond

/-- `i_comp.sz`. -/
def Comparable.sz (c : Comparable) : ℕ := c.conds.length

/-- The constructor, for the names and values of its two array arguments. -/
def Comparable.new (names : List BufferSz) (vals : List RawVal) (head : LayoutHeader) :
    Except Fault Comparable := do
  require .assertFailed (0 < names.length)
  require .assertFailed (names.length ≤ maxColNum)
  let conds ← (names.zip vals).mapM fun (name, val) => do
    let d ← head.getDefByName name
    return Cond.mk d val
  return ⟨conds⟩

/-! ### `ArrayLayout` -/

/-- What the bytes of a new chunk happen to be, read as the members placed there. -/
structure Chunk where
  header : LayoutHeader
  stack : Stack
  data : Mem

structure ArrayLayout where
  stack : Stack
  bitMap : BitMap
  header : LayoutHeader
  /-- the memory from `m_vpData` on -/
  data : Mem
  totTypSz : ℕ
  /-- `m_data` -/
  point : Pointer

/-- An entry of a `ResultBuff`: the bytes of `resData[k]`, and `indices[k]`. -/
structure Result where
  resData : List UInt8
  index : ℕ
  deriving DecidableEq, Repr

namespace ArrayLayout

/-- `for(i=0;i<MAX_OBJ_NUM;i++) m_vpStack->push(i)`. -/
def pushSlots (s : Stack) : Except Fault Stack :=
  (List.range maxObjNum).foldlM (fun s i => do
    let (s, _) ← s.push i
    return s) s

/-- The loop that copies the columns of `head` into the chunk and adds up their sizes. -/
def registerColumns (head dst : LayoutHeader) : Except Fault (LayoutHeader × ℕ) :=
  (List.range head.sz).foldlM (fun (dst, tot) i => do
    let c ← (dst.columns i).copyFrom (head.columns i)
    return (dst.setColumn i c, u32 (tot + (head.columns i).typsz))) (dst, 0)

/-- The constructor. -/
def new (alloc : MemAllocator) (shm : Chunk) (head : LayoutHeader) (sz : ℕ) :
    Except Fault (MemAllocator × ArrayLayout) := do
  let (alloc, pshm, point) := alloc.allocChunk (u32 (sz + sizeofArrayLayoutData))
  require .assertFailed (0 < pshm)
  require .assertFailed (head.sz < maxColNum)
  let stack ← shm.stack.init maxObjNum
  let stack ← pushSlots stack
  require .assertFailed (stack.getCapacity = stack.getSz)
  let (header, totTypSz) ← registerColumns head shm.header
  return (alloc, {
    stack, bitMap := BitMap.init, header := { header with sz := head.sz },
    data := shm.data, totTypSz, point })

/-- The loop that writes the columns of a row one after the other from `vpdata` on. -/
def writeColumns (h : LayoutHeader) (row : Mem) (vpdata : ℕ) (data : Mem) : Mem × ℕ :=
  (List.range h.sz).foldl (fun (data, copied) i =>
    let typsz := (h.columns i).typsz
    (data.write (vpdata + copied) (row.read copied typsz), u32 (copied + typsz))) (data, 0)

/-- `row` is what `i_pDat` points at. -/
def addEntry (l : ArrayLayout) (row : Mem) : Except Fault (ArrayLayout × ℤ) := do
  require .assertFailed (0 < l.stack.getSz)
  let (stack, val) ← l.stack.pop
  -- the slot's number is used as a bit number
  let bitMap ← l.bitMap.bitOn (UInt32.ofNat val)
  let vpdata := u32 (val * l.totTypSz)
  let (data, _) := writeColumns l.header row vpdata l.data
  return ({ l with stack, bitMap, data }, 0)

/-- The loop over `compIndx` for the row at `vpdata`, with `n = i_comp.sz`.  The result says
whether a match was recorded (the `break`), and the new value of `matchesFound`. -/
def compareRow (data : Mem) (vpdata n : ℕ) : List Cond → ℕ → Except Fault (Bool × ℕ)
  | [], matchesFound => .ok (false, matchesFound)
  | c :: cs, matchesFound =>
    match c.colDef with
    | none => .error .nullPointer
    | some colDef => do
      require .outOfBounds (colDef.typsz ≤ 8)
      if c.pVal.toList.take colDef.typsz = data.read (vpdata + colDef.loc) colDef.typsz then
        if matchesFound + 1 = n then return (true, 0)
        else compareRow data vpdata n cs (matchesFound + 1)
      else compareRow data vpdata n cs matchesFound

/-- The loop over `objIndx`.  `matchesFound` is not reset from one object to the next. -/
def findLoop (l : ArrayLayout) (comp : Comparable) :
    List ℕ → ℕ → List Result → Except Fault (List Result)
  | [], _, res => .ok res
  | objIndx :: rest, matchesFound, res => do
    let on ← l.bitMap.isOn (UInt32.ofNat objIndx)
    if on then
      let vpdata := u32 (objIndx * l.totTypSz)
      let (found, matchesFound) ← compareRow l.data vpdata comp.sz comp.conds matchesFound
      if found then
        require .outOfBounds (res.length < maxObjNum ∧ l.totTypSz ≤ bufferCap)
        findLoop l comp rest matchesFound (res ++ [⟨l.data.read vpdata l.totTypSz, objIndx⟩])
      else findLoop l comp rest matchesFound res
    else findLoop l comp rest matchesFound res

/-- The object numbers `findEntry` goes through: from `1` up to `MAX_BIT - 1`. -/
def objIndices : List ℕ := List.range' 1 (maxBit - 1)

/-- The entries of `o_pRes`; the function's result is their number. -/
def findEntry (l : ArrayLayout) (comp : Comparable) : Except Fault (List Result) := do
  require .assertFailed (0 < l.stack.getSz)
  findLoop l comp objIndices 0 []

/-- The loop over `j`, which moves `vpdata` on and never back. -/
def updateRow : List Cond → List BufferSz → Mem × ℕ × ℕ → Except Fault (Mem × ℕ × ℕ)
  | [], _, st => .ok st
  | _ :: _, [], _ => .error .outOfBounds
  | c :: cs, b :: bs, (data, vpdata, upd) =>
    match c.colDef with
    | none => .error .nullPointer
    | some colDef => do
      require .outOfBounds (b.sz ≤ bufferCap)
      updateRow cs bs (data.write (vpdata + colDef.loc) b.bytes, vpdata + colDef.loc, upd + 1)

/-- The second component is the function's result.  (The test for a null `m_vpBitMap`, which the
constructor sets, is left out.) -/
def updateEntry (l : ArrayLayout) (comp : Comparable) (updBuff : List BufferSz) :
    Except Fault (ArrayLayout × ℕ) := do
  require .assertFailed (0 < l.stack.getSz)
  let result ← l.findEntry comp
  if result.length = 0 then return (l, 0)
  let (data, _, upd) ← result.foldlM (fun (data, vpdata, upd) r =>
    updateRow comp.conds updBuff (data, vpdata + u32 (r.index * l.totTypSz), upd)) (l.data, 0, 0)
  return ({ l with data }, upd)

/-- The statements that would give the slots back are commented out in the source. -/
def delEntry (l : ArrayLayout) (comp : Comparable) : Except Fault (ArrayLayout × ℤ) := do
  require .assertFailed (0 < l.stack.getSz)
  if l.bitMap.bits = 0 then return (l, 0)
  let result ← l.findEntry comp
  return (l, result.length)

end ArrayLayout

/-! ### Sequences of calls -/

inductive LayoutOp where
  | addEntry (row : Mem)
  | findEntry (comp : Comparable)
  | updateEntry (comp : Comparable) (updBuff : List BufferSz)
  | delEntry (comp : Comparable)

inductive LayoutOut where
  | status (sts : ℤ)
  | found (res : List Result)

/-- One call on a layout. -/
def ArrayLayout.step (l : ArrayLayout) : LayoutOp → Except Fault (ArrayLayout × LayoutOut)
  | .addEntry row => do
    let (l, sts) ← l.addEntry row
    return (l, .status sts)
  | .findEntry comp => do
    let res ← l.findEntry comp
    return (l, .found res)
  | .updateEntry comp updBuff => do
    let (l, upd) ← l.updateEntry comp updBuff
    return (l, .status upd)
  | .delEntry comp => do
    let (l, n) ← l.delEntry comp
    return (l, .status n)

end Lab1.MemDb
