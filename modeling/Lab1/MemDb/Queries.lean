import Lab1.MemDb.FlowManager

/-!
# Queries

`handle_select`, `handle_insert` and `showObj` of `FlowMngr`
(`mem_db/server/flow/src/flow_manager.cpp`), around the tuple loops of `FlowManager`.

`handle_select` calls the constructor of `Comparable` and `findEntry` with other arguments than
`layouts.h` declares.  The calls are read as calls of the declared functions: with the header of the
layout, and with one `ResultBuff`.  Of what the functions print, `showObj` is modelled.
-/

namespace Lab1.MemDb

namespace FlowMngr

/-- The first statements of `handle_select` and `handle_insert`: `.inl` is a return from the
handler, `.inr` the layout that was read from `data`. -/
def locate (s : FlowMngr) (msg : NetworkMsg) : Except Fault (ℤ ⊕ ℕ) :=
  match s.tbNm2ArrLay with
  | none => .error .nullPointer
  | some tbNm2ArrLay => do
    let found ← tbNm2ArrLay.findTbIdx msg.buff msg.layNmSz.toNat
    -- `idx` is an `unsigned short`, which the comparison with `-1` makes an `int` again
    let idx := (found % 65536).toNat
    if (-1 : ℤ) = idx then return .inl (-1)
    require .outOfBounds (idx < maxTblNm)
    return .inr (tbNm2ArrLay.data idx)

/-- The layout that a pointer from a catalogue leads to. -/
def deref (s : FlowMngr) (lay : ℕ) : Except Fault ArrayLayout :=
  match s.layouts[lay]? with
  | none => .error .nullPointer
  | some l => .ok l

/-- The part of `handle_select` that reads the message.  No message has more tuples than bytes, so
the fuel is enough. -/
def readQuery (cols : ℕ → BufferSz) (vals : ℕ → RawVal) (msg : NetworkMsg) :
    Except Fault (ℤ ⊕ SelectVars) :=
  selectLoop msg (maxNetMsg + 1) ⟨cols, vals, 0, msg.layNmSz.toNat, 0⟩

/-- `cols` and `vals` are what the local arrays of these names hold at the start. -/
def handleSelect (s : FlowMngr) (cols : ℕ → BufferSz) (vals : ℕ → RawVal) (msg : NetworkMsg) :
    Except Fault (FlowMngr × ℤ) := do
  match ← s.locate msg with
  | .inl ret => return (s, ret)
  | .inr lay =>
    match ← readQuery cols vals msg with
    | .inl ret => return (s, ret)
    | .inr vars => do
      let l ← s.deref lay
      let comp ← Comparable.new ((List.range vars.idx).map vars.cols)
        ((List.range vars.idx).map vars.vals) l.header
      let res ← l.findEntry comp
      if res.length = 0 then return (s, -2)
      return (s, 0)

/-- The row is built in `buff` and shown; `addEntry` is not called.  `buff` and `colName` are what
the local arrays of these names hold at the start. -/
def handleInsert (s : FlowMngr) (buff colName : Mem) (msg : NetworkMsg) :
    Except Fault (FlowMngr × ℤ) := do
  match ← s.locate msg with
  | .inl ret => return (s, ret)
  | .inr lay => do
    let l ← s.deref lay
    match ← insertLoop l.header msg (maxNetMsg + 1) ⟨buff, colName, 0, msg.layNmSz.toNat, 0⟩ with
    | .inl ret => return (s, ret)
    | .inr _ => return (s, 0)

end FlowMngr

/-! ### Showing a row -/

/-- A value as `printf` gets it.  A floating-point number is given by its bits. -/
inductive Shown where
  /-- `%d`, `%ld` or `%lld` -/
  | integer (v : ℤ)
  /-- `%f` or `%lf` -/
  | floating (bits : ℕ)
  /-- `%.*s` -/
  | text (bs : List UInt8)
  deriving DecidableEq, Repr

/-- The signed number in the `n` bytes at offset `a`. -/
def signedAt (m : Mem) (a n : ℕ) : ℤ := (m.number a n : ℤ).bmod (256 ^ n)

/-- At most `n` bytes of the string at offset `a`. -/
def textAt (m : Mem) (a n : ℕ) : List UInt8 := (m.read a n).takeWhile (· ≠ 0)

/-- The loop of `showObj`: `buff` moves on behind a value of every type but `VCR`. -/
def showLoop (tgt : Target) (head : LayoutHeader) (m : Mem) : List ℕ → ℕ → List Shown
  | [], _ => []
  | i :: is, buff =>
    match (head.columns i).typ with
    | .INT => .integer (signedAt m buff 4) :: showLoop tgt head m is (buff + 4)
    | .FLOAT => .floating (m.number buff 4) :: showLoop tgt head m is (buff + 4)
    | .LONG =>
      .integer (signedAt m buff tgt.sizeofLong) :: showLoop tgt head m is (buff + tgt.sizeofLong)
    | .LLONG => .integer (signedAt m buff 8) :: showLoop tgt head m is (buff + 8)
    | .DOUBLE => .floating (m.number buff 8) :: showLoop tgt head m is (buff + 8)
    | .VCR => .text (textAt m buff 4) :: showLoop tgt head m is buff

/-- The values printed for the row at offset `0` of `m`. -/
def showObj (tgt : Target) (head : LayoutHeader) (m : Mem) : List Shown :=
  showLoop tgt head m (List.range head.sz) 0

end Lab1.MemDb
