import Lab1.MemDb.Layouts

/-!
# Builds with and without assertions

The macro `assert` drops its argument unevaluated when `NDEBUG` is defined.  The functions of the
other modules are those of a build that evaluates it; here the constructor of `ArrayLayout`,
`addEntry`, `findEntry` and the functions of `BufferSz` are written once for both kinds of build.
Two assertions have arguments that do more than test: the constructor allocates its chunk in one,
and `raw_copy_bytes` copies in the other.
-/

namespace Lab1.MemDb

inductive Build where
  | debug | ndebug
  deriving DecidableEq, Repr

/-- `assert(c)`, for an argument without effects. -/
def Build.assert (b : Build) (c : Prop) [Decidable c] : Except Fault Unit :=
  match b with
  | .debug => require .assertFailed c
  | .ndebug => .ok ()

/-! ### `Stack` and `BitMap` -/

namespace Stack

def initIn (b : Build) (s : Stack) (sz : ℕ) : Except Fault Stack := do
  b.assert (sz ≤ maxObjNum)
  return { s with sz := sz, capacity := 0 }

def pushIn (b : Build) (s : Stack) (slot : ℕ) : Except Fault (Stack × ℕ) := do
  b.assert (s.capacity ≤ s.sz)
  if s.capacity < s.sz then
    require .outOfBounds (s.capacity < maxObjNum)
    return ({ s with
      capacity := s.capacity + 1
      pstack := Function.update s.pstack s.capacity slot }, 0)
  else
    return (s, invLocation)

def popIn (b : Build) (s : Stack) : Except Fault (Stack × ℕ) := do
  b.assert (s.capacity ≤ s.sz)
  if 0 < s.capacity then
    require .outOfBounds (s.capacity - 1 < maxObjNum)
    return ({ s with capacity := s.capacity - 1 }, s.pstack (s.capacity - 1))
  else
    return (s, invLocation)

end Stack

namespace BitMap

def bitOnIn (b : Build) (m : BitMap) (bitNum : UInt32) : Except Fault BitMap := do
  b.assert (minBit ≤ bitNum.toNat ∧ bitNum.toNat ≤ maxBit)
  return ⟨m.bits ||| mask bitNum⟩

def isOnIn (b : Build) (m : BitMap) (bitNum : UInt32) : Except Fault Bool := do
  b.assert (minBit ≤ bitNum.toNat ∧ bitNum.toNat ≤ maxBit)
  return m.bit bitNum

end BitMap

/-! ### `ArrayLayout` -/

namespace ArrayLayout

def pushSlotsIn (b : Build) (s : Stack) : Except Fault Stack :=
  (List.range maxObjNum).foldlM (fun s i => do
    let (s, _) ← s.pushIn b i
    return s) s

/-- The constructor.  Without its first assertion `pshm` stays null, and `m_data` is what its memory
`uninit` happens to hold; the first access through `pshm` is the one of `Stack::init`. -/
def newIn (b : Build) (alloc : MemAllocator) (shm : Chunk) (uninit : Pointer) (head : LayoutHeader)
    (sz : ℕ) : Except Fault (MemAllocator × ArrayLayout) := do
  let (alloc, pshm, point) :=
    match b with
    | .debug => alloc.allocChunk (u32 (sz + sizeofArrayLayoutData))
    | .ndebug => (alloc, 0, uninit)
  b.assert (0 < pshm)
  b.assert (head.sz < maxColNum)
  require .nullPointer (0 < pshm)
  let stack ← shm.stack.initIn b maxObjNum
  let stack ← pushSlotsIn b stack
  b.assert (stack.getCapacity = stack.getSz)
  let (header, totTypSz) ← registerColumns head shm.header
  return (alloc, {
    stack, bitMap := BitMap.init, header := { header with sz := head.sz },
    data := shm.data, totTypSz, point })

/-- `addEntry`.  Of the size of the data area nothing is said (`staysInside_iff` is about that), but
`invLocation` is no slot of any: the bytes of that row would be written far outside the segment. -/
def addEntryIn (b : Build) (l : ArrayLayout) (row : Mem) : Except Fault (ArrayLayout × ℤ) := do
  b.assert (0 < l.stack.getSz)
  let (stack, val) ← l.stack.popIn b
  let bitMap ← l.bitMap.bitOnIn b (UInt32.ofNat val)
  require .outOfBounds (val ≠ invLocation ∨ l.totTypSz = 0)
  let vpdata := u32 (val * l.totTypSz)
  let (data, _) := writeColumns l.header row vpdata l.data
  return ({ l with stack, bitMap, data }, 0)

def findLoopIn (b : Build) (l : ArrayLayout) (comp : Comparable) :
    List ℕ → ℕ → List Result → Except Fault (List Result)
  | [], _, res => .ok res
  | objIndx :: rest, matchesFound, res => do
    let on ← l.bitMap.isOnIn b (UInt32.ofNat objIndx)
    if on then
      let vpdata := u32 (objIndx * l.totTypSz)
      let (found, matchesFound) ← compareRow l.data vpdata comp.sz comp.conds matchesFound
      if found then
        require .outOfBounds (res.length < maxObjNum ∧ l.totTypSz ≤ bufferCap)
        findLoopIn b l comp rest matchesFound (res ++ [⟨l.data.read vpdata l.totTypSz, objIndx⟩])
      else findLoopIn b l comp rest matchesFound res
    else findLoopIn b l comp rest matchesFound res

def findEntryIn (b : Build) (l : ArrayLayout) (comp : Comparable) : Except Fault (List Result) := do
  b.assert (0 < l.stack.getSz)
  findLoopIn b l comp objIndices 0 []

end ArrayLayout

/-! ### `BufferSz` -/

/-- `raw_copy_bytes<char>`, for pointers that are not null: `dst` is the array it fills.  The
`memcpy` is the argument of the second assertion. -/
def rawCopyBytes (b : Build) (dst src : Mem) (sz : ℕ) : Except Fault Mem := do
  b.assert (sz ≠ 0)
  match b with
  | .debug => do
    require .outOfBounds (sz ≤ bufferCap)
    return dst.write 0 (src.read 0 sz)
  | .ndebug => return dst

/-- `operator=`, from another object. -/
def BufferSz.assign (b : Build) (dst src : BufferSz) : Except Fault BufferSz := do
  let buff ← rawCopyBytes b dst.buff src.buff src.sz
  return ⟨src.sz, buff⟩

/-- `strcpy(buff, src)`: the text up to and including its first NUL, which leaves the array if it
does not end in time. -/
def strcpyBuff (dst src : Mem) : Except Fault Mem :=
  match (List.range bufferCap).find? fun i => src i = 0 with
  | some len => .ok (dst.write 0 (src.read 0 (len + 1)))
  | none => .error .outOfBounds

/-- `init(src, sz)`, for a pointer that is not null. -/
def BufferSz.init (b : Build) (s : BufferSz) (src : Mem) (sz : ℕ) : Except Fault BufferSz := do
  b.assert (0 > sz)
  if sz ≠ 0 then
    b.assert (1024 < sz)
    -- the source copies `this->sz` bytes and not `sz` of them
    require .outOfBounds (s.sz ≤ bufferCap)
    return { s with buff := s.buff.write 0 (src.read 0 s.sz) }
  else
    b.assert (src sz = 0)
    let buff ← strcpyBuff s.buff src
    return { s with buff }

/-- The constructor from a pointer and a length, on the memory `uninit`.  What it passes on as the
length is the member `sz`. -/
def BufferSz.new (b : Build) (uninit : BufferSz) (src : Mem) (_sz : ℕ) : Except Fault BufferSz :=
  uninit.init b src uninit.sz

/-- The copy constructor, which has an empty body, on the memory `uninit`. -/
def BufferSz.newCopy (uninit _other : BufferSz) : BufferSz := uninit

/-- The ways a `BufferSz` gets what it holds. -/
inductive BufferOp where
  | construct (src : Mem) (n : ℕ)
  | init (src : Mem) (n : ℕ)
  | copy (x : BufferSz)
  | assign (x : BufferSz)
  | assignSelf

/-- The object afterwards; `old` is what its memory holds before. -/
def BufferOp.run (b : Build) (old : BufferSz) : BufferOp → Except Fault BufferSz
  | .construct src n => BufferSz.new b old src n
  | .init src n => old.init b src n
  | .copy x => .ok (BufferSz.newCopy old x)
  | .assign x => old.assign b x
  | .assignSelf => .ok old

/-! ### Programs -/

/-- A program that has at most one layout at a time and any number of `BufferSz` objects. -/
structure Program where
  alloc : MemAllocator
  layout : Option ArrayLayout
  vars : ℕ → BufferSz

inductive ProgramOp where
  /-- `shm` and `uninit` are what the chunk and the object hold before. -/
  | construct (shm : Chunk) (uninit : Pointer) (head : LayoutHeader) (sz : ℕ)
  | addEntry (row : Mem)
  | findEntry (comp : Comparable)
  | assign (dst src : ℕ)

namespace Program

/-- One operation, with what it returns. -/
def step (b : Build) (p : Program) : ProgramOp → Except Fault (Program × Option LayoutOut)
  | .construct shm uninit head sz => do
    let (alloc, l) ← ArrayLayout.newIn b p.alloc shm uninit head sz
    return ({ p with alloc, layout := some l }, none)
  | .addEntry row =>
    match p.layout with
    | none => .error .nullPointer
    | some l => do
      let (l, sts) ← l.addEntryIn b row
      return ({ p with layout := some l }, some (.status sts))
  | .findEntry comp =>
    match p.layout with
    | none => .error .nullPointer
    | some l => do
      let res ← l.findEntryIn b comp
      return (p, some (.found res))
  | .assign dst src => do
    if dst = src then return (p, none)
    let buff ← (p.vars dst).assign b (p.vars src)
    return ({ p with vars := Function.update p.vars dst buff }, none)

end Program

end Lab1.MemDb
