import Lab1.MemDb.Types

/-!
# The shared-memory allocator

`mem_allocator` (`mem_db/common/inc/shm_handler.h`, `mem_db/common/src/shm_handler.cpp`): one
shared segment of `mega` bytes, attached at the address `vmem`, with a `ChunkHeader` at its
start.  The segment id and the address come from `shmget` and `shmat`.

A `Pointer` is the offset of a chunk in the segment.

`Arena` adds what the system calls keep: the bytes of the segment, and whether it is attached and
marked for destruction.  `shmctl` with `IPC_RMID` marks the whole segment, and `shmdt` detaches the
whole segment; a segment that is marked and no longer attached is gone.
-/

namespace Lab1.MemDb

def mega : ℕ := 1024 * 1024

structure ChunkHeader where
  sz : ℕ
  actSz : ℕ
  nxt : ℕ
  prv : ℕ
  deriving DecidableEq, Repr

/-- `sizeof(ChunkHeader)`: two 32-bit and two 16-bit fields. -/
def sizeofChunkHeader : ℕ := 12

abbrev Pointer := ℕ

structure MemAllocator where
  id : ℤ
  /-- `mp_vmem`: where the segment is attached -/
  vmem : ℕ
  /-- the chunk header at the start of the segment -/
  head : ChunkHeader

namespace MemAllocator

/-- The constructor: the segment is cleared and the header placed at its start.  After
that it exports the segment id to a file, which is left out: the file is opened without write
access, so as committed the export ends the process. -/
def new (id : ℤ) (vmem : ℕ) : Except Fault MemAllocator := do
  require .assertFailed (0 < vmem)
  return ⟨id, vmem, ⟨mega, 0, 0, 0⟩⟩

/-- The allocator after the call, the address returned and the value of `o_pointer`. -/
def allocChunk (a : MemAllocator) (sz : ℕ) : MemAllocator × ℕ × Pointer :=
  ({ a with head := { a.head with actSz := u32 (a.head.actSz + sz) } }, a.vmem + sz, sz)

end MemAllocator

/-- The allocator after its constructor, with the segment attached at `0x10000`. -/
def freshAlloc : MemAllocator := ⟨0, 0x10000, ⟨mega, 0, 0, 0⟩⟩

/-! ### Sequences of calls -/

/-- What a call of `allocChunk` gives back: the size asked for, the address returned and the
value of `o_pointer`. -/
structure Reply where
  sz : ℕ
  addr : ℕ
  pointer : Pointer
  deriving DecidableEq, Repr

/-- One call of `allocChunk`. -/
def MemAllocator.step (a : MemAllocator) (sz : UInt32) : Except Fault (MemAllocator × Reply) :=
  let (a, addr, pointer) := a.allocChunk sz.toNat
  return (a, ⟨sz.toNat, addr, pointer⟩)

/-! ### The segment -/

structure Arena where
  alloc : MemAllocator
  bytes : Mem
  attached : Bool
  /-- marked for destruction -/
  removed : Bool

namespace Arena

/-- The byte at the address `addr`. -/
def byteAt (s : Arena) (addr : ℕ) : Except Fault UInt8 := do
  require .outOfBounds (s.attached = true ∧ s.alloc.vmem ≤ addr ∧ addr < s.alloc.vmem + mega)
  return s.bytes (addr - s.alloc.vmem)

/-- `allocChunk` counts in the chunk header, which lies in the segment (`actSz` at offset 4). -/
def allocChunk (s : Arena) (sz : UInt32) : Except Fault (Arena × Reply) := do
  require .outOfBounds (s.attached = true)
  let (alloc, r) ← s.alloc.step sz
  return ({ s with alloc, bytes := s.bytes.write 4 (wordBytes alloc.head.actSz) }, r)

def pointerToLocalPointer (s : Arena) (pointer : Pointer) : ℕ := s.alloc.vmem + pointer

/-- `i_pointer` is not used. -/
def disposeChunk (s : Arena) (_pointer : Pointer) : Arena × ℤ :=
  -- `shmctl(m_id, IPC_RMID, 0)`: there is no such segment any more
  if s.removed = true ∧ s.attached = false then (s, -1)
  -- `shmdt(mp_vmem)`: nothing is attached there
  else if s.attached = false then ({ s with removed := true }, -1)
  else ({ s with removed := true, attached := false }, 0)

/-- The constructor clears the segment and stores its size in the header; the export of the id is
left out as in `MemAllocator.new`. -/
def new (id : ℤ) (vmem : ℕ) : Except Fault Arena := do
  let alloc ← MemAllocator.new id vmem
  return ⟨alloc, Mem.write (fun _ => 0) 0 (wordBytes alloc.head.sz), true, false⟩

end Arena

/-- The segment after the constructor of the allocator. -/
def freshArena : Arena := ⟨freshAlloc, Mem.write (fun _ => 0) 0 (wordBytes mega), true, false⟩

/-! ### The header of a chunk -/

/-- A field of `ChunkHeader`: its place in the header, and its size. -/
structure HeaderField where
  offset : ℕ
  size : ℕ
  deriving DecidableEq, Repr

namespace HeaderField

def sz : HeaderField := ⟨0, 4⟩
def actSz : HeaderField := ⟨4, 4⟩
def nxt : HeaderField := ⟨8, 2⟩

end HeaderField

namespace Arena

/-- `phead--` steps from `pshm` to the header before it; this is where the field `f` of that header
stands in the segment. -/
def headerField (s : Arena) (pshm : ℕ) (f : HeaderField) : Except Fault ℕ := do
  require .assertFailed (0 < pshm)
  require .outOfBounds (s.attached = true ∧
    s.alloc.vmem + sizeofChunkHeader ≤ pshm + f.offset ∧
    pshm + f.offset + f.size ≤ s.alloc.vmem + sizeofChunkHeader + mega)
  return pshm + f.offset - (s.alloc.vmem + sizeofChunkHeader)

def getSz (s : Arena) (pshm : ℕ) : Except Fault ℕ := do
  let field ← s.headerField pshm .sz
  return s.bytes.word field

def getActSz (s : Arena) (pshm : ℕ) : Except Fault ℕ := do
  let field ← s.headerField pshm .nxt
  return s.bytes.number field 2 >>> 1

/-- The `actSz` on the right of the second assignment is taken to be the field. -/
def updateActSz (s : Arena) (iSz : UInt32) (pshm : ℕ) : Except Fault Arena := do
  let field ← s.headerField pshm .actSz
  let actSz := u32 (s.bytes.word field + iSz.toNat)
  let actSz := u32 (actSz <<< 1) ||| (actSz &&& 1)
  return { s with bytes := s.bytes.write field (wordBytes actSz) }

end Arena

end Lab1.MemDb
