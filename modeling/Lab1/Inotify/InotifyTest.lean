import Lab1.Library.CStrings
import Lab1.Library.While

/-!
# Listening to directory events

`listen2Events`, `addPath2WatchList` and `printEvent` of `pocs/inotify/inotify_test.cpp`.

An event is a packed record: descriptor, mask, cookie and the length of the name, of four bytes
each, and then the name.  `read` fills the array `eventBuffer` with some events, one behind the
other; what is behind them in the array is what happened to be there.  Offsets into the array
stand for the pointer `pevent`.
-/

namespace Lab1.Inotify

def IN_CREATE : UInt32 := 0x100

def IN_ISDIR : UInt32 := 0x40000000

/-- `sizeof(struct inotify_event)` -/
def EVENT_SIZE : ℕ := 16

def EVENT_BUFFER_SZ : ℕ := 1024 * (EVENT_SIZE + 256)

/-- The largest `int`. -/
def intMax : ℤ := 2147483647

/-! ### What the system gives -/

/-- An event.  If there is a name, it ends with a NUL, and there is one where something was
created. -/
structure InotifyEvent where
  wd : UInt32
  mask : UInt32
  cookie : UInt32
  /-- the bytes of the name, all `len` of them -/
  name : List UInt8
  terminated : name ≠ [] → 0 ∈ name
  named : mask &&& IN_CREATE ≠ 0 → name ≠ []

def InotifyEvent.bytes (e : InotifyEvent) : List UInt8 :=
  wordBytes e.wd.toNat ++ (wordBytes e.mask.toNat ++ (wordBytes e.cookie.toNat ++
    (wordBytes e.name.length ++ e.name)))

/-- The bytes that the event takes. -/
def InotifyEvent.size (e : InotifyEvent) : ℕ := EVENT_SIZE + e.name.length

/-- The array after a `read` that returned some events. -/
structure EventBuffer where
  eventBuffer : Mem
  events : List InotifyEvent
  nonempty : events ≠ []
  fits : (events.flatMap InotifyEvent.bytes).length ≤ EVENT_BUFFER_SZ
  holds : eventBuffer.read 0 (events.flatMap InotifyEvent.bytes).length
    = events.flatMap InotifyEvent.bytes

/-- What `read` returned. -/
def EventBuffer.bytesRead (b : EventBuffer) : ℕ := (b.events.flatMap InotifyEvent.bytes).length

/-! ### The walk through the events -/

/-- What is shown of the event at the offset `pos`. -/
structure Shown where
  pos : ℕ
  wd : ℕ
  mask : ℕ
  cookie : ℕ
  len : ℕ
  name : List UInt8
  deriving DecidableEq, Repr

/-- The name is shown up to its first NUL. -/
def printEvent (m : Mem) (pos : ℕ) : Except Fault Shown := do
  require .outOfBounds (pos + EVENT_SIZE ≤ EVENT_BUFFER_SZ)
  match m.cstr (pos + EVENT_SIZE) (EVENT_BUFFER_SZ - (pos + EVENT_SIZE)) with
  | none => .error .outOfBounds
  | some name =>
    return ⟨pos, m.word pos, m.word (pos + 4), m.word (pos + 8), m.word (pos + 12), name⟩

/-- `int fullEventSz = EVENT_SIZE + pevent->len`, a sum of 32-bit numbers made an `int`. -/
def fullEventSz (len : ℕ) : ℤ := Int.bmod (EVENT_SIZE + len : ℕ) 4294967296

structure WalkState where
  bytesRead : ℤ
  pevent : ℤ
  /-- the events that `probeEvent` and `printEvent` were called on -/
  shown : List Shown

/-- `while(0 < bytesRead)`.  (`probeEvent` does nothing.) -/
def walkBody (m : Mem) (st : WalkState) : Except Fault (Empty ⊕ WalkState) := do
  require .outOfBounds (0 ≤ st.pevent)
  let shown ← printEvent m st.pevent.toNat
  let bytesRead := st.bytesRead - fullEventSz shown.len
  require .outOfBounds (bytesRead ≤ intMax)
  return .inr ⟨bytesRead, bytesRead, st.shown ++ [shown]⟩

def moreBytes (st : WalkState) : Bool := decide (0 < st.bytesRead)

/-- The walk through what `read` returned. -/
def walkEvents (fuel : ℕ) (b : EventBuffer) : Except Fault (Empty ⊕ WalkState) :=
  whileLoop moreBytes (walkBody b.eventBuffer) fuel ⟨b.bytesRead, 0, []⟩

/-! ### The listening loop -/

abbrev Path := List UInt8

/-- `"/"` -/
def slash : UInt8 := 0x2f

/-- The path for which `addPath2WatchList` is called, if it is: only the first event is looked
at. -/
def dirToAdd (s_watchPointPath : Path) (m : Mem) : Except Fault (Option Path) :=
  let mask := UInt32.ofNat (m.word 4)
  if mask &&& IN_ISDIR ≠ 0 ∧ mask &&& IN_CREATE ≠ 0 then
    match m.cstr EVENT_SIZE (EVENT_BUFFER_SZ - EVENT_SIZE) with
    | none => .error .outOfBounds
    | some name => .ok (some (s_watchPointPath ++ slash :: name))
  else .ok none

/-- A call of `addPath2WatchList`, and the descriptor that it returned. -/
structure Watch where
  path : Path
  wp : ℤ
  deriving DecidableEq, Repr

/-- How the loop is left. -/
inductive Stop where
  | fault (f : Fault)
  /-- `logFatalAndExit` -/
  | exit
  deriving DecidableEq, Repr

/-- What the system does in a turn of the loop: what `read` gives, unless it fails, and what
`inotify_add_watch` returns, if it is called. -/
structure Turn where
  read : Option EventBuffer
  wp : ℤ

/-- One turn of `while(1)`; the state is the list of the watches so far. -/
def listenTurn (s_watchPointPath : Path) (fuel : ℕ) (watches : List Watch) (t : Turn) :
    Except Stop (List Watch × Unit) :=
  match t.read with
  | none => .error .exit
  | some b =>
    match dirToAdd s_watchPointPath b.eventBuffer with
    | .error f => .error (.fault f)
    | .ok dir =>
      if dir.isSome ∧ t.wp < 0 then .error .exit
      else
        match walkEvents fuel b with
        | .error f => .error (.fault f)
        | .ok _ => .ok (watches ++ dir.toList.map (⟨·, t.wp⟩), ())

/-- `listen2Events` over some turns; `main` has made the watch of the watch point. -/
def listen2Events (s_watchPointPath : Path) (wpFd : ℤ) (fuel : ℕ) (turns : List Turn) :
    Except Stop (List Watch × List Unit) :=
  exec (listenTurn s_watchPointPath fuel) [⟨s_watchPointPath, wpFd⟩] turns

end Lab1.Inotify
