import Lab1.Library.Exec
import Lab1.MessageStore.UserManager

/-!
# The device for standard streams

`StdStreamIODevice` of the message store's framework
(`MessageStore/framework/src/StdStreamIODevice.cpp`,
`MessageStore/framework/inc/StdStreamIODevice.h`), and what it uses of `std::istream`.

A stream is the list of its characters that are still unread.  The device has cleared `skipws`, so
`operator>>` takes white space too.  A call that finds the end of the stream leaves the stream not
good, and its argument as it was.
-/

namespace Lab1.MessageStore

/-- What stops a call: an exception, or an access outside an object. -/
inductive Stop where
  /-- `StdStreamException` -/
  | streamException
  /-- the `std::length_error` of `reserve` -/
  | lengthError
  /-- the `std::bad_alloc` of `reserve` -/
  | badAlloc
  | fault (f : Fault)
  deriving DecidableEq, Repr

def Stop.ofFault {α : Type} : Except Fault α → Except Stop α
  | .ok a => .ok a
  | .error f => .error (.fault f)

def newline : UInt8 := 10

def space : UInt8 := 32

def nul : UInt8 := 0

abbrev StreamDataChunk := Str

/-- `StreamDataChunk::max_size()`: `PTRDIFF_MAX`. -/
def maxSize : ℕ := 9223372036854775807

/-! ### `std::istream` -/

structure InStream where
  unread : Str
  good : Bool
  deriving DecidableEq, Repr

namespace InStream

/-- `>> ch` -/
def extract (s : InStream) (ch : UInt8) : InStream × UInt8 :=
  match s.good, s.unread with
  | true, c :: cs => (⟨cs, true⟩, c)
  | _, unread => (⟨unread, false⟩, ch)

/-- `ignore(std::numeric_limits<std::streamsize>::max(), delim)` -/
def ignore (s : InStream) (delim : UInt8) : InStream :=
  if s.good then
    match s.unread.dropWhile (· ≠ delim) with
    | [] => ⟨[], false⟩
    | _ :: rest => ⟨rest, true⟩
  else s

/-- `std::getline(s, str, delim)`, where `str` is empty before. -/
def getline (s : InStream) (delim : UInt8) : InStream × Str :=
  if s.good then
    match s.unread.dropWhile (· ≠ delim) with
    | [] => (⟨[], false⟩, s.unread)
    | _ :: rest => (⟨rest, true⟩, s.unread.takeWhile (· ≠ delim))
  else (s, [])

end InStream

/-! ### The device -/

namespace StdStreamIODevice

/-- The loop of `readData`, when it has `left` turns left at most: what it appends. -/
def readLoop : ℕ → UInt8 → InStream → InStream × StreamDataChunk
  | 0, _, s => (s, [])
  | left + 1, ch, s =>
    if ch ≠ newline then
      let (s, ch) := s.extract ch
      let (s, chunk) := readLoop left ch s
      (s, ch :: chunk)
    else (s, [])

/-- `readData`, where `room` is how many characters `reserve` gets memory for.  As nothing more is
appended than was reserved, there is no other allocation. -/
def readData (room : ℕ) (s : InStream) (len : ℕ) : Except Stop (InStream × StreamDataChunk) :=
  if ¬s.good then .error .streamException
  else if maxSize < len then .error .lengthError
  else if room < len then .error .badAlloc
  else .ok (readLoop len 0 s)

/-- The stream written to stays good. -/
def writeData (written : Str) (buff : StreamDataChunk) : Str := written ++ buff ++ [newline]

def ignoreTillChar (s : InStream) (ch : UInt8) : InStream := s.ignore ch

end StdStreamIODevice

end Lab1.MessageStore
