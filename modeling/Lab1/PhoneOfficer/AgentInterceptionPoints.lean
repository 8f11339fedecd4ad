import Lab1.Library.CStrings
import Lab1.PhoneOfficer.PreloadUtils

/-!
# The interposed `open`

`open` of `phone-officer/agent/src/agent_interception_points.c`, which stands before the one of the
C library in a process that the agent is loaded into.

What comes out of a call is the value it returns and the calls of the real `open` that it made.
-/

namespace Lab1.PhoneOfficer

def MAX_PATH_SZ : ℕ := 1024

/-- `.preload` -/
def dotPreload : List UInt8 := [0x2e, 0x70, 0x72, 0x65, 0x6c, 0x6f, 0x61, 0x64]

/-- `strcpy(dest, src)` for an array of `cap` bytes. -/
def strcpy (cap : ℕ) (dest : Mem) (src : CStr) : Except Fault Mem := do
  require .outOfBounds (src.length + 1 ≤ cap)
  return dest.write 0 (src.chars ++ [0])

/-- `strcat(dest + p, src)` for an array of `cap` bytes, where `src` are the characters of a
string. -/
def strcat (cap : ℕ) (dest : Mem) (p : ℕ) (src : List UInt8) : Except Fault Mem :=
  match dest.strlen p (cap - p) with
  | none => .error .outOfBounds
  | some n => do
    require .outOfBounds (p + n + src.length + 1 ≤ cap)
    return dest.write (p + n) (src ++ [0])

/-- The arguments of a call of the real `open`; there need not be a mode. -/
structure OpenCall where
  pathname : List UInt8
  flags : ℤ
  mode : Option UInt32
  deriving DecidableEq, Repr

variable {η : Type*} (libc : Libc η)

/-- Whether the `open` behind this one is found.  (Behind the policy the call has a 5, which is not
looked at.) -/
def openFound : Bool := findSymByName libc (some "open") .PLC_NEXT none

/-- The calls of the real `open` come with what `open` returns.  `buffer` is what the local array
holds before. -/
def interposedOpen (buffer : Mem) (pathname : Option CStr) (flags : ℤ) (_mode : Option UInt32) :
    Except Fault (ℤ × List OpenCall) :=
  match pathname with
  | none => .ok (-1, [])
  | some pathname => do
    let len ← getStringLength pathname
    if MAX_PATH_SZ < len then return (-1, [])
    else if openFound libc = false then return (-1, [])
    else do
      let buffer ← strcpy MAX_PATH_SZ buffer pathname
      let buffer ← strcat MAX_PATH_SZ buffer pathname.length dotPreload
      match buffer.cstr 0 MAX_PATH_SZ with
      | none => .error .outOfBounds
      | some path =>
        -- the optional argument is not passed on, and the result of the call is not used
        return (0, [⟨path, flags, none⟩])

end Lab1.PhoneOfficer
