import Lab1.Library.Bytes
import Lab1.Library.While
import Mathlib.Data.PNat.Basic

/-!
# Utilities of preloaded code

`find_sym_by_name`, `get_string_length` and the functions on the environment of
`phone-officer/officer-common/src/preload_utils.c`.

Pointers that are not null are positive numbers.  A string is given by where it lies and the
characters before its terminator, and `environ`, unless it is null, by the strings that its array
points at.  Of what the functions allocate, only the strings are kept track of: `environ` after a
call is the list of the strings that the array then in place points at.
-/

namespace Lab1.PhoneOfficer

/-- A null-terminated string. -/
structure CStr where
  addr : ℕ+
  chars : List UInt8
  noNul : 0 ∉ chars

/-- `str[i]`, up to the terminator. -/
def CStr.char (str : CStr) (i : ℕ) : UInt8 := str.chars.getD i 0

/-- The length of the string. -/
def CStr.length (str : CStr) : ℕ := str.chars.length

/-- The largest `int`. -/
def intMax : ℕ := 2147483647

/-- What is outside of this code: the dynamic loader, with handles in `η`, and the functions of the
C library.  A symbol that `dlsym` finds is the function of that name.  `malloc` depends on the size
asked for, and `strdup` on how many strings were copied before. -/
structure Libc (η : Type*) where
  rtldNext : η
  dlopen : String → Option η
  dlsym : η → String → Bool
  malloc : ℕ → Option ℕ+
  strdup : ℕ → Option ℕ+
  /-- Whether `malloc` gave out a block there. -/
  allocated : ℕ+ → Bool

/-- `free` of a pointer that may be null. -/
def Libc.free {η : Type*} (libc : Libc η) : Option ℕ+ → Except Fault Unit
  | none => .ok ()
  | some p => require .outOfBounds (libc.allocated p = true)

/-! ### Symbols -/

inductive SymLookupPolicy where
  | PLC_LIB_NM | PLC_NEXT | PLC_INVLD
  deriving DecidableEq, Repr

section

variable {η : Type*} (libc : Libc η)

/-- Whether the pointer returned is not null.  `plibNm` is the argument behind the policy; null
pointers are `none`. -/
def findSymByName (symName : Option String) (lookupPolicy : SymLookupPolicy)
    (plibNm : Option String) : Bool :=
  match symName, lookupPolicy with
  | none, _ => false
  | some _, .PLC_INVLD => false
  | some nm, .PLC_LIB_NM =>
    match plibNm with
    | none => false
    | some lib =>
      match libc.dlopen lib with
      | none => false
      | some phandle => libc.dlsym phandle nm
  | some nm, .PLC_NEXT => libc.dlsym libc.rtldNext nm

def LIBC_NAME : String := "libc.so.6"

/-- The lookup that all functions here make. -/
def libcSym (nm : String) : Bool := findSymByName libc (some nm) .PLC_LIB_NM (some LIBC_NAME)

/-! ### Strings -/

/-- The loop of `get_string_length` over the characters that are left.  The index is an `int`. -/
def countChars : List UInt8 → ℕ → Except Fault ℕ
  | [], len => .ok len
  | _ :: cs, len => do
    require .outOfBounds (len < intMax)
    countChars cs (len + 1)

def getStringLength (str : CStr) : Except Fault ℕ := countChars str.chars 0

/-! ### `insert_entry_to_env` -/

/-- The copies of the strings, or `none` if one of them cannot be made. -/
def copyEnv (pstrdup : Bool) : List CStr → ℕ → Except Fault (Option (List CStr))
  | [], _ => .ok (some [])
  | envVar :: rest, envLen => do
    require .nullPointer (pstrdup = true)
    match libc.strdup envLen with
    | none => return none
    | some addr => do
      let copies ← copyEnv pstrdup rest (envLen + 1)
      return copies.map ({ envVar with addr } :: ·)

/-- The function from its call of `pmalloc` on. -/
def insertWith (pmalloc pstrdup : Bool) (environ : List CStr) (_entry : CStr) :
    Except Fault (ℤ × Option (List CStr)) := do
  let pOldEnv := environ.head?.map CStr.addr
  require .outOfBounds (environ.length + 2 ≤ intMax)
  require .nullPointer (pmalloc = true)
  match libc.malloc ((environ.length + 2) * 8) with
  | none => return (-1, some environ)
  | some _ => do
    match ← copyEnv libc pstrdup environ 0 with
    | none => return (-1, some environ)
    | some pNewEnv => do
      -- the new entry is copied to the slot in which the null pointer is put next
      require .nullPointer (pstrdup = true)
      libc.free pOldEnv
      return (0, some pNewEnv)

/-- What the call returns, and `environ` after it. -/
def insertEntryToEnv (environ : Option (List CStr)) (entry : CStr) :
    Except Fault (ℤ × Option (List CStr)) :=
  let pstrdup := libcSym libc "strdup"
  match environ with
  | none => .ok (-1, none)
  | some env =>
    if libcSym libc "malloc" then
      -- the symbol was tested only: `pmalloc` is the null pointer it was set to
      insertWith libc false pstrdup env entry
    else .ok (-1, some env)

/-! ### `find_entry_in_env` -/

def findLoop (pmemcmp : Bool) (entryKey : CStr) (entSz : ℕ) :
    List CStr → Except Fault (Option ℕ+)
  | [] => .ok none
  | e :: rest => do
    let n ← getStringLength e
    if entSz = n then
      require .nullPointer (pmemcmp = true)
      if e.chars.take entSz = entryKey.chars.take entSz then
        return some (e.addr + entSz.succPNat)
      else findLoop pmemcmp entryKey entSz rest
    else findLoop pmemcmp entryKey entSz rest

/-- The pointer behind the entry that was found. -/
def findEntryInEnv (environ : Option (List CStr)) (entryKey : CStr) :
    Except Fault (Option ℕ+) := do
  let pmemcmp := libcSym libc "memcmp"
  let entSz ← getStringLength entryKey
  match environ with
  | none => .error .nullPointer
  | some env => findLoop pmemcmp entryKey entSz env

/-! ### `update_entry_in_env` -/

/-- `*p = c` for a new entry of `entryLen` bytes, and `p++`; `p` is relative to its start. -/
def putChar (entryLen : ℕ) (c : UInt8) : Mem × ℕ → Except Fault (Mem × ℕ)
  | (m, p) => do
    require .outOfBounds (p < entryLen)
    return (m.write p [c], p + 1)

/-- `for(i=0; str+i ; pNewEntry++){*pNewEntry=str[i];}` -/
def copyString (entryLen : ℕ) (str : CStr) (i : ℕ) :
    ℕ → Mem × ℕ → Except Fault (Empty ⊕ Mem × ℕ) :=
  whileLoop (fun _ => decide ((str.addr : ℕ) + i ≠ 0)) fun st => do
    let st ← putChar entryLen (str.char i) st
    return .inr st

/-- The new entry, from the memory `m`; `pNewEntry` has moved by the number returned. -/
def buildEntry (fuel entryLen : ℕ) (entryKey entryValue : CStr) (m : Mem) :
    Except Fault (Mem × ℕ) := do
  match ← copyString entryLen entryKey 0 fuel (m, 0) with
  | .inl x => nomatch x
  | .inr st => do
    require .outOfBounds (st.2 < entryLen)
    let st := (st.1.write st.2 [0x3d], st.2)
    match ← copyString entryLen entryValue 0 fuel st with
    | .inl x => nomatch x
    | .inr st => do
      require .outOfBounds (st.2 < entryLen)
      return (st.1.write st.2 [0x00], st.2)

/-- The search for the slot, which goes by the pointers, and the store.  The pointer stored is the
one that was moved, to the terminator of the new entry. -/
def placeEntry (env : List CStr) (pCurrEntry pNewEntry : ℕ+) : Except Fault (List CStr) :=
  match env.findIdx? fun e => e.addr = pCurrEntry with
  | none => .error .outOfBounds
  | some i => .ok (env.set i ⟨pNewEntry, [], List.not_mem_nil⟩)

/-- What the call returns, and `environ` after it; `m` is what a new entry holds before. -/
def updateEntryInEnv (fuel : ℕ) (m : Mem) (environ : Option (List CStr))
    (entryKey entryValue : CStr) : Except Fault (ℤ × Option (List CStr)) := do
  match ← findEntryInEnv libc environ entryKey with
  | none => do
    let (ret, environ) ← insertEntryToEnv libc environ entryKey
    if ret < 0 then return (-1, environ) else return (0, environ)
  | some pCurrEntry =>
    if libcSym libc "malloc" then do
      let keyLen ← getStringLength entryKey
      let valueLen ← getStringLength entryValue
      require .outOfBounds (keyLen + valueLen + 2 ≤ intMax)
      match libc.malloc (keyLen + valueLen + 2) with
      | none => return (-1, environ)
      | some pNewEntry => do
        let (_, moved) ← buildEntry fuel (keyLen + valueLen + 2) entryKey entryValue m
        match environ with
        | none => .error .nullPointer
        | some env => do
          let env ← placeEntry env pCurrEntry ⟨pNewEntry + moved, Nat.add_pos_left pNewEntry.pos _⟩
          return (0, some env)
    else return (-1, environ)

end

end Lab1.PhoneOfficer
