import Lab1.Ibm.FileManipulator
import Mathlib.Data.List.Range

/-!
# The command line of the file manipulator

`FileManagment` and `main` of `python/ibm/FileManipulator.py`, the commands of
`python/ibm/CoreCommands.py`, and `getopt.getopt` of Python for short options.

The files are texts.  Of what is printed, only what `writeFile` puts on the standard output is kept.
A load writes the byte-compiled module, the `.pyc`, beside its source.  The statements of the
modules that are loaded are taken to change no file; what Python makes of the files when it loads
them is a parameter.
-/

namespace Lab1.Ibm

/-! ### `getopt` -/

/-- What can be read, and the standard output. -/
structure Disk where
  files : Str → Option Str
  stdout : Str

structure FileManagment where
  miFile : Str
  moFile : Str
  deriving DecidableEq, Repr

namespace FileManagment

def readFile (self : FileManagment) (disk : Disk) : Except Raised Str :=
  match disk.files self.miFile with
  | none => .error .exception
  | some text => .ok text

/-- `writable` are the files that can be opened for writing. -/
def writeFile (writable : Str → Bool) (self : FileManagment) (outBuffer : Str) (disk : Disk) :
    Except Raised Disk :=
  if self.moFile ≠ [] then
    if writable self.moFile then
      .ok { disk with files := Function.update disk.files self.moFile (some (outBuffer ++ ['\n'])) }
    else .error .exception
  else .ok { disk with stdout := disk.stdout ++ (outBuffer ++ ['\n']) }

end FileManagment

/-! ### The commands -/

/-- What a call of an attribute of `CoreCommands` gives: an object of one of the two classes of
commands, or the file manager itself, which `abstractmethod` gives back. -/
inductive CoreCommand where
  | sort (fileManager : FileManagment)
  | reverse (fileManager : FileManagment)
  | abstractmethod (fileManager : FileManagment)
  deriving DecidableEq, Repr

/-- The loop of `Reverse.execute`. -/
def reverseLoop (inBuff : Str) : Str :=
  (List.range inBuff.length).foldl
    (fun rev i => rev ++ (inBuff[(inBuff.length - 1) - i]?).toList) []

/-- `Sort` only prints that it is executed, and a file manager has no `execute`. -/
def CoreCommand.execute (writable : Str → Bool) : CoreCommand → Disk → Except Raised Disk
  | .sort _, disk => .ok disk
  | .reverse fileManager, disk => do
    let inBuff ← fileManager.readFile disk
    fileManager.writeFile writable (reverseLoop inBuff) disk
  | .abstractmethod _, _ => .error .exception

/-! ### `main` -/

/-- What the program runs in, but for the files. -/
structure Setting (V O : Type*) where
  py : Python V FileManagment O
  /-- what the search finds in its directory number `k`, when these are the files -/
  contents : (Str → Option Str) → ℕ → Contents V
  /-- what is in the place of a byte-compiled module after it was written, or could not be -/
  pyc : (Str → Option Str) → Str → Option Str
  /-- `sys.modules` when `main` begins -/
  sys : Modules V
  custSearchPath : Str
  cwd : Str
  execute : O → Disk → Except Raised Disk

variable {V O : Type*}

/-- The directories of the search, with what is found in them. -/
def Setting.dirs (env : Setting V O) (files : Str → Option Str) : List (Str × Contents V) :=
  (mPathList env.custSearchPath env.cwd).zipIdx.map fun (path, k) => (path, env.contents files k)

/-- The disk after byte-compiled modules were written. -/
def Setting.write (env : Setting V O) (written : List Str) (disk : Disk) : Disk :=
  { disk with files := fun path =>
      if path ∈ written then env.pyc disk.files path else disk.files path }

end Lab1.Ibm
