import Mathlib.Logic.Function.Basic

/-!
# The command lookup

`CmdLookupMng` of `python/ibm/FileManipulator.py`, with what it uses of Python 2: `os.path.split`
and `os.path.splitext`, and `imp.load_source` and `imp.load_compiled`, which run a file in the
module of the given name, and make this module if there is none.  `imp.load_source` puts the
byte-compiled module beside the source.

`V` are the values of Python that a name can be bound to, `F` the file managers, and `O` the objects
that a call gives, other than `None`.
-/

namespace Lab1.Ibm

abbrev Str := List Char

def dotPy : Str := ['.', 'p', 'y']

def dotPyc : Str := ['.', 'p', 'y', 'c']

/-! ### Python -/

inductive Raised where
  | osError
  | unboundLocalError
  /-- any other `Exception` -/
  | exception
  /-- no `Exception`: `SystemExit`, say -/
  | other
  deriving DecidableEq, Repr

/-- Whether `except Exception` catches it. -/
def Raised.isException : Raised → Bool
  | .other => false
  | _ => true

/-- The attributes of a module. -/
abbrev Namespace (V : Type*) := Str → Option V

/-- `sys.modules` -/
abbrev Modules (V : Type*) := Str → Option (Namespace V)

/-- What a file that should be loaded holds. -/
inductive Code (V : Type*) where
  /-- nothing that can be read and compiled -/
  | unreadable
  /-- statements of which one raises this -/
  | raises (raised : Raised)
  /-- statements that bind these names -/
  | binds (names : Namespace V)

/-- What the search finds in a directory: the list of its files, unless `os.listdir` raises, and
what the file with a path holds as source text, or as compiled code, when it is loaded. -/
structure Contents (V : Type*) where
  listdir : Option (List Str)
  source : Str → Code V
  compiled : Str → Code V

/-- `sys.modules`, and the places of the byte-compiled modules that were written. -/
structure Loads (V : Type*) where
  sys : Modules V
  written : List Str

structure Python (V F O : Type*) where
  /-- the attributes that a module has from the beginning -/
  newModule : Namespace V
  /-- `value(fileMng)`; nothing stands for `None` -/
  call : V → F → Except Raised (Option O)

/-- `os.path.split(path)[-1]` -/
def basename (path : Str) : Str := (path.reverse.takeWhile (· != '/')).reverse

/-- `os.path.splitext`, for a path without `/`.  Dots at the beginning do not count. -/
def splitext (path : Str) : Str × Str :=
  match path.reverse.span (· != '.') with
  | (_, []) => (path, [])
  | (ext, dot :: root) =>
    if root.all (· == '.') then (path, []) else (root.reverse, dot :: ext.reverse)

def lower (s : Str) : Str := s.map Char.toLower

variable {V F O : Type*} (py : Python V F O) (contents : Contents V)

/-- Run the code of a file in the module of the name.  A module in which something was raised is no
longer one of `sys.modules`. -/
def execCode (sys : Modules V) (name : Str) : Code V → Except Raised (Namespace V) × Modules V
  | .unreadable => (.error .exception, sys)
  | .raises raised => (.error raised, Function.update sys name none)
  | .binds names =>
    let module : Namespace V := fun attr => (names attr).or ((sys name).getD py.newModule attr)
    (.ok module, Function.update sys name (some module))

/-- Where the byte-compiled module of a source is written, if the source can be compiled. -/
def compiledPath (pathname : Str) : Code V → List Str
  | .unreadable => []
  | .raises _ => [pathname ++ ['c']]
  | .binds _ => [pathname ++ ['c']]

/-- `imp.load_source`.  The byte-compiled module is written before the code is run. -/
def loadSource (st : Loads V) (name pathname : Str) : Except Raised (Namespace V) × Loads V :=
  let code := contents.source pathname
  let (result, sys) := execCode py st.sys name code
  (result, ⟨sys, st.written ++ compiledPath pathname code⟩)

/-- `imp.load_compiled` -/
def loadCompiled (st : Loads V) (name pathname : Str) : Except Raised (Namespace V) × Loads V :=
  let (result, sys) := execCode py st.sys name (contents.compiled pathname)
  (result, { st with sys })

/-! ### `CmdLookupMng` -/

/-- `__init__`, with the value of `MODULE_SEARCH_PATH`, or nothing, and the current directory. -/
def mPathList (custSearchPath : Str) (cwd : Str) : List Str :=
  (if custSearchPath ≠ [] then [custSearchPath] else []) ++ [cwd]

/-- The loop of `load_module_from_dir`, where `pyMod` is the local `py_mod`, if it has a value. -/
def loadFiles (dirPath : Str) :
    List Str → Option (Namespace V) → Loads V → Except Raised (Option (Namespace V)) × Loads V
  | [], none, st => (.error .unboundLocalError, st)
  | [], some pyMod, st => (.ok (some pyMod), st)
  | fileNm :: files, pyMod, st =>
    let (modName, fileExt) := splitext (basename fileNm)
    let path := dirPath ++ '/' :: fileNm
    if lower fileExt = dotPy then
      match loadSource py contents st modName path with
      | (.ok pyMod, st) => loadFiles dirPath files (some pyMod) st
      | (.error e, st) => if e.isException then (.ok none, st) else (.error e, st)
    else if lower fileExt = dotPyc then
      match loadCompiled py contents st modName path with
      | (.ok pyMod, st) => loadFiles dirPath files (some pyMod) st
      | (.error e, st) => if e.isException then (.ok none, st) else (.error e, st)
    else loadFiles dirPath files pyMod st

/-- `load_module_from_dir`, which returns a module or `None`. -/
def loadModuleFromDir (dirPath : Str) (st : Loads V) :
    Except Raised (Option (Namespace V)) × Loads V :=
  match contents.listdir with
  | none => (.error .osError, st)
  | some files => loadFiles py contents dirPath files none st

/-- `cmdLookup`, which returns an object or `None`.  Each directory of `mPathList` comes with what
the search finds in it when it gets there: a directory may be in the list twice, and what was
written the first time is found the second time. -/
def cmdLookup (command : Str) (fileMng : F) :
    List (Str × Contents V) → Loads V → Except Raised (Option O) × Loads V
  | [], st => (.ok none, st)
  | (path, contents) :: dirs, st =>
    match loadModuleFromDir py contents path st with
    | (.error e, st) => (.error e, st)
    | (.ok none, st) => cmdLookup command fileMng dirs st
    | (.ok (some pyMod), st) =>
      match pyMod command with
      | none => cmdLookup command fileMng dirs st
      | some attr =>
        match py.call attr fileMng with
        | .error e => (.error e, st)
        | .ok none => cmdLookup command fileMng dirs st
        | .ok (some classInst) => (.ok (some classInst), st)

end Lab1.Ibm
