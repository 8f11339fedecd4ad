import Lab1.Library.Exec
import Lab1.Library.Holders

/-!
# Library handles

`loader_fd` and `loader::open` of `loader_magic/loader_fd.h`, and the constructor of
`loadable_object`.

The objects of a program are given by names, and a null handle is `none`.  What `dlopen` returns is
an argument of the calls that call it.  `dlopen` may return the same handle more than once; then it
wants to be closed as many times.
-/

namespace Lab1.LoaderMagic

variable {ι η : Type*} [DecidableEq ι]

/-- What stops a sequence of calls. -/
inductive LoaderFault where
  /-- an object is used that is not alive, or made where one is -/
  | lifetime
  /-- the end of a function is reached that should have returned something -/
  | noReturn
  deriving DecidableEq, Repr

/-- What the source leaves to the compiler. -/
structure Build where
  /-- whether a call of a function that returns nothing, where it should, comes back -/
  comesBack : Bool
  deriving DecidableEq

/-- All objects of type `loader_fd`, and the calls of the dynamic loader so far. -/
structure Loader (ι η : Type*) where
  live : Finset ι
  m_raw_handle : ι → Option η
  /-- the handles that `dlopen` returned -/
  opened : List η
  /-- the handles passed to `dlclose` -/
  closed : List η

def start : Loader ι η := ⟨∅, fun _ => none, [], []⟩

namespace Loader

variable (s : Loader ι η)

/-- A new object with the given handle. -/
def create (obj : ι) (handle : Option η) : Except LoaderFault (Loader ι η) :=
  if obj ∈ s.live then .error .lifetime
  else .ok { s with
    live := insert obj s.live
    m_raw_handle := Function.update s.m_raw_handle obj handle }

/-- `dlopen`, with what it returns. -/
def dlopen (handle : Option η) : Loader ι η := { s with opened := s.opened ++ handle.toList }

/-- `loader_fd(std::string path)` -/
def fromPath (obj : ι) (handle : Option η) : Except LoaderFault (Loader ι η) :=
  (s.dlopen handle).create obj handle

/-- `loader_fd(loader_fd&& other)` -/
def moveConstruct (obj other : ι) : Except LoaderFault (Loader ι η) :=
  if other ∈ s.live then do
    let s' ← s.create obj (s.m_raw_handle other)
    return { s' with m_raw_handle := Function.update s'.m_raw_handle other none }
  else .error .lifetime

/-- `operator=(loader_fd&& other)`, which has no `return` statement. -/
def moveAssign (b : Build) (obj other : ι) : Except LoaderFault (Loader ι η) :=
  if obj ∈ s.live ∧ other ∈ s.live then
    let taken := Function.update s.m_raw_handle obj (s.m_raw_handle other)
    let s' := { s with m_raw_handle := Function.update taken other none }
    if b.comesBack then .ok s' else .error .noReturn
  else .error .lifetime

/-- `~loader_fd()` -/
def destroy (obj : ι) : Except LoaderFault (Loader ι η) :=
  if obj ∈ s.live then .ok { s with
    live := s.live.erase obj
    closed := s.closed ++ (s.m_raw_handle obj).toList }
  else .error .lifetime

/-- `loader::open(path)`.  Without a handle, the result has an exception in it; otherwise, an object
to which the handle has been moved from the local `fd`, so that the destructor of this has nothing
to close. -/
def openLib (obj : ι) (handle : Option η) : Except LoaderFault (Loader ι η) :=
  match handle with
  | none => .ok (s.dlopen none)
  | some h => (s.dlopen (some h)).create obj (some h)

end Loader

/-! ### Sequences of calls -/

inductive Call (ι η : Type*) where
  /-- `loader_fd()` -/
  | construct (obj : ι)
  | fromPath (obj : ι) (handle : Option η)
  | openLib (obj : ι) (handle : Option η)
  | moveConstruct (obj other : ι)
  | moveAssign (obj other : ι)
  | destroy (obj : ι)

def Loader.call (b : Build) (s : Loader ι η) : Call ι η → Except LoaderFault (Loader ι η)
  | .construct obj => s.create obj none
  | .fromPath obj handle => s.fromPath obj handle
  | .openLib obj handle => s.openLib obj handle
  | .moveConstruct obj other => s.moveConstruct obj other
  | .moveAssign obj other => s.moveAssign b obj other
  | .destroy obj => s.destroy obj

def step (b : Build) (s : Loader ι η) (c : Call ι η) : Except LoaderFault (Loader ι η × Unit) := do
  let s ← s.call b c
  return (s, ())

/-- `loadable_object(object_path)`, with its member `m_object_handle` and the local `result`. -/
def loadableObject (m_object_handle result : ι) (handle : Option η) : List (Call ι η) :=
  .construct m_object_handle :: .openLib result handle ::
    match handle with
    | none => []
    | some _ => [.moveAssign m_object_handle result, .destroy result]

end Lab1.LoaderMagic
