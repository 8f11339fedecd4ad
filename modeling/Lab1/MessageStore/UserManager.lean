import Lab1.Library.Exec
import Mathlib.Logic.Function.Basic

/-!
# The user manager

`UserManager` of the message store (`MessageStore/client/src/UserManager.cpp`,
`MessageStore/client/inc/UserManager.h`): a map from the hash of a user's full name to the user's
box of messages.

Strings are lists of bytes.  `hash` stands for `std::hash<std::string>`, and `κ` for the type of its
values.  An iterator into the map is the entry that it points to, and `none` at the end of the map.
-/

namespace Lab1.MessageStore

abbrev Str := List UInt8

structure User where
  m_firstName : Str
  m_lastName : Str
  deriving DecidableEq, Repr

structure UserMsg where
  m_from : User
  m_to : User
  m_msg : Str
  deriving DecidableEq, Repr

abbrev Messages := List UserMsg

inductive ReturnCodes where
  | SUCCESS | NOT_EXISTS | EXISTS | BAD_OPT
  deriving DecidableEq, Repr

/-! ### Boxes -/

structure MsgStoreUserBox where
  m_msgs : Messages
  deriving DecidableEq, Repr

namespace MsgStoreUserBox

def new : MsgStoreUserBox := ⟨[]⟩

def addMessage (box : MsgStoreUserBox) (msg : UserMsg) : MsgStoreUserBox := ⟨box.m_msgs ++ [msg]⟩

def getUserMessages (box : MsgStoreUserBox) : Messages := box.m_msgs

def clearUsersBox (_ : MsgStoreUserBox) : MsgStoreUserBox := ⟨[]⟩

end MsgStoreUserBox

/-! ### The manager -/

structure UserManager (κ : Type*) where
  m_usersByHash : κ → Option MsgStoreUserBox

/-- The hash of `m_firstName + m_lastName`. -/
def userHash {κ : Type*} (hash : Str → κ) (user : User) : κ :=
  hash (user.m_firstName ++ user.m_lastName)

namespace UserManager

variable {κ : Type*} [DecidableEq κ] (hash : Str → κ)

def new : UserManager κ := ⟨fun _ => none⟩

def findUserBox (m : UserManager κ) (user : User) : Option (κ × MsgStoreUserBox) :=
  (m.m_usersByHash (userHash hash user)).map fun box => (userHash hash user, box)

/-- `m_usersByHash[k] = box` -/
def setBox (m : UserManager κ) (k : κ) (box : MsgStoreUserBox) : UserManager κ :=
  ⟨Function.update m.m_usersByHash k (some box)⟩

def doesUserExist (m : UserManager κ) (user : User) : Bool := (m.findUserBox hash user).isSome

def addUser (m : UserManager κ) (user : User) : UserManager κ × ReturnCodes :=
  if m.doesUserExist hash user then
    (m, .EXISTS)
  else
    (m.setBox (userHash hash user) .new, .SUCCESS)

/-- There is no test for a recipient without a box. -/
def sendToUser (m : UserManager κ) (msg : UserMsg) : Except Fault (UserManager κ) :=
  match m.findUserBox hash msg.m_to with
  | none => .error .nullPointer
  | some (k, box) => .ok (m.setBox k (box.addMessage msg))

def getUserMessages (m : UserManager κ) (user : User) : UserManager κ × Messages :=
  match m.findUserBox hash user with
  | none => (m, [])
  | some (k, box) => (m.setBox k box.clearUsersBox, box.getUserMessages)

end UserManager

/-! ### Calls -/

inductive Op where
  | addUser (user : User)
  | sendToUser (msg : UserMsg)
  | doesUserExist (user : User)
  | getUserMessages (user : User)
  deriving DecidableEq, Repr

/-- The user whose box a call looks up. -/
def Op.user : Op → User
  | addUser user => user
  | sendToUser msg => msg.m_to
  | doesUserExist user => user
  | getUserMessages user => user

inductive Reply where
  | code (rc : ReturnCodes)
  | done
  | bool (b : Bool)
  | messages (msgs : Messages)
  deriving DecidableEq, Repr

variable {κ : Type*} [DecidableEq κ]

/-- One call. -/
def call (hash : Str → κ) (m : UserManager κ) : Op → Except Fault (UserManager κ × Reply)
  | .addUser user =>
    let (m', rc) := m.addUser hash user
    .ok (m', .code rc)
  | .sendToUser msg => do
    let m' ← m.sendToUser hash msg
    return (m', .done)
  | .doesUserExist user => .ok (m, .bool (m.doesUserExist hash user))
  | .getUserMessages user =>
    let (m', msgs) := m.getUserMessages hash user
    .ok (m', .messages msgs)

end Lab1.MessageStore
