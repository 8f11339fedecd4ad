import Lab1.MessageStore.StdStreamIODevice

/-!
# The user interface of the client

`ClientUiTask` (`MessageStore/client/src/ClientUiTask.cpp`,
`MessageStore/client/inc/ClientUiTask.h`).

The task works with any device.  What it needs of one is a `Reader`: `stdReader` is the one of the
program, which reads a standard stream; `δ` is the type of its states.
-/

namespace Lab1.MessageStore

/-- The characters of a string literal. -/
def chars (s : String) : Str := s.toList.map fun c => UInt8.ofNat c.toNat

inductive UserOptions where
  | ADD_USER | SEND_MSG | RECV_ALL_MSGS | EXIT | BAD_OPT
  deriving DecidableEq, Repr

namespace ClientUiTask

def WELCOME : Str := chars "\nWelcome to the Message Store. Your options are: \n"

def ADD : Str := chars "1. Add a new user to Message Store"

def SEND : Str := chars "2. Send a message to a user"

def RECV : Str := chars "3. Receive all messages bound to a user"

def EXIT : Str := chars "4. Exit Message Store"

def GOOD_BYE : Str := chars "Thank you for using Message Store. Drop by any time!"

def BAD_OPT : Str := chars "Bad option selected. Please try again"

def USR_ADD : Str := chars "Please enter your first and last name, separated by a space "

def SEND_USR_FROM : Str :=
  chars ("Please enter the first and last name of the user " ++
    "__FROM__ which the message is sent, separated by space.")

def SEND_USR_TO : Str :=
  chars ("Please enter the first and last name of the user " ++
    "__TO__ which the message is sent, separated by space.")

def NO_SUCH_USER : Str :=
  chars "The user you have requested does not exist in the system. Please try again."

def USER_MSG : Str := chars "Please enter the message you wish to send [128 chars max]."

def RCV_USR : Str :=
  chars ("Please enter the first and last name of the user for which you " ++
    "would like to receive messages, separated by space")

def USR_EXIST : Str := chars "The user you chose to add exists in the system."

def MSG_HEADER : Str := chars "\nUser Messages:"

def NO_MSG : Str := chars "\nNo messages for this user"

def MAX_USR_NAME : ℕ := 20

def MAX_USR_LAST : ℕ := 20

def MAX_MSG_SIZE : ℕ := 128

/-! ### Reading -/

/-- It discards the newline. -/
def readLineFromStream (room : ℕ) (s : InStream) (len : ℕ) :
    Except Stop (InStream × StreamDataChunk) := do
  let (s, chunk) ← StdStreamIODevice.readData room s len
  -- `chunk[chunk.size()-1]`
  match chunk.getLast? with
  | none => .error (.fault .outOfBounds)
  | some c =>
    if c ≠ newline then return (StdStreamIODevice.ignoreTillChar s newline, chunk)
    else return (s, chunk.dropLast)

/-- The `switch` of `readUserRequest`. -/
def optionOf (c : UInt8) : UserOptions :=
  if c = 49 then .ADD_USER
  else if c = 50 then .SEND_MSG
  else if c = 51 then .RECV_ALL_MSGS
  else if c = 52 then .EXIT
  else .BAD_OPT

def readUserRequest (room : ℕ) (s : InStream) : Except Stop (InStream × UserOptions) := do
  let (s, chunk) ← readLineFromStream room s 1
  -- `chunk[0]`
  match chunk.head? with
  | none => .error (.fault .outOfBounds)
  | some c => return (s, optionOf c)

/-- The user in a chunk. -/
def parseUser (chunkFirstLast : StreamDataChunk) : User :=
  let ss : InStream := ⟨chunkFirstLast, true⟩
  let (ss, first) := ss.getline space
  let (_, last) := ss.getline nul
  ⟨first, last⟩

end ClientUiTask

/-- What the task reads from. -/
structure Reader (δ : Type) where
  readLineFromStream : δ → ℕ → Except Stop (δ × StreamDataChunk)
  readUserRequest : δ → Except Stop (δ × UserOptions)

/-- The memory that there is for a chunk: enough for the longest one that the task asks for. -/
structure Room where
  chars : ℕ
  enough : ClientUiTask.MAX_MSG_SIZE ≤ chars

/-- The standard stream. -/
def stdReader (room : Room) : Reader InStream where
  readLineFromStream := ClientUiTask.readLineFromStream room.chars
  readUserRequest := ClientUiTask.readUserRequest room.chars

def Reader.parseUserFromInput {δ : Type} (r : Reader δ) (d : δ) (lenToRead : ℕ) :
    Except Stop (δ × User) := do
  let (d, chunkFirstLast) ← r.readLineFromStream d lenToRead
  return (d, ClientUiTask.parseUser chunkFirstLast)

/-! ### The task -/

structure ClientUiTask (δ κ : Type) where
  /-- what `m_ioDevice` reads from, and what it has written -/
  input : δ
  output : Str
  m_keepRunning : Bool
  m_userManager : UserManager κ

namespace ClientUiTask

variable {δ κ : Type} [DecidableEq κ] (hash : Str → κ) (r : Reader δ)

def displaySingleMessage (t : ClientUiTask δ κ) (prompt : Str) : ClientUiTask δ κ :=
  { t with output := StdStreamIODevice.writeData t.output prompt }

def displayUserOptions (t : ClientUiTask δ κ) :
    Except Stop (ClientUiTask δ κ × UserOptions) := do
  let t := t.displaySingleMessage WELCOME
  let t := t.displaySingleMessage ADD
  let t := t.displaySingleMessage SEND
  let t := t.displaySingleMessage RECV
  let t := t.displaySingleMessage EXIT
  let (input, chosenOpt) ← r.readUserRequest t.input
  return ({ t with input }, chosenOpt)

def handleAddUser (t : ClientUiTask δ κ) : Except Stop (ClientUiTask δ κ) := do
  let t := t.displaySingleMessage USR_ADD
  let (input, user) ← r.parseUserFromInput t.input (MAX_USR_NAME + MAX_USR_LAST)
  let (m_userManager, rc) := t.m_userManager.addUser hash user
  let t := { t with input, m_userManager }
  if rc = .EXISTS then return t.displaySingleMessage USR_EXIST
  else return t

def handleSendToUser (t : ClientUiTask δ κ) : Except Stop (ClientUiTask δ κ) := do
  let t := t.displaySingleMessage SEND_USR_FROM
  let (input, userFrom) ← r.parseUserFromInput t.input (MAX_USR_NAME + MAX_USR_LAST)
  let t := { t with input }
  if t.m_userManager.doesUserExist hash userFrom = false then
    return t.displaySingleMessage NO_SUCH_USER
  let t := t.displaySingleMessage SEND_USR_TO
  let (input, userTo) ← r.parseUserFromInput t.input (MAX_USR_NAME + MAX_USR_LAST)
  let t := { t with input }
  if t.m_userManager.doesUserExist hash userTo = false then
    return t.displaySingleMessage NO_SUCH_USER
  let t := t.displaySingleMessage USER_MSG
  let (input, chunkMsg) ← r.readLineFromStream t.input MAX_MSG_SIZE
  let m_userManager ← Stop.ofFault (t.m_userManager.sendToUser hash ⟨userFrom, userTo, chunkMsg⟩)
  return { t with input, m_userManager }

def handleRecvForUser (t : ClientUiTask δ κ) : Except Stop (ClientUiTask δ κ) := do
  let t := t.displaySingleMessage RCV_USR
  let (input, user) ← r.parseUserFromInput t.input (MAX_USR_NAME + MAX_USR_LAST)
  let t := { t with input }
  if t.m_userManager.doesUserExist hash user = false then
    return t.displaySingleMessage NO_SUCH_USER
  let (m_userManager, msgs) := t.m_userManager.getUserMessages hash user
  let t := { t with m_userManager }
  if msgs.length = 0 then return t.displaySingleMessage NO_MSG
  let t := t.displaySingleMessage MSG_HEADER
  return msgs.foldl (fun t msg => t.displaySingleMessage msg.m_msg) t

def handleUserRequest (t : ClientUiTask δ κ) : UserOptions → Except Stop (ClientUiTask δ κ)
  | .ADD_USER => handleAddUser hash r t
  | .SEND_MSG => handleSendToUser hash r t
  | .RECV_ALL_MSGS => handleRecvForUser hash r t
  | .BAD_OPT => .ok (t.displaySingleMessage BAD_OPT)
  | .EXIT => .ok { t.displaySingleMessage GOOD_BYE with m_keepRunning := false }

/-- The body of the loop. -/
def round (t : ClientUiTask δ κ) : Except Stop (ClientUiTask δ κ) := do
  let (t, opt) ← displayUserOptions r t
  handleUserRequest hash r t opt

/-- The first `n` rounds of the loop, or all of them if it is left before. -/
def runUiLoop : ℕ → ClientUiTask δ κ → Except Stop (ClientUiTask δ κ)
  | 0, t => .ok t
  | n + 1, t => do
    let t ← round hash r t
    if t.m_keepRunning then runUiLoop n t else return t

/-- The task after its constructor. -/
def start (input : δ) : ClientUiTask δ κ := ⟨input, [], true, .new⟩

end ClientUiTask

end Lab1.MessageStore
