import Lab1.Library.While

/-!
# The bulk data stream

The server's `BulkDataOutStreamMngr` and the client's `BulkDataInStreanMngr`
(`task1/src/DataStreamManager.cpp`), with `SocketClient::consume` (`task1/src/SocketClient.cpp`).

The two sides exchange packages: some flags and a protocol-buffer message `Respond`.  Serialising
and parsing, the transport and the result set itself are not part of the repository; here a package
arrives as it was sent, and a result set is the list of what its calls of `getNextCSVRow` do.
`UDWordType` variables are `UInt32`.  The message's `.proto` file is not part of the repository
either: `Defaults` holds the values that unset enumeration fields read as.
-/

namespace Lab1.Task1

/-! ### Messages -/

abbrev Row := List UInt8

/-- `OTHER` stands for the values that neither side names. -/
inductive RespontType where
  | STATUS | RESULT | OTHER
  deriving DecidableEq, Repr

inductive Status where
  | FAILURE | OTHER
  deriving DecidableEq, Repr

inductive RowSetType where
  | CSV
  deriving DecidableEq, Repr

structure Column where
  label : String
  name : String
  type : ℕ
  tablename : String
  deriving DecidableEq, Repr

/-- `T` is the type of durations. -/
structure QueryTime (T : Type) where
  query : T
  querycpu : T
  getdata : T
  getdatacpu : T
  total : T
  totalcpu : T

structure Metadata (T : Type) where
  rowscount : ℕ
  querytime : Option (QueryTime T)
  columns : List Column

structure RowSet where
  type : Option RowSetType
  size : UInt32
  csvrow : List Row

structure Error where
  errorcode : ℕ
  errormessage : String
  deriving DecidableEq, Repr

structure Respond (T : Type) where
  type : Option RespontType
  serialno : ℕ
  status : Option Status
  error : Error
  metadata : Metadata T
  rows : RowSet

/-- What `type()` and `status()` give for a field that is not set. -/
structure Defaults where
  type : RespontType
  status : Status

/-- The message after its constructor, and after `clear()`. -/
def Respond.clear {T : Type} : Respond T where
  type := none
  serialno := 0
  status := none
  error := ⟨0, ""⟩
  metadata := ⟨0, none, []⟩
  rows := ⟨none, 0, []⟩

def Respond.addCsvrow {T : Type} (m : Respond T) (row : Row) : Respond T :=
  { m with rows := { m.rows with csvrow := m.rows.csvrow ++ [row] } }

/-! ### Packages -/

def protocolProtobuf : UInt32 := 0x00000001

def msgCont : UInt32 := 0x00000002

structure Package (T : Type) where
  flags : UInt32
  msg : Respond T

/-- `PackageFlags & msgCont`. -/
def Package.cont {T : Type} (p : Package T) : Bool := p.flags &&& msgCont != 0

/-! ### Queries -/

/-- What is thrown: an `exception` with its text, or something else. -/
inductive Raised where
  | exception (what : String)
  | unknown
  deriving DecidableEq, Repr

/-- What a call of `getNextCSVRow` does. -/
inductive RowFetch where
  | row (r : Row)
  | raise (e : Raised)
  deriving DecidableEq, Repr

structure ResultSet (T : Type) where
  resultsSetSize : ℕ
  /-- the calls of `getNextCSVRow` until `isEndOfSet` -/
  fetches : List RowFetch
  queryTimeAbs : T
  queryCpuTime : T
  getDataTimeAbs : T
  getDataCpuTime : T
  metaData : List Column

/-- What `executeQuery` does. -/
inductive QueryOutcome (T : Type) where
  | null
  | raise (e : Raised)
  | resultSet (rs : ResultSet T)

/-! ### The sender -/

/-- 2Mb -/
def maxTrxBufferSz : UInt32 := 2 * 0x100000

/-- The local variables of `handleProtoBuffSend`, and the packages sent so far. -/
structure SendVars (T : Type) where
  protobufRespond : Respond T
  count : UInt32
  totalBulkSz : UInt32
  flags : UInt32
  sent : List (Package T)

/-- What is left of a call of `handleProtoBuffSend`: the packages sent, the message it ends with,
and what it caught. -/
structure Answer (T : Type) where
  sent : List (Package T)
  protobufRespond : Respond T
  caught : Option Raised

namespace BulkDataOutStreamMngr

variable {T : Type}

/-- The text that the `catch` handlers put into the message. -/
def errorMessage : Raised → String
  | .exception what => what
  | .unknown => "Unknow error when executing query"

/-- The `catch` handlers. -/
def fail (e : Raised) (m : Respond T) : Respond T :=
  { m with type := some .STATUS, status := some .FAILURE, error := ⟨1, errorMessage e⟩ }

def finalizeStream [Add T] (rs : ResultSet T) (m : Respond T) (sz : UInt32) : Respond T :=
  { m with
    rows := { m.rows with size := sz }
    metadata := { m.metadata with
      querytime := some {
        query := rs.queryTimeAbs
        querycpu := rs.queryCpuTime
        getdata := rs.getDataTimeAbs
        getdatacpu := rs.getDataCpuTime
        total := rs.queryTimeAbs + rs.getDataTimeAbs
        totalcpu := rs.queryCpuTime + rs.getDataCpuTime }
      columns := m.metadata.columns ++ rs.metaData } }

def sendBulk (v : SendVars T) : SendVars T :=
  { v with sent := v.sent ++ [⟨v.flags, v.protobufRespond⟩] }

/-- The inner loop, over the calls that are left: it puts rows into the message until the limit is
reached or there are none. -/
def fillBulk : List RowFetch → SendVars T → (Raised × SendVars T) ⊕ (SendVars T × List RowFetch)
  | [], v => .inr (v, [])
  | f :: rest, v =>
    if v.totalBulkSz < maxTrxBufferSz then
      match f with
      | .raise e => .inl (e, v)
      | .row r => fillBulk rest { v with
          protobufRespond := v.protobufRespond.addCsvrow r
          totalBulkSz := v.totalBulkSz + UInt32.ofNat r.length
          count := v.count + 1 }
    else .inr (v, f :: rest)

/-- `!resultSet->isEndOfSet()`. -/
def notEndOfSet (s : SendVars T × List RowFetch) : Bool := !s.2.isEmpty

/-- The body of the outer loop. -/
def bulkTurn [Add T] (rs : ResultSet T) (s : SendVars T × List RowFetch) :
    Except Fault ((Raised × SendVars T) ⊕ (SendVars T × List RowFetch)) :=
  match fillBulk s.2 s.1 with
  | .inl caught => .ok (.inl caught)
  | .inr (v, rest) =>
    let v := if rest.isEmpty then
        { v with
          protobufRespond := finalizeStream rs v.protobufRespond v.count
          flags := protocolProtobuf }
      else v
    -- the rows of a bulk that is not the last go out without a size
    let v := sendBulk v
    .ok (.inr ({ v with totalBulkSz := 0, protobufRespond := .clear }, rest))

/-- The message about a result set before its first row. -/
def resultMsg (rs : ResultSet T) : Respond T :=
  { (.clear : Respond T) with
    type := some .RESULT
    serialno := 1
    metadata := ⟨rs.resultsSetSize, none, []⟩
    rows := ⟨some .CSV, 0, []⟩ }

/-- The variables before the outer loop. -/
def startVars (rs : ResultSet T) : SendVars T where
  protobufRespond := resultMsg rs
  count := 0
  totalBulkSz := 0
  flags := msgCont ||| protocolProtobuf
  sent := []

/-- Every turn of the outer loop fetches a row, so there are no more turns than rows. -/
def handleProtoBuffSend [Add T] (outcome : QueryOutcome T) : Except Fault (Answer T) :=
  match outcome with
  | .null =>
    let m : Respond T := { (.clear : Respond T) with type := some .STATUS, serialno := 1 }
    .ok ⟨[⟨protocolProtobuf, m⟩], m, none⟩
  -- the message of a `catch` handler is not sent
  | .raise e => .ok ⟨[], fail e .clear, some e⟩
  | .resultSet rs => do
    match ← whileLoop notEndOfSet (bulkTurn rs) (rs.fetches.length + 1)
        (startVars rs, rs.fetches) with
    | .inl (e, v) => return ⟨v.sent, fail e v.protobufRespond, some e⟩
    | .inr (v, _) => return ⟨v.sent, v.protobufRespond, none⟩

end BulkDataOutStreamMngr

/-! ### The receiver -/

/-- What the client prints. -/
inductive Out (T : Type) where
  | errormessage (msg : String)
  | csvrow (r : Row)
  | rowsCount (n : ℕ)
  | querytime (t : QueryTime T)

variable {T : Type}

/-- The loop of `consume`, when `left` turns are left: `rows` are the rows from `csvrow(count)`
on. -/
def showRows : ℕ → List Row → Except Fault (List (Out T))
  | 0, _ => .ok []
  | _ + 1, [] => .error .outOfBounds
  | left + 1, r :: rows => do
    let out ← showRows left rows
    return .csvrow r :: out

/-- `SocketClient::consume`. -/
def consume (dflt : Defaults) (m : Respond T) : Except Fault (List (Out T)) :=
  match m.type.getD dflt.type with
  | .STATUS =>
    if m.status.getD dflt.status = .FAILURE then .ok [.errormessage m.error.errormessage]
    else .ok []
  | .RESULT => do
    let out ← showRows m.rows.size.toNat m.rows.csvrow
    return out ++ .rowsCount m.metadata.rowscount ::
      (m.metadata.querytime.map Out.querytime).toList
  | .OTHER => .ok []

/-- What a call of `handleProtoBuffRecv` comes to: what `consume` prints, whether the call is still
waiting for a package, and the packages it has not read. -/
structure Received (T : Type) where
  out : List (Out T)
  waiting : Bool
  left : List (Package T)

/-- `BulkDataInStreanMngr::handleProtoBuffRecv`: read and consume packages as long as the last one
read has `msgCont`. -/
def handleProtoBuffRecv (dflt : Defaults) : List (Package T) → Except Fault (Received T)
  | [] => .ok ⟨[], true, []⟩
  | p :: ps => do
    let out ← consume dflt p.msg
    if p.cont then
      let r ← handleProtoBuffRecv dflt ps
      return { r with out := out ++ r.out }
    else return ⟨out, false, ps⟩

end Lab1.Task1
