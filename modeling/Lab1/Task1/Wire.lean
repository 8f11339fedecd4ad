import Lab1.Library.While
import Lab1.Shr.Macros
import Lab1.Task1.DataStreamManager

/-!
# Packages on the wire

The loops around `recv` and `send` of `BulkDataInStreanMngr::handleProtoBuffRecv`,
`BulkDataOutStreamMngr::sendBulk` (`task1/src/DataStreamManager.cpp`), `SocketServer::executeTask`
(`task1/src/SocketServer.cpp`) and `SocketClient::sendQuery` (`task1/src/SocketClient.cpp`).

How many bytes a call moves, up to the number asked for and to what there is to be received, is up
to the system.  A `UDWordType` is a `UInt32`, the two fields of a header have four bytes each, and
memory can always be allocated.  What fresh memory holds is a parameter, and so is the parser.
-/

namespace Lab1.Task1.Wire

open Shr (IoChoice)

/-! ### Packages -/

/-- `PackageHeader_St`, in host order. -/
structure PackageHeader where
  packageSize : UInt32
  packageFlags : UInt32
  deriving DecidableEq, Repr

/-- `sizeof(PackageHeader_St)` -/
def sizeofPackageHeader : UInt32 := 8

/-- `MAXIMUM_PACKAGE_BUFFER_SIZE` -/
def maximumPackageBufferSize : UInt32 := 1024

/-- `TCPSocket::convNtohl` of both fields. -/
def convNtohl (header : Mem) : PackageHeader :=
  ⟨UInt32.ofNat (header.netWord 0), UInt32.ofNat (header.netWord 4)⟩

/-! ### Receiving -/

/-- The variables of a receive loop, and the bytes that are still to be received. -/
structure RecvVars where
  leftToRecv : UInt32
  totalRecvied : UInt32
  /-- what the loop receives into -/
  buffer : Mem
  input : List UInt8

/-- How a receive loop is left. -/
inductive RecvEnd where
  | complete (v : RecvVars)
  /-- `recv failed or connection disconnected` -/
  | disconnected (v : RecvVars)
  /-- the `SocketException` of `CommunicatingSocket::recv` -/
  | thrown (v : RecvVars)

/-- `leftToRecv!=0` -/
def recvNext (v : RecvVars) : RecvEnd ⊕ RecvVars :=
  if v.leftToRecv ≠ 0 then .inr v else .inl (.complete v)

/-- A call of `recv`, for `asked` bytes behind those that the object of `size` bytes has already,
and the rest of the turn. -/
def recvCall (asked : UInt32 → UInt32) (size : ℕ) (v : RecvVars) :
    IoChoice → Except Fault (RecvEnd ⊕ RecvVars)
  | .fail => .ok (.inl (.thrown v))
  | .upTo k => do
    let received := v.input.take (min k (asked v.leftToRecv).toNat)
    require .outOfBounds (v.totalRecvied.toNat + received.length ≤ size)
    let recvBufferSize := UInt32.ofNat received.length
    -- unsigned, so this is `== 0`
    if recvBufferSize ≤ 0 then
      return .inl (.disconnected v)
    return .inr {
      leftToRecv := v.leftToRecv - recvBufferSize
      totalRecvied := v.totalRecvied + recvBufferSize
      buffer := v.buffer.write v.totalRecvied.toNat received
      input := v.input.drop received.length }

/-- The loop that receives into a fresh object of `size` bytes. -/
def recvLoop (asked : UInt32 → UInt32) (size : UInt32) (fresh : Mem) (input : List UInt8)
    (choices : List IoChoice) : Except Fault (Driven RecvVars IoChoice RecvEnd) :=
  drive recvNext (recvCall asked size.toNat) choices ⟨size, 0, fresh, input⟩

/-- The loop for the header: a call asks for all that is left. -/
def recvHeader (fresh : Mem) (input : List UInt8) (choices : List IoChoice) :=
  recvLoop (fun leftToRecv => leftToRecv) sizeofPackageHeader fresh input choices

/-- The loop for the data of a package. -/
def recvData (header : PackageHeader) (fresh : Mem) (input : List UInt8)
    (choices : List IoChoice) :=
  recvLoop (fun leftToRecv => min leftToRecv maximumPackageBufferSize) header.packageSize fresh
    input choices

/-- What receiving a package comes to. -/
inductive PackageEnd where
  /-- the call of `ParseFromArray`, for `bytes` -/
  | parse (header : PackageHeader) (bytes input : List UInt8) (unused : List IoChoice)
  | disconnected (input : List UInt8)
  | thrown (input : List UInt8)
  /-- a call has not returned yet; the object has `size` bytes -/
  | waiting (v : RecvVars) (size : UInt32)

/-- A receive loop with what follows it. -/
def afterRecv (size : UInt32) (run : Except Fault (Driven RecvVars IoChoice RecvEnd))
    (rest : RecvVars → List IoChoice → Except Fault PackageEnd) : Except Fault PackageEnd :=
  match run with
  | .ok (.finished (.complete v) unused) => rest v unused
  | .ok (.finished (.disconnected v) _) => .ok (.disconnected v.input)
  | .ok (.finished (.thrown v) _) => .ok (.thrown v.input)
  | .ok (.waiting v) => .ok (.waiting v size)
  | .error f => .error f

/-- The header, then the data. -/
def recvPackage (fresh : Mem) (input : List UInt8) (choices : List IoChoice) :
    Except Fault PackageEnd :=
  afterRecv sizeofPackageHeader (recvHeader fresh input choices) fun v choices =>
    let header := convNtohl v.buffer
    afterRecv header.packageSize (recvData header fresh v.input choices) fun v choices =>
      .ok (.parse header (v.buffer.read 0 v.totalRecvied.toNat) v.input choices)

/-- Why receiving ends. -/
inductive RecvStop where
  /-- after a package that is not to be continued -/
  | done
  | parseFailure
  | disconnected
  | thrown
  | waiting (v : RecvVars) (size : UInt32)

/-- `M` is the type of messages. -/
structure Reception (M : Type) where
  /-- what `ParseFromArray` was called for, call after call -/
  given : List (List UInt8)
  /-- the messages that it gave -/
  messages : List M
  input : List UInt8
  stop : RecvStop

variable {M : Type} (parseFromArray : List UInt8 → Option M)

/-- `SocketServer::executeTask`, up to the request. -/
def executeTask (fresh : Mem) (input : List UInt8) (choices : List IoChoice) :
    Except Fault (Reception M) := do
  match ← recvPackage fresh input choices with
  | .parse _ bytes input _ =>
    match parseFromArray bytes with
    | none => return ⟨[bytes], [], input, .parseFailure⟩
    | some m => return ⟨[bytes], [m], input, .done⟩
  | .disconnected input => return ⟨[], [], input, .disconnected⟩
  | .thrown input => return ⟨[], [], input, .thrown⟩
  | .waiting v size => return ⟨[], [], v.input, .waiting v size⟩

/-- The variables of `handleProtoBuffRecv` between two packages. -/
structure ReceptionVars (M : Type) where
  given : List (List UInt8)
  messages : List M
  input : List UInt8
  choices : List IoChoice
  cont : Bool

/-- The body of the loop over the packages. -/
def packageTurn (fresh : Mem) (s : ReceptionVars M) :
    Except Fault (Reception M ⊕ ReceptionVars M) := do
  match ← recvPackage fresh s.input s.choices with
  | .parse header bytes input choices =>
    match parseFromArray bytes with
    | none => return .inl ⟨s.given ++ [bytes], s.messages, input, .parseFailure⟩
    | some m =>
      return .inr {
        given := s.given ++ [bytes]
        messages := s.messages ++ [m]
        input
        choices
        cont := header.packageFlags &&& msgCont != 0 }
  | .disconnected input => return .inl ⟨s.given, s.messages, input, .disconnected⟩
  | .thrown input => return .inl ⟨s.given, s.messages, input, .thrown⟩
  | .waiting v size => return .inl ⟨s.given, s.messages, v.input, .waiting v size⟩

/-- `BulkDataInStreanMngr::handleProtoBuffRecv`.  The messages are those that `m_pConsum` is called
for.  Every package takes a call at least, so there are no more turns than calls. -/
def handleProtoBuffRecv (fresh : Mem) (input : List UInt8) (choices : List IoChoice) :
    Except Fault (Reception M) := do
  match ← whileLoop ReceptionVars.cont (packageTurn parseFromArray fresh) (choices.length + 1)
      ⟨[], [], input, choices, true⟩ with
  | .inl r => return r
  | .inr s => return ⟨s.given, s.messages, s.input, .done⟩

/-! ### Sending -/

/-- The variables of a send loop, and what is on the wire. -/
structure SendLoopVars where
  sentBufferSizeLeft : UInt32
  totalSent : UInt32
  output : List UInt8
  /-- the number of calls of `send` so far -/
  calls : ℕ

/-- `CommunicatingSocket::send`: it throws where the call fails, and does not say how many bytes
were taken. -/
def send (buffer : List UInt8) (output : List UInt8) : IoChoice → Option (List UInt8)
  | .fail => none
  | .upTo k => some (output ++ buffer.take k)

/-- The body of the loop; `.inl` is the `SocketException`, with what is on the wire then. -/
def sendTurn (sentBuffer : Mem) (choice : ℕ → IoChoice) (v : SendLoopVars) :
    Except Fault (List UInt8 ⊕ SendLoopVars) :=
  let sizeToSend := min v.sentBufferSizeLeft maximumPackageBufferSize
  match send (sentBuffer.read v.totalSent.toNat sizeToSend.toNat) v.output (choice v.calls) with
  | none => .ok (.inl v.output)
  | some output =>
    .ok (.inr {
      sentBufferSizeLeft := v.sentBufferSizeLeft - sizeToSend
      totalSent := v.totalSent + sizeToSend
      output
      calls := v.calls + 1 })

/-- A message, as `SerializeToArray` puts it into an array. -/
structure Serialized where
  bytes : List UInt8
  /-- `ByteSize()` is an `int` -/
  length_lt : bytes.length < 2147483648

/-- `sentBuffer`: the message, and in front of it the header in network order. -/
def packSentBuffer (fresh : Mem) (msg : Serialized) (flags : UInt32) : Mem :=
  let sentBuffer := fresh.write sizeofPackageHeader.toNat msg.bytes
  let sentBuffer := sentBuffer.write 0 (netBytes msg.bytes.length)
  sentBuffer.write 4 (netBytes flags.toNat)

/-- The loop around `send`: what is on the wire in the end, or when a call throws. -/
def sendLoop (sentBuffer : Mem) (totalSentBufferSize : UInt32) (choice : ℕ → IoChoice) :
    Except Fault (List UInt8 ⊕ SendLoopVars) :=
  whileLoop (fun v => decide (0 < v.sentBufferSizeLeft)) (sendTurn sentBuffer choice)
    (totalSentBufferSize.toNat + 1) ⟨totalSentBufferSize, 0, [], 0⟩

/-- `BulkDataOutStreamMngr::sendBulk`. -/
def sendBulk (fresh : Mem) (protobufRespond : Serialized) (flags : UInt32) (choice : ℕ → IoChoice) :
    Except Fault (List UInt8 ⊕ SendLoopVars) :=
  sendLoop (packSentBuffer fresh protobufRespond flags)
    (sizeofPackageHeader + UInt32.ofNat protobufRespond.bytes.length) choice

/-- `SocketClient::sendQuery`, up to the answer. -/
def sendQuery (fresh : Mem) (protobufRequest : Serialized) (choice : ℕ → IoChoice) :
    Except Fault (List UInt8 ⊕ SendLoopVars) :=
  sendLoop (packSentBuffer fresh protobufRequest protocolProtobuf)
    (sizeofPackageHeader + UInt32.ofNat protobufRequest.bytes.length) choice

end Lab1.Task1.Wire
