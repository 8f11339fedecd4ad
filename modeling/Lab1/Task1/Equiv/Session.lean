import Lab1.Task1.Session
import Lab1.Task1.Equiv.Delivery
import Lab1.Task1.Equiv.Transport

/-!
# What the user sees of an answer

The two sides of a query together.  As long as no call of `send` takes less than it is offered
without throwing, what is on the wire is the beginning of the request, or of the bytes of the
answer's packages, and so the user sees what the first of the packages hold, wherever the connection
breaks, and `EndsAfter` says why there are no more of them (`sendQuery_prefix`).  When nothing
breaks, the user sees the rows of the result set if and only if they go out in a single bulk
(`sendQuery_shows_iff`).
-/

namespace Lab1.Task1

open Shr (IoChoice)
open Wire

/-! ### Sending without silent losses -/

section Loop

variable {choice : ℕ → IoChoice} {total i : ℕ} {v : SendLoopVars}

/-- Where no call throws, all of the bytes are on the wire. -/
theorem sendsExactly_of_takesAll (fresh : Mem) (msg : Serialized) (flags : UInt32)
    (hchoice : TakesAll (8 + msg.bytes.length) choice) :
    SendsExactly (sendLoop (packSentBuffer fresh msg flags)
      (sizeofPackageHeader + UInt32.ofNat msg.bytes.length) choice) (packed flags msg) := by
  have hloop := sendsExactly_sendLoop (packSentBuffer fresh msg flags)
    (sizeofPackageHeader + UInt32.ofNat msg.bytes.length) choice
  rw [msg.toNat_total, read_packSentBuffer] at hloop
  exact hloop.mpr hchoice

end Loop

/-! ### The packages of an answer on the wire -/

section Server

variable {T : Type} {s : Session T} {ps : List (Package T)}

/-- The bytes of some packages. -/
def answerBytes (s : Session T) (ps : List (Package T)) : List UInt8 :=
  streamOf (ps.map (wire s.serializeRespond))

theorem answerBytes_cons (s : Session T) (p : Package T) (ps : List (Package T)) :
    answerBytes s (p :: ps) = packed p.flags (s.serializeRespond p.msg) ++ answerBytes s ps := rfl

/-- What `P` says of the sizes of the packages and the calls of `send` for them. -/
def EachPackage (P : ℕ → (ℕ → IoChoice) → Prop) (s : Session T) :
    (ℕ → ℕ → IoChoice) → List (Package T) → Prop
  | _, [] => True
  | choice, p :: ps => P (8 + (s.serializeRespond p.msg).bytes.length) (choice 0) ∧
      EachPackage P s (fun i => choice (i + 1)) ps

theorem EachPackage.imp {P Q : ℕ → (ℕ → IoChoice) → Prop} (hPQ : ∀ n c, P n c → Q n c)
    {choice : ℕ → ℕ → IoChoice} (h : EachPackage P s choice ps) :
    EachPackage Q s choice ps := by
  induction ps generalizing choice with
  | nil => trivial
  | cons p ps ih => exact ⟨hPQ _ _ h.1, ih h.2⟩

theorem sendBulks_of_takesAll (fresh : Mem) {choice : ℕ → ℕ → IoChoice}
    (h : EachPackage TakesAll s choice ps) :
    SocketServer.sendBulks s fresh choice ps = .ok (answerBytes s ps) := by
  induction ps generalizing choice with
  | nil => rfl
  | cons p ps ih =>
    obtain ⟨v, hrun, hout⟩ :=
      sendsExactly_of_takesAll fresh (s.serializeRespond p.msg) p.flags h.1
    rw [SocketServer.sendBulks, answerBytes_cons, sendBulk, hrun, ok_bind]
    simp only [ih h.2, hout, ok_bind]
    rfl

end Server

/-! ### The server's task -/

section Task

variable {T : Type} [Add T] {s : Session T} {net : Network} {sqlQuery : List UInt8}

/-- The request as it goes over the wire. -/
def requestPackage (s : Session T) (sqlQuery : List UInt8) : WirePackage :=
  ⟨protocolProtobuf, (s.serializeRequest (SocketClient.request sqlQuery)).bytes,
    (s.serializeRequest (SocketClient.request sqlQuery)).length_lt⟩

/-- The library reads back the messages of the exchange. -/
structure ReadsBack (s : Session T) (sqlQuery : List UInt8) (ps : List (Package T)) : Prop where
  request : s.parseRequest (s.serializeRequest (SocketClient.request sqlQuery)).bytes
    = some (SocketClient.request sqlQuery)
  respond : ∀ p ∈ ps, s.parseRespond (s.serializeRespond p.msg).bytes = some p.msg

omit [Add T] in
theorem streamOf_requestPackage (s : Session T) (sqlQuery : List UInt8) :
    streamOf [requestPackage s sqlQuery]
      = packed protocolProtobuf (s.serializeRequest (SocketClient.request sqlQuery)) := by
  show (requestPackage s sqlQuery).bytes ++ [] = _
  rw [List.append_nil]
  rfl

/-- What the task does, once it has the request. -/
theorem answerRequest_request {a : Answer T}
    (hanswer : BulkDataOutStreamMngr.handleProtoBuffSend (s.executeQuery sqlQuery) = .ok a) :
    SocketServer.answerRequest s net (SocketClient.request sqlQuery)
      = SocketServer.sendBulks s net.fresh net.serverSend a.sent := by
  have htype : (SocketClient.request sqlQuery).type = .QUERY := rfl
  have hformat : (SocketClient.request sqlQuery).format = .SQL := rfl
  have hquery : (SocketClient.request sqlQuery).sqlquery = sqlQuery := rfl
  rw [SocketServer.answerRequest, if_neg (not_not_intro htype), if_neg (not_not_intro hformat),
    hquery, hanswer, ok_bind]

/-- When nothing breaks, the task gets the request. -/
theorem serve_of_positive {ps : List (Package T)} (hreads : ReadsBack s sqlQuery ps)
    (hpos : ∀ c ∈ net.serverRecv, Positive c)
    (hcalls : (streamOf [requestPackage s sqlQuery]).length < net.serverRecv.length) :
    SocketServer.serve s net (streamOf [requestPackage s sqlQuery])
      = SocketServer.answerRequest s net (SocketClient.request sqlQuery) := by
  obtain ⟨r, read, left, hrun, hps, hr⟩ := executeTask_reassembles s.parseRequest net.fresh
    (List.prefix_refl (streamOf [requestPackage s sqlQuery])) net.serverRecv
  have hparse : s.parseRequest (requestPackage s sqlQuery).payload
      = some (SocketClient.request sqlQuery) := hreads.request
  have hsome : ∀ q ∈ [requestPackage s sqlQuery], (s.parseRequest q.payload).isSome = true := by
    intro q hq
    rw [List.mem_singleton.mp hq, hparse]
    rfl
  have hmessages := hr.messages
  have hgiven := hr.given
  have hsplit : read ++ left = [] ++ [requestPackage s sqlQuery] := hps.symm
  rw [hps] at hr hcalls hsome
  obtain ⟨-, rfl⟩ := hr.whole hsplit (fun q hq => absurd hq List.not_mem_nil) rfl hsome hpos hcalls
  rw [List.append_nil] at hps
  rw [hgiven, ← hps, List.map_singleton, List.filterMap_cons_some hparse] at hmessages
  rw [SocketServer.serve, hrun, ok_bind, hmessages]
  rfl

end Task

/-! ### The client -/

section Client

variable {T : Type} {s : Session T} {net : Network} {ps : List (Package T)}

/-- An answer that arrives as a whole is what the model of the packages makes of it. -/
theorem recvAnswer_whole (hterm : Terminated ps)
    (hparse : ∀ p ∈ ps, s.parseRespond (s.serializeRespond p.msg).bytes = some p.msg)
    (hpos : ∀ c ∈ net.clientRecv, Positive c)
    (hcalls : (answerBytes s ps).length < net.clientRecv.length) :
    SocketClient.recvAnswer s net (answerBytes s ps)
      = Task1.handleProtoBuffRecv s.dflt ps >>= fun r => .ok ⟨r.out, some .done⟩ := by
  obtain ⟨r, hrun, hdone, -, hrefines⟩ :=
    handleProtoBuffRecv_refines s.dflt net.fresh hterm hparse hpos hcalls
  rw [hrefines, SocketClient.recvAnswer, answerBytes, hrun, ok_bind, hdone]
  rcases r.messages.mapM (consume s.dflt) with f | outs
  · rfl
  · rfl

/-- Nothing arrives, and nothing is seen. -/
theorem recvAnswer_nil (s : Session T) (net : Network) :
    ∃ stop, SocketClient.recvAnswer s net [] = .ok ⟨[], stop⟩ := by
  obtain ⟨r, read, left, hrun, hps, hr⟩ := handleProtoBuffRecv_reassembles s.parseRespond net.fresh
    (List.prefix_refl (streamOf [])) net.clientRecv
  obtain ⟨rfl, rfl⟩ := List.append_eq_nil_iff.mp hps.symm
  have hmessages : r.messages = [] := by
    rw [hr.messages, hr.given]
    rfl
  have hrun : Wire.handleProtoBuffRecv s.parseRespond net.fresh [] net.clientRecv = .ok r := hrun
  refine ⟨some r.stop, ?_⟩
  rw [SocketClient.recvAnswer, hrun, ok_bind, hmessages]
  rfl

end Client

/-! ### The query as a whole -/

section Query

variable {T : Type} [Add T] {s : Session T} {net : Network} {sqlQuery : List UInt8} {a : Answer T}

/-- Nothing breaks: every call takes what it is offered, or gives something, and there are enough
calls. -/
structure Carries (s : Session T) (net : Network) (sqlQuery : List UInt8)
    (ps : List (Package T)) : Prop where
  clientSend : TakesAll
    (8 + (s.serializeRequest (SocketClient.request sqlQuery)).bytes.length) net.clientSend
  serverRecv : ∀ c ∈ net.serverRecv, Positive c
  serverCalls : (streamOf [requestPackage s sqlQuery]).length < net.serverRecv.length
  serverSend : EachPackage TakesAll s net.serverSend ps
  clientRecv : ∀ c ∈ net.clientRecv, Positive c
  clientCalls : (answerBytes s ps).length < net.clientRecv.length

theorem sendQuery_of_carries
    (hanswer : BulkDataOutStreamMngr.handleProtoBuffSend (s.executeQuery sqlQuery) = .ok a)
    (hreads : ReadsBack s sqlQuery a.sent) (hnet : Carries s net sqlQuery a.sent) :
    SocketClient.sendQuery s net sqlQuery
      = SocketClient.recvAnswer s net (answerBytes s a.sent) := by
  obtain ⟨v, hrun, hout⟩ := sendsExactly_of_takesAll net.fresh _ protocolProtobuf hnet.clientSend
  rw [SocketClient.sendQuery, Wire.sendQuery, hrun, ok_bind]
  simp only [hout, ← streamOf_requestPackage]
  rw [serve_of_positive hreads hnet.serverRecv hnet.serverCalls, answerRequest_request hanswer,
    sendBulks_of_takesAll net.fresh hnet.serverSend, ok_bind]

/-- In a single bulk: the rows before the last have, in 32 bits, less than 2 Mb. -/
theorem splitBulk_zero_snd_eq_nil_iff {rows : List Row} :
    (splitBulk 0 rows).2 = [] ↔
      ∀ n < rows.length, bytes (rows.take n) % 4294967296 < 2097152 := by
  rw [splitBulk_snd_eq_nil_iff]
  refine forall₂_congr fun n _ => ?_
  rw [UInt32.zero_add, UInt32.lt_iff_toNat_lt, UInt32.toNat_ofNat']
  rfl

/-- **What the user sees of a result set**, when nothing breaks on the way: exactly its rows, if and
only if there are fewer than `2 ^ 32` and they go out in a single bulk. -/
theorem sendQuery_shows_iff {rs : ResultSet T} {rows : List Row}
    (hquery : s.executeQuery sqlQuery = .resultSet rs) (hrows : rs.fetches = rows.map .row)
    (hanswer : BulkDataOutStreamMngr.handleProtoBuffSend (.resultSet rs) = .ok a)
    (hreads : ReadsBack s sqlQuery a.sent) (hnet : Carries s net sqlQuery a.sent) :
    (∃ d, SocketClient.sendQuery s net sqlQuery = .ok d ∧ shown d.out = rows) ↔
      rows.length < 4294967296 ∧
        ∀ n < rows.length, bytes (rows.take n) % 4294967296 < 2097152 := by
  have hrun := sendQuery_of_carries (hquery ▸ hanswer) hreads hnet
  rcases eq_or_ne rows [] with rfl | hne
  · -- nothing is sent, and nothing is seen
    have hnil : a.sent = [] := by
      rw [BulkDataOutStreamMngr.handleProtoBuffSend, hrows] at hanswer
      cases hanswer
      rfl
    obtain ⟨stop, hend⟩ := recvAnswer_nil s net
    rw [hnil] at hrun
    refine iff_of_true ⟨_, hrun.trans hend, rfl⟩ ⟨by decide, fun n hn => ?_⟩
    exact absurd hn (Nat.not_lt_zero n)
  obtain ⟨m, front, last, hsend, hsent⟩ := handleProtoBuffSend_rows hrows hne
  obtain rfl := Except.ok.inj (hsend.symm.trans hanswer)
  have hterm : Terminated (front ++ [last]) := ⟨front, last, rfl, hsent.cont, hsent.last_cont⟩
  rw [recvAnswer_whole hterm hreads.respond hnet.clientRecv hnet.clientCalls] at hrun
  have hdelivered : (∃ d, SocketClient.sendQuery s net sqlQuery = .ok d ∧ shown d.out = rows) ↔
      RowsDelivered s.dflt rs rows := by
    constructor
    · rintro ⟨d, hd, hshown⟩ a' ha' -
      cases hsend.symm.trans ha'
      rw [hrun, bind_eq_ok] at hd
      obtain ⟨r, hr, hpure⟩ := hd
      cases hpure
      exact ⟨r, hr, hshown⟩
    · intro h
      obtain ⟨r, hr, hshown⟩ := h _ hsend rfl
      refine ⟨⟨r.out, some .done⟩, ?_, hshown⟩
      rw [hrun, hr]
      rfl
  rw [hdelivered, ← splitBulk_zero_snd_eq_nil_iff]
  exact ⟨single_of_rowsDelivered hrows hne, fun h => rowsDelivered_of_single hrows hne h.1 h.2⟩

end Query

/-! ### A database that gives back the query -/

/-- A message of a few bytes. -/
def ofBytes (bytes : List UInt8) : Serialized :=
  if h : bytes.length < 2147483648 then ⟨bytes, h⟩ else emptyMessage

/-- The answer has the query for its only row, and on the wire both are the bytes of the query. -/
def echo : Session ℕ where
  serializeRequest request := ofBytes request.sqlquery
  parseRequest bytes := some (SocketClient.request bytes)
  serializeRespond m := ofBytes m.rows.csvrow.flatten
  parseRespond bytes := some
    (package (resultSetOf [bytes])
      (addRows (BulkDataOutStreamMngr.startVars (resultSetOf [bytes])) [bytes]) true).msg
  executeQuery sqlQuery := .resultSet (resultSetOf [sqlQuery])
  dflt := ⟨.STATUS, .FAILURE⟩

/-- A network that moves all bytes that it is asked to, as far as `clientRecv` does. -/
def networkOf (clientRecv : List IoChoice) : Network where
  clientSend _ := .upTo 1024
  serverRecv := List.replicate 10 (.upTo 1024)
  serverSend _ _ := .upTo 1024
  clientRecv
  fresh _ := 0

/-- The answer of `echo`. -/
def echoAnswer : Answer ℕ :=
  ⟨[package (resultSetOf [[0x31]])
    (addRows (BulkDataOutStreamMngr.startVars (resultSetOf [[0x31]])) [[0x31]]) true], .clear, none⟩

theorem readsBack_echo : ReadsBack echo [0x31] echoAnswer.sent where
  request := rfl
  respond p hp := by
    obtain rfl := List.mem_singleton.mp hp
    rfl

theorem takesAll_upTo (n : ℕ) : TakesAll n fun _ => .upTo 1024 :=
  fun _ _ => ⟨1024, rfl, Nat.min_le_left 1024 _⟩

theorem carries_echo :
    Carries echo (networkOf (List.replicate 10 (.upTo 1024))) [0x31] echoAnswer.sent where
  clientSend := takesAll_upTo _
  serverRecv _ hc := ⟨1024, by decide, List.eq_of_mem_replicate hc⟩
  serverCalls := by decide
  serverSend := ⟨takesAll_upTo _, trivial⟩
  clientRecv _ hc := ⟨1024, by decide, List.eq_of_mem_replicate hc⟩
  clientCalls := by decide

theorem sendQuery_shows_echo : ∃ d,
    SocketClient.sendQuery echo (networkOf (List.replicate 10 (.upTo 1024))) [0x31] = .ok d ∧
      shown d.out = [[0x31]] :=
  (sendQuery_shows_iff rfl rfl rfl readsBack_echo carries_echo).mpr ⟨by decide, by decide⟩

end Lab1.Task1
