import Lab1.Task1.SocketServer
import Lab1.Task1.Equiv.Receiving

/-!
# The release of a connection

The statement `delete xi_socket` stands behind the `try` block and its handlers.  It is executed
once where the block is left by an exception or at its end, and never where the block returns
(`executeTask_of_returned`).

`releasedOnce_iff` says for which inputs the block returns.  Its condition goes by the calls of
`recv` (`Gives`): the connection is cut off, or a whole package arrives that is not a query in SQL.
-/

namespace Lab1.Task1.SocketServer

open Shr (IoChoice)
open Wire

/-! ### The property -/

/-- The task does not end before it has deleted the socket, and deletes it once. -/
def ReleasedOnce (calls : Calls) (fresh : Mem) (input : List UInt8) (choices : List IoChoice) :
    Prop :=
  ∃ t, executeTask calls fresh input choices = .ok t ∧ (t.ended = true → t.deletes = 1)

/-- The header that the first eight bytes are. -/
def headerOf (input : List UInt8) : PackageHeader := convNtohl (Mem.ofList input)

/-- The two loops. -/
def GivesHeader (input : List UInt8) : List IoChoice → ℕ → Prop :=
  Gives (fun leftToRecv => leftToRecv) input 8

def GivesData (input : List UInt8) : List IoChoice → ℕ → Prop :=
  Gives (fun leftToRecv => min leftToRecv maximumPackageBufferSize) (input.drop 8)
    (headerOf input).packageSize.toNat

/-- The bytes that the parser is given. -/
def payloadOf (input : List UInt8) : List UInt8 :=
  (input.drop 8).take (headerOf input).packageSize.toNat

/-- What the server does not take: bytes that the parser refuses, another type of request, another
format of a query. -/
def Unwanted (calls : Calls) (bytes : List UInt8) : Prop :=
  calls.parseFromArray bytes = .ok none ∨
    ∃ request, calls.parseFromArray bytes = .ok (some request) ∧
      (request.type ≠ .QUERY ∨ request.format ≠ .SQL)

/-- The request is turned down: a call of `recv` gives nothing before the header, or the data, is
there, or the server does not take what has come in. -/
inductive TurnedDown (calls : Calls) (input : List UInt8) (choices : List IoChoice) : Prop
  | header {cs rest : List IoChoice} {k q : ℕ} (hchoices : choices = cs ++ .upTo k :: rest)
      (hgives : GivesHeader input cs q) (hlt : q < 8) (hnone : k = 0 ∨ q = input.length)
  | data {cs cs' rest : List IoChoice} {k q : ℕ}
    (hchoices : choices = cs ++ (cs' ++ .upTo k :: rest))
      (hheader : GivesHeader input cs 8)
      (halloc : calls.allocate (headerOf input).packageSize = none)
      (hgives : GivesData input cs' q) (hlt : q < (headerOf input).packageSize.toNat)
      (hnone : k = 0 ∨ q = (input.drop 8).length)
  | request {cs cs' rest : List IoChoice} (hchoices : choices = cs ++ (cs' ++ rest))
      (hheader : GivesHeader input cs 8)
      (halloc : calls.allocate (headerOf input).packageSize = none)
      (hgives : GivesData input cs' (headerOf input).packageSize.toNat)
      (hunwanted : Unwanted calls (payloadOf input))

/-! ### The `try` block -/

section TryBlock

variable {calls : Calls} {fresh : Mem} {input : List UInt8} {choices cs rest : List IoChoice}

theorem GivesHeader.resumes {q : ℕ} (fresh : Mem) (h : GivesHeader input cs q) :
    ∃ v, AtByte fresh input 8 q v ∧ q ≤ 8 ∧
      Resumes (fun leftToRecv => leftToRecv) fresh input sizeofPackageHeader cs v :=
  @Gives.resumes _ input sizeofPackageHeader cs q asked_header fresh h

theorem GivesData.resumes {q : ℕ} (fresh : Mem) (h : GivesData input cs q) :
    ∃ v, AtByte fresh (input.drop 8) (headerOf input).packageSize.toNat q v ∧
      q ≤ (headerOf input).packageSize.toNat ∧
      Resumes (fun leftToRecv => min leftToRecv maximumPackageBufferSize) fresh (input.drop 8)
        (headerOf input).packageSize cs v :=
  Gives.resumes asked_data fresh h

/-- A header that was received. -/
theorem convNtohl_eq_headerOf {v : RecvVars} (hat : AtByte fresh input 8 8 v) :
    convNtohl v.buffer = headerOf input := by
  have hread : v.buffer.read 0 8 = (Mem.ofList input).read 0 8 := by
    rw [hat.read, Mem.read_ofList hat.le]
  rw [Mem.read_eq_iff] at hread
  have hfield : ∀ a, a + 4 ≤ 8 → v.buffer.netWord a = (Mem.ofList input).netWord a := by
    intro a ha
    refine Mem.netWord_congr (Mem.read_eq_iff.mpr fun i hi => ?_)
    have hbyte := hread (a + i) (by omega)
    rwa [Nat.zero_add] at hbyte
  rw [convNtohl, headerOf, convNtohl, hfield 0 (by omega), hfield 4 (by omega)]

/-- The block behind a header that was received. -/
theorem tryBlock_of_header (calls : Calls) (fresh : Mem) (h : GivesHeader input cs 8)
    (rest : List IoChoice) :
    tryBlock calls fresh input (cs ++ rest) =
      match calls.allocate (headerOf input).packageSize with
      | some e => .ok (.raised e)
      | none =>
        afterLoop calls (recvData (headerOf input) fresh (input.drop 8) rest) fun v _ =>
          .ok (handleRequest calls (v.buffer.read 0 v.totalRecvied.toNat)) := by
  obtain ⟨v, hat, -, hresumes⟩ := GivesHeader.resumes fresh h
  have hrun := hresumes.complete hat rest
  rw [tryBlock, recvHeader, hrun, ← convNtohl_eq_headerOf hat, ← hat.input]
  rfl

/-- The block behind a package that was received. -/
theorem tryBlock_of_data (calls : Calls) (fresh : Mem) {cs' : List IoChoice}
    (h : GivesHeader input cs 8) (halloc : calls.allocate (headerOf input).packageSize = none)
    (hdata : GivesData input cs' (headerOf input).packageSize.toNat) (rest : List IoChoice) :
    tryBlock calls fresh input (cs ++ (cs' ++ rest))
      = .ok (handleRequest calls (payloadOf input)) := by
  obtain ⟨v, hat, -, hresumes⟩ := GivesData.resumes fresh hdata
  have hrun := hresumes.complete hat rest
  have hpayload : v.buffer.read 0 v.totalRecvied.toNat = payloadOf input := by
    rw [hat.totalRecvied, hat.read]
    rfl
  rw [tryBlock_of_header calls fresh h, halloc, recvData, hrun, ← hpayload]
  rfl

theorem handleRequest_eq_returned_iff {bytes : List UInt8} :
    (∃ line, handleRequest calls bytes = .returned line) ↔ Unwanted calls bytes := by
  unfold handleRequest Unwanted
  rcases calls.parseFromArray bytes with e | _ | request
  · simp
  · simp
  · by_cases htype : request.type = .QUERY
    · by_cases hformat : request.format = .SQL
      · rcases hstream : calls.handleStream request.sqlquery with _ | e
        · simp [htype, hformat, hstream]
        · simp [htype, hformat, hstream]
      · simp [htype, hformat]
    · simp [htype]

/-- A request that is turned down makes the block return. -/
theorem TurnedDown.returned (fresh : Mem) (h : TurnedDown calls input choices) :
    ∃ line, tryBlock calls fresh input choices = .ok (.returned line) := by
  cases h with
  | header hchoices hgives hlt hnone =>
    obtain ⟨v, hat, -, hresumes⟩ := GivesHeader.resumes fresh hgives
    rw [hchoices, tryBlock, recvHeader, hresumes.disconnected asked_header hat hlt hnone]
    exact ⟨_, rfl⟩
  | data hchoices hheader halloc hgives hlt hnone =>
    obtain ⟨v, hat, -, hresumes⟩ := GivesData.resumes fresh hgives
    rw [hchoices, tryBlock_of_header calls fresh hheader, halloc, recvData,
      hresumes.disconnected asked_data hat hlt hnone]
    exact ⟨_, rfl⟩
  | request hchoices hheader halloc hgives hunwanted =>
    obtain ⟨line, hline⟩ := handleRequest_eq_returned_iff.mpr hunwanted
    rw [hchoices, tryBlock_of_data calls fresh hheader halloc hgives, hline]
    exact ⟨line, rfl⟩

/-- The block does not fault, and it returns only where the request is turned down. -/
def Settled (calls : Calls) (fresh : Mem) (input : List UInt8) (choices : List IoChoice) : Prop :=
  ∃ e, tryBlock calls fresh input choices = .ok e ∧
    ∀ line, e = .returned line → TurnedDown calls input choices

theorem TurnedDown.settled (fresh : Mem) (h : TurnedDown calls input choices) :
    Settled calls fresh input choices := by
  obtain ⟨line, hline⟩ := h.returned fresh
  exact ⟨_, hline, fun _ _ => h⟩

theorem settled_of_raised {e : Raised} (h : tryBlock calls fresh input choices = .ok (.raised e)) :
    Settled calls fresh input choices := by
  refine ⟨_, h, ?_⟩
  rintro _ ⟨⟩

theorem settled_of_waiting (h : tryBlock calls fresh input choices = .ok .waiting) :
    Settled calls fresh input choices := by
  refine ⟨_, h, ?_⟩
  rintro _ ⟨⟩

/-- Behind a header that was received. -/
theorem settled_of_header (calls : Calls) (fresh : Mem) (hheader : GivesHeader input cs 8)
    (rest : List IoChoice) : Settled calls fresh input (cs ++ rest) := by
  have hblock := tryBlock_of_header calls fresh hheader
  rcases halloc : calls.allocate (headerOf input).packageSize with _ | e
  · cases loopCase asked_data (input.drop 8) (headerOf input).packageSize rest with
    | complete hrest hgives =>
      rw [hrest]
      refine ⟨_, tryBlock_of_data calls fresh hheader halloc hgives _, fun line hline => ?_⟩
      exact .request rfl hheader halloc hgives (handleRequest_eq_returned_iff.mp ⟨line, hline⟩)
    | disconnected hrest hgives hlt hnone =>
      rw [hrest]
      exact TurnedDown.settled fresh (.data rfl hheader halloc hgives hlt hnone)
    | thrown hrest hgives hlt =>
      obtain ⟨v, hat, -, hresumes⟩ := GivesData.resumes fresh hgives
      apply settled_of_raised
      rw [hblock, halloc, recvData, hrest, hresumes.thrown hat hlt]
      rfl
    | waiting hgives hlt =>
      obtain ⟨v, hat, -, hresumes⟩ := GivesData.resumes fresh hgives
      apply settled_of_waiting
      rw [hblock, halloc, recvData, hresumes.waiting hat hlt]
      rfl
  · apply settled_of_raised
    rw [hblock, halloc]

theorem settled (calls : Calls) (fresh : Mem) (input : List UInt8) (choices : List IoChoice) :
    Settled calls fresh input choices := by
  cases loopCase asked_header input sizeofPackageHeader choices with
  | complete hchoices hgives =>
    rw [hchoices]
    exact settled_of_header calls fresh hgives _
  | disconnected hchoices hgives hlt hnone =>
    exact TurnedDown.settled fresh (.header hchoices hgives hlt hnone)
  | thrown hchoices hgives hlt =>
    obtain ⟨v, hat, -, hresumes⟩ := GivesHeader.resumes fresh hgives
    apply settled_of_raised
    rw [hchoices, tryBlock, recvHeader, hresumes.thrown hat hlt]
    rfl
  | waiting hgives hlt =>
    obtain ⟨v, hat, -, hresumes⟩ := GivesHeader.resumes fresh hgives
    apply settled_of_waiting
    rw [tryBlock, recvHeader, hresumes.waiting hat hlt]
    rfl

end TryBlock

/-! ### The release -/

theorem executeTask_of_returned {calls : Calls} {fresh : Mem} {input : List UInt8}
    {choices : List IoChoice} {line : String}
    (h : tryBlock calls fresh input choices = .ok (.returned line)) :
    executeTask calls fresh input choices = .ok ⟨true, 0, some line⟩ := by
  rw [executeTask, h]
  rfl

/-- **Which connections are released.** -/
theorem releasedOnce_iff {calls : Calls} {fresh : Mem} {input : List UInt8}
    {choices : List IoChoice} :
    ReleasedOnce calls fresh input choices ↔ ¬TurnedDown calls input choices := by
  constructor
  · rintro ⟨t, ht, hreleased⟩ hturned
    obtain ⟨line, hline⟩ := hturned.returned fresh
    obtain rfl := Except.ok.inj (ht.symm.trans (executeTask_of_returned hline))
    exact Nat.zero_ne_one (hreleased rfl)
  · intro hkept
    obtain ⟨e, he, hreturned⟩ := settled calls fresh input choices
    unfold ReleasedOnce executeTask
    rw [he]
    cases e with
    | waiting =>
      refine ⟨_, rfl, ?_⟩
      rintro ⟨⟩
    | returned line => exact absurd (hreturned line rfl) hkept
    | raised e => exact ⟨_, rfl, fun _ => rfl⟩
    | fellThrough => exact ⟨_, rfl, fun _ => rfl⟩

/-- Calls that take any bytes for a query in SQL. -/
def sampleCalls : Calls where
  allocate _ := none
  parseFromArray bytes := .ok (some ⟨.QUERY, .SQL, bytes⟩)
  handleStream _ := none
  strerror := ""

/-- A client that closes the connection at once: `recv` returns `0`, and the socket stays open. -/
theorem not_releasedOnce_closed :
    executeTask sampleCalls (fun _ => 0) [] [.upTo 8]
        = .ok ⟨true, 0, some "Error - recv failed or connection disconnected"⟩ ∧
      ¬ReleasedOnce sampleCalls (fun _ => 0) [] [.upTo 8] := by
  refine ⟨rfl, fun h => ?_⟩
  obtain ⟨t, ht, hreleased⟩ := h
  obtain rfl := Except.ok.inj ht
  exact Nat.zero_ne_one (hreleased rfl)

end Lab1.Task1.SocketServer
