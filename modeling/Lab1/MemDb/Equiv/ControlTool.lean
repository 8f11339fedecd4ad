import Lab1.MemDb.ControlTool
import Lab1.MemDb.Equiv.ShmControl

/-!
# A session with the control tool

The tool is for a store that the allocator has made.  There it takes the size of segment 1 for the
number of segments, and so two of its options never get through: what is displayed and what is
deleted as a whole goes on until a system call fails, and then the tool ends.  The others are served
as long as the segments are there, which is a matter of what was deleted before
(`runsToEnd_iff`).
-/

namespace Lab1.MemDb

open Tool

/-! ### The property -/

/-- What the user may ask for. -/
inductive ToolRequest where
  | display
  | deleteAll
  | delete (key : UInt32)
  | count
  /-- an option that the tool does not have -/
  | other (c : UInt16) (hbad : 4 < c.toNat)

namespace ToolRequest

def typed : ToolRequest → List Token
  | display => [.number 1]
  | deleteAll => [.number 2]
  | delete key => [.number 3, .number key.toNat]
  | count => [.number 4]
  | other c _ => [.number c.toNat]

/-- The segments are there. -/
def Servable (segs : ℕ → Option Mem) : ToolRequest → Prop
  | display => False
  | deleteAll => False
  | delete key => key.toNat ≠ 0 ∧ (segs key.toNat).isSome
  | count => (segs 1).isSome
  | other _ _ => True

/-- The first request leaves what the second one needs. -/
def Compatible : ToolRequest → ToolRequest → Prop
  | delete key, delete key' => key.toNat ≠ key'.toNat
  | delete key, count => key.toNat ≠ 1
  | _, _ => True

def key? : ToolRequest → Option ℕ
  | delete key => some key.toNat
  | _ => none

end ToolRequest

/-- The requests, and in the end the option to leave. -/
def typedSession (requests : List ToolRequest) : List Token :=
  requests.flatMap ToolRequest.typed ++ [.number 0]

/-- The tool reads all that is typed and comes to its end, with the segments `segs`. -/
def RunsToEnd (w : Segments) (mem : ℕ) (requests : List ToolRequest)
    (segs : ℕ → Option Mem) : Prop :=
  ∃ fuel t, runUserLoop mem fuel (start w (typedSession requests)) = .ok (.inl t) ∧
    t.input = [] ∧ t.world.segs = segs

/-- The requests that are served if they come one after the other: every segment that is asked for
is there, and is not deleted before. -/
def AllServable (segs : ℕ → Option Mem) (requests : List ToolRequest) : Prop :=
  (∀ r ∈ requests, r.Servable segs) ∧ requests.Pairwise ToolRequest.Compatible

/-- The segments without those that the requests delete. -/
def without (segs : ℕ → Option Mem) (requests : List ToolRequest) : ℕ → Option Mem :=
  fun key => if key ∈ requests.filterMap ToolRequest.key? then none else segs key

/-! ### The system calls -/

section Calls

variable {w : Segments} {key : ℕ} {bytes : Mem}

theorem Segments.bytesAt_attached :
    Segments.bytesAt { w with attached := w.attached ++ [some bytes] } w.nextAddr = some bytes := by
  have hplace : Segments.placeOf (w.nextAddr : ℤ) = w.attached.length := by
    rw [Segments.placeOf, Int.toNat_natCast, Segments.nextAddr,
      Nat.mul_div_cancel_left _ (by decide)]
    rfl
  rw [Segments.bytesAt, hplace]
  simp

theorem Segments.shmget_of_there (hkey : key ≠ 0) (hseg : w.segs key = some bytes) :
    w.shmget key = (w, (key : ℤ)) := if_pos ⟨hkey, by rw [hseg]; rfl⟩

theorem Segments.shmget_of_not (h : ¬(key ≠ 0 ∧ (w.segs key).isSome)) :
    w.shmget key = (w, -1) := if_neg h

theorem Segments.shmat_of_there (hseg : w.segs key = some bytes) :
    w.shmat key = ({ w with attached := w.attached ++ [some bytes] }, (w.nextAddr : ℤ)) := by
  unfold Segments.shmat
  rw [Int.toNat_natCast, hseg]

/-- The segment is attached, loses its key, and is detached. -/
theorem handleDeleteBySeg_of_there (hkey : key ≠ 0) (hseg : w.segs key = some bytes) :
    ∃ attached, handleDeleteBySeg Segments.calls w key
      = (⟨Function.update w.segs key none, attached⟩, 0) := by
  have hget : Segments.calls.shmget w key = (w, (key : ℤ)) := Segments.shmget_of_there hkey hseg
  have hat : Segments.calls.shmat w key
      = ({ w with attached := w.attached ++ [some bytes] }, (w.nextAddr : ℤ)) :=
    Segments.shmat_of_there hseg
  have hctl : Segments.calls.shmctl { w with attached := w.attached ++ [some bytes] } key
      = (⟨Function.update w.segs key none, w.attached ++ [some bytes]⟩, 0) := by
    show Segments.shmctl _ _ = _
    rw [Segments.shmctl, Int.toNat_natCast, hseg]
  have hdt : ∃ attached, Segments.calls.shmdt
      ⟨Function.update w.segs key none, w.attached ++ [some bytes]⟩ w.nextAddr
        = (⟨Function.update w.segs key none, attached⟩, 0) := by
    refine ⟨(w.attached ++ [some bytes]).set (Segments.placeOf w.nextAddr) none, ?_⟩
    show Segments.shmdt _ _ = _
    have hbytes : Segments.bytesAt ⟨Function.update w.segs key none, w.attached ++ [some bytes]⟩
        w.nextAddr = some bytes := Segments.bytesAt_attached
    rw [Segments.shmdt, hbytes]
  obtain ⟨attached, hdt⟩ := hdt
  refine ⟨attached, ?_⟩
  have hid : ¬(key : ℤ) < 0 := by omega
  have haddr : ¬(w.nextAddr : ℤ) < 0 := by omega
  simp [handleDeleteBySeg, hget, hat, hctl, hdt, hid, haddr]

theorem handleDeleteBySeg_of_not (h : ¬(key ≠ 0 ∧ (w.segs key).isSome)) :
    handleDeleteBySeg Segments.calls w key = (w, -1) := by
  have hget : Segments.calls.shmget w key = (w, -1) := Segments.shmget_of_not h
  simp [handleDeleteBySeg, hget]

end Calls

/-! ### The options -/

section Options

variable {t t' : Tool} {bytes : Mem} {ret : ℤ} {fuel : ℕ}

/-- The number is read again; the segment stays attached. -/
theorem getNumOfSeg_of_there (hseg : t.world.segs 1 = some bytes) :
    ∃ attached, t.getNumOfSeg = .ok ({ t with
      world := ⟨t.world.segs, attached⟩, numOfSeg := MemDb.getNumOfSeg bytes }, 0) := by
  have hget : t.world.shmget 1 = (t.world, ((1 : ℕ) : ℤ)) :=
    Segments.shmget_of_there Nat.one_ne_zero hseg
  have hat : t.world.shmat 1
      = ({ t.world with attached := t.world.attached ++ [some bytes] }, (t.world.nextAddr : ℤ)) :=
    Segments.shmat_of_there hseg
  have hbytes : Segments.bytesAt { t.world with attached := t.world.attached ++ [some bytes] }
      t.world.nextAddr = some bytes := Segments.bytesAt_attached
  refine ⟨t.world.attached ++ [some bytes], ?_⟩
  have haddr : ¬(t.world.nextAddr : ℤ) < 0 := by omega
  rw [Tool.getNumOfSeg, hget]
  simp [hat, hbytes, haddr]

theorem getNumOfSeg_of_not (hseg : ¬(t.world.segs 1).isSome) : t.getNumOfSeg = .ok (t, -1) := by
  have hget : t.world.shmget 1 = (t.world, -1) :=
    Segments.shmget_of_not fun h => hseg h.2
  rw [Tool.getNumOfSeg, hget]
  rfl

/-- Before the start of a segment there is no header. -/
theorem getSz_of_start {id : ℤ} {addr : ℕ} {head : ChunkHeader} (haddr : 0 < addr) :
    (⟨⟨id, addr, head⟩, bytes, true, false⟩ : Arena).getSz addr = .error .outOfBounds := by
  rw [Arena.getSz, Arena.headerField, require_true haddr, ok_bind, require_false]
  · rfl
  · rintro ⟨-, hle, -⟩
    exact absurd hle (Nat.not_le.mpr (Nat.lt_add_of_pos_right (by decide)))

/-- Where there is a segment to display, its header is looked for before its start. -/
theorem displayTurn_eq_ok {v : DisplayVars} {r : (Segments × ℤ) ⊕ DisplayVars}
    (h : displayTurn v = .ok r) : ∃ w, r = .inl (w, -1) := by
  rcases hseg : v.world.segs v.i.toNat with _ | bytes
  · have hget : v.world.shmget v.i.toNat = (v.world, -1) :=
      Segments.shmget_of_not fun h => by simp [hseg] at h
    rw [displayTurn, hget] at h
    exact ⟨_, (Except.ok.inj h).symm⟩
  · by_cases hkey : v.i.toNat = 0
    · -- the counter has wrapped around to `IPC_PRIVATE`
      have hget : v.world.shmget v.i.toNat = (v.world, -1) :=
        Segments.shmget_of_not fun h => h.1 hkey
      rw [displayTurn, hget] at h
      exact ⟨_, (Except.ok.inj h).symm⟩
    · have hget := Segments.shmget_of_there hkey hseg
      have hat := Segments.shmat_of_there hseg
      have hbytes : Segments.bytesAt { v.world with attached := v.world.attached ++ [some bytes] }
          v.world.nextAddr = some bytes := Segments.bytesAt_attached
      have hid : ¬(v.i.toNat : ℤ) < 0 := by omega
      have haddr : ¬(v.world.nextAddr : ℤ) < 0 := by omega
      have hpos : 0 < v.world.nextAddr := Nat.mul_pos (by decide) (Nat.succ_pos _)
      simp [displayTurn, hget, hat, hbytes, hid, haddr, getSz_of_start hpos] at h

/-- The loop looks for segment 2 first. -/
theorem handleDisply_eq_ok (hnum : 2 < u32 (2 + t.numOfSeg))
    (h : t.handleDisply fuel = .ok (t', ret)) : ret = -1 ∧ t'.input = t.input := by
  obtain ⟨r, hloop, hr⟩ := bind_eq_ok.mp h
  obtain ⟨fuel, rfl⟩ : ∃ n, fuel = n + 1 := by
    rcases fuel with _ | fuel
    · cases hloop
    · exact ⟨fuel, rfl⟩
  have hcond : displayCond t.numOfSeg ⟨t.world, 2⟩ = true := decide_eq_true hnum
  rcases whileLoop_eq_ok.mp hloop with ⟨hnot, _⟩ | ⟨_, x, hx, rfl⟩ | ⟨_, v, hv, _⟩
  · rw [hcond] at hnot
    cases hnot
  · obtain ⟨w, hw⟩ := displayTurn_eq_ok hx
    cases hw
    cases hr
    exact ⟨rfl, rfl⟩
  · obtain ⟨w, hw⟩ := displayTurn_eq_ok hv
    cases hw

theorem handleDeleteBySeg_ret {ω : Type*} {sys : ShmCalls ω} (w : ω) (key : ℕ) :
    (handleDeleteBySeg sys w key).2 = 0 ∨ (handleDeleteBySeg sys w key).2 = -1 := by
  unfold handleDeleteBySeg
  dsimp only
  split_ifs <;> simp

/-- Where the counter never exceeds the bound, the loop ends at a segment that is not there. -/
theorem handleDelete_eq_ok {ω : Type*} {sys : ShmCalls ω} {w : ω} {numOfSeg : ℕ}
    {v : DeleteVars ω} (hnum : 65535 ≤ u32 (1 + numOfSeg))
    (h : handleDelete sys numOfSeg w fuel = .ok (ret, v)) : ret = -1 := by
  obtain ⟨r, hloop, hr⟩ := bind_eq_ok.mp h
  rcases r with ⟨ret', v'⟩ | v'
  · cases hr
    refine whileLoop_inl (P := fun x : ℤ × DeleteVars ω => x.1 = -1) (fun v x hx => ?_) hloop
    unfold deleteTurn at hx
    dsimp only at hx
    split_ifs at hx with hret
    · cases hx
      exact (handleDeleteBySeg_ret _ _).resolve_left hret
    · cases hx
  · -- the counter is an `unsigned short`, and does not get past the bound
    have hlast := (whileLoop_invariant (fun _ => True) (fun _ _ _ _ _ => trivial) trivial hloop).2
    have hi : v'.i.toNat < 65536 := v'.i.toNat_lt
    rw [deleteCond, decide_eq_false_iff_not] at hlast
    omega

end Options

/-! ### A turn of the loop -/

/-- What a request that is served leaves of the segments. -/
def ToolRequest.after (segs : ℕ → Option Mem) : ToolRequest → ℕ → Option Mem
  | delete key => Function.update segs key.toNat none
  | _ => segs

/-- The tool in its loop, where segment 1 is the one of the allocator. -/
structure InLoop (t : Tool) : Prop where
  numOfSeg : t.numOfSeg = mega
  first : ∀ bytes, t.world.segs 1 = some bytes → MemDb.getNumOfSeg bytes = mega

section Turn

variable {t t' : Tool} {mem fuel : ℕ} {rest : List Token} {r : ToolRequest}

theorem turn_number {n : ℤ} {c : ℕ} (hin : t.input = .number n :: rest)
    (hc : (n % 2 ^ 16).toNat = c) :
    turn mem fuel t = Tool.afterScanf { t with input := rest, opt := c } mem fuel := by
  rw [turn, hin, ← hc]
  rfl

theorem afterScanf_eq_ok (hopt : t.opt ≠ 0) {x : Tool ⊕ Tool} :
    t.afterScanf mem fuel = .ok x ↔ ∃ t' ret, t.handleOpt mem fuel = .ok (t', ret) ∧
      x = if ret = -1 then .inl t' else .inr t' := by
  rw [Tool.afterScanf, if_neg hopt, bind_eq_ok]
  constructor
  · rintro ⟨⟨t', ret⟩, hrun, hx⟩
    refine ⟨t', ret, hrun, ?_⟩
    dsimp only at hx
    split_ifs at hx ⊢ with hret
    · exact (Except.ok.inj hx).symm
    · exact (Except.ok.inj hx).symm
  · rintro ⟨t', ret, hrun, rfl⟩
    refine ⟨(t', ret), hrun, ?_⟩
    dsimp only
    split_ifs with hret
    · rfl
    · rfl

/-- The number that is typed for a segment is read as it is. -/
theorem scanf_key (key : UInt32) :
    scanf 32 (.number key.toNat :: rest) = .number key.toNat rest := by
  have hlt : key.toNat < 4294967296 := key.toNat_lt
  show Scanned.number ((key.toNat : ℤ) % 4294967296).toNat rest = _
  congr 1
  omega

theorem opt_other (c : UInt16) : ((c.toNat : ℤ) % 2 ^ 16).toNat = c.toNat := by
  have hlt : c.toNat < 65536 := c.toNat_lt
  show ((c.toNat : ℤ) % 65536).toNat = c.toNat
  omega

/-- The second number of a request to delete is read within the option. -/
theorem turn_delete {key : UInt32} {w : Segments} {ret : ℤ}
    (hin : t.input = (ToolRequest.delete key).typed ++ rest)
    (hdel : handleDeleteBySeg Segments.calls t.world key.toNat = (w, ret)) :
    turn mem fuel t = .ok (if ret = -1 then .inl ⟨w, rest, t.numOfSeg, 3⟩
      else .inr ⟨w, rest, t.numOfSeg, 3⟩) := by
  rw [turn_number (c := 3) hin rfl]
  refine (afterScanf_eq_ok (Nat.succ_ne_zero 2)).mpr ⟨⟨w, rest, t.numOfSeg, 3⟩, ret, ?_, rfl⟩
  rw [Tool.handleOpt]
  simp [scanf_key, hdel]

theorem handleOpt_other (hopt : 4 < t.opt) : t.handleOpt mem fuel = .ok (t, 0) := by
  unfold Tool.handleOpt
  split
  all_goals first | rfl | omega

theorem turn_of_servable (mem fuel : ℕ) (h : InLoop t) (hin : t.input = r.typed ++ rest)
    (hserve : r.Servable t.world.segs) :
    ∃ t', turn mem fuel t = .ok (.inr t') ∧ InLoop t' ∧ t'.input = rest ∧
      t'.world.segs = r.after t.world.segs := by
  cases r with
  | display => exact absurd hserve id
  | deleteAll => exact absurd hserve id
  | delete key =>
    obtain ⟨hkey, hsome⟩ := hserve
    obtain ⟨bytes, hseg⟩ := Option.isSome_iff_exists.mp hsome
    obtain ⟨attached, hdel⟩ := handleDeleteBySeg_of_there hkey hseg
    refine ⟨⟨⟨_, attached⟩, rest, t.numOfSeg, 3⟩, turn_delete hin hdel, ⟨h.numOfSeg, ?_⟩, rfl, rfl⟩
    intro bytes' hfirst
    change Function.update t.world.segs key.toNat none 1 = some bytes' at hfirst
    refine h.first bytes' ?_
    by_cases hone : 1 = key.toNat
    · rw [hone, Function.update_self] at hfirst
      cases hfirst
    · rwa [Function.update_of_ne hone] at hfirst
  | count =>
    obtain ⟨bytes, hseg⟩ := Option.isSome_iff_exists.mp hserve
    rw [turn_number (c := 4) hin rfl]
    obtain ⟨attached, hnum⟩ :=
      getNumOfSeg_of_there (t := { t with input := rest, opt := 4 }) hseg
    refine ⟨_, (afterScanf_eq_ok (Nat.succ_ne_zero 3)).mpr ⟨_, _, hnum, rfl⟩, ⟨?_, h.first⟩,
      rfl, rfl⟩
    exact h.first bytes hseg
  | other c hbad =>
    rw [turn_number hin (opt_other c)]
    refine ⟨_, (afterScanf_eq_ok ?_).mpr ⟨_, _, handleOpt_other hbad, rfl⟩,
      ⟨h.numOfSeg, h.first⟩, rfl, rfl⟩
    exact Nat.ne_zero_of_lt hbad

/-- Any other request ends the tool, with the rest not read. -/
theorem turn_of_not_servable (h : InLoop t) (hin : t.input = r.typed ++ rest)
    (hserve : ¬r.Servable t.world.segs) {x : Tool ⊕ Tool} (hturn : turn mem fuel t = .ok x) :
    ∃ t', x = .inl t' ∧ t'.input = rest := by
  cases r with
  | display =>
    rw [turn_number (c := 1) hin rfl] at hturn
    obtain ⟨t', ret, hopt, rfl⟩ := (afterScanf_eq_ok (Nat.succ_ne_zero 0)).mp hturn
    -- segment 2 is displayed first, so that the loop is entered
    have hnum : 2 < u32 (2 + t.numOfSeg) := by
      rw [h.numOfSeg]
      decide
    obtain ⟨rfl, hinput⟩ := handleDisply_eq_ok (t := { t with input := rest, opt := 1 }) hnum hopt
    exact ⟨t', rfl, hinput⟩
  | deleteAll =>
    rw [turn_number (c := 2) hin rfl] at hturn
    obtain ⟨t', ret, hopt, rfl⟩ := (afterScanf_eq_ok (Nat.succ_ne_zero 1)).mp hturn
    obtain ⟨⟨ret', v⟩, hdel, hpure⟩ := bind_eq_ok.mp hopt
    have hnum : 65535 ≤ u32 (1 + t.numOfSeg) := by
      rw [h.numOfSeg]
      decide
    obtain rfl := handleDelete_eq_ok hnum hdel
    cases hpure
    exact ⟨_, rfl, rfl⟩
  | delete key =>
    rw [turn_delete hin (handleDeleteBySeg_of_not hserve)] at hturn
    exact ⟨_, (Except.ok.inj hturn).symm, rfl⟩
  | count =>
    rw [turn_number (c := 4) hin rfl] at hturn
    obtain ⟨t', ret, hopt, rfl⟩ := (afterScanf_eq_ok (Nat.succ_ne_zero 3)).mp hturn
    have hnum : Tool.getNumOfSeg { t with input := rest, opt := 4 } = .ok (_, -1) :=
      getNumOfSeg_of_not hserve
    cases hnum.symm.trans hopt
    exact ⟨_, rfl, rfl⟩
  | other c hbad => exact absurd trivial hserve

end Turn

/-! ### The session -/

theorem isSome_update_none (segs : ℕ → Option Mem) (key k : ℕ) :
    (Function.update segs key none k).isSome ↔ (segs k).isSome ∧ key ≠ k := by
  by_cases hk : key = k
  · subst hk
    simp
  · rw [Function.update_of_ne (Ne.symm hk)]
    exact (and_iff_left hk).symm

/-- What is there after a request was there before, and the request has left it. -/
theorem servable_after (segs : ℕ → Option Mem) (r r' : ToolRequest) :
    r'.Servable (r.after segs) ↔ r'.Servable segs ∧ r.Compatible r' := by
  cases r with
  | delete key =>
    cases r' with
    | delete key' =>
      show _ ∧ (Function.update segs key.toNat none key'.toNat).isSome ↔ (_ ∧ _) ∧ _
      rw [isSome_update_none, and_assoc]
      rfl
    | count => exact isSome_update_none segs key.toNat 1
    | display => exact (and_iff_left trivial).symm
    | deleteAll => exact (and_iff_left trivial).symm
    | other c hbad => exact (and_iff_left trivial).symm
  | display => exact (and_iff_left trivial).symm
  | deleteAll => exact (and_iff_left trivial).symm
  | count => exact (and_iff_left trivial).symm
  | other c hbad => exact (and_iff_left trivial).symm

/-- One request is served before the others. -/
theorem without_cons (segs : ℕ → Option Mem) (r : ToolRequest) (requests : List ToolRequest) :
    without segs (r :: requests) = without (r.after segs) requests := by
  funext k
  cases r with
  | delete key =>
    have hkeys : (ToolRequest.delete key :: requests).filterMap ToolRequest.key?
        = key.toNat :: requests.filterMap ToolRequest.key? := rfl
    rw [without, without, hkeys]
    by_cases hk : k = key.toNat
    · subst hk
      simp [ToolRequest.after]
    · simp [ToolRequest.after, hk]
  | display => rfl
  | deleteAll => rfl
  | count => rfl
  | other c hbad => rfl

theorem typedSession_cons (r : ToolRequest) (requests : List ToolRequest) :
    typedSession (r :: requests) = r.typed ++ typedSession requests := by
  rw [typedSession, List.flatMap_cons, List.append_assoc]
  rfl

theorem typedSession_ne_nil (requests : List ToolRequest) : typedSession requests ≠ [] := by
  simp [typedSession]

theorem allServable_cons (segs : ℕ → Option Mem) (r : ToolRequest)
    (requests : List ToolRequest) :
    AllServable segs (r :: requests) ↔ r.Servable segs ∧ AllServable (r.after segs) requests := by
  rw [AllServable, AllServable, List.forall_mem_cons, List.pairwise_cons]
  simp only [servable_after, forall_and, and_assoc]

variable {t : Tool} {mem fuel : ℕ} {requests : List ToolRequest}

/-- **The loop serves what can be served.** -/
theorem loop_of_allServable (mem fuel : ℕ) (h : InLoop t)
    (hin : t.input = typedSession requests) (hserve : AllServable t.world.segs requests) :
    ∃ t', whileLoop (fun _ => true) (turn mem fuel) (requests.length + 1) t = .ok (.inl t') ∧
      t'.input = [] ∧ t'.world.segs = without t.world.segs requests := by
  induction requests generalizing t with
  | nil =>
    have hturn : turn mem fuel t = .ok (.inl { t with input := [], opt := 0 }) :=
      turn_number (c := 0) hin rfl
    exact ⟨_, whileLoop_of_inl rfl hturn, rfl, rfl⟩
  | cons r requests ih =>
    rw [typedSession_cons] at hin
    obtain ⟨hfirst, hothers⟩ := (allServable_cons _ r requests).mp hserve
    obtain ⟨t₁, hturn, h₁, hin₁, hsegs⟩ := turn_of_servable mem fuel h hin hfirst
    rw [← hsegs] at hothers
    obtain ⟨t', hloop, hend, hsegs'⟩ := ih h₁ hin₁ hothers
    refine ⟨t', (whileLoop_of_inr rfl hturn).trans hloop, hend, ?_⟩
    rw [hsegs', hsegs, without_cons]

/-- Where the loop has read all that was typed, everything was served. -/
theorem allServable_of_loop (h : InLoop t) (hin : t.input = typedSession requests) {n : ℕ}
    {x : Tool ⊕ Tool} (hloop : whileLoop (fun _ => true) (turn mem fuel) n t = .ok x)
    (hend : ∀ t', x = .inl t' → t'.input = []) : AllServable t.world.segs requests := by
  induction requests generalizing t n with
  | nil => exact ⟨fun r hr => absurd hr List.not_mem_nil, .nil⟩
  | cons r requests ih =>
    rw [typedSession_cons] at hin
    obtain ⟨n, rfl⟩ : ∃ k, n = k + 1 := by
      rcases n with _ | n
      · cases hloop
      · exact ⟨n, rfl⟩
    rw [allServable_cons]
    by_cases hfirst : r.Servable t.world.segs
    · obtain ⟨t₁, hturn, h₁, hin₁, hsegs⟩ := turn_of_servable mem fuel h hin hfirst
      rw [whileLoop_of_inr rfl hturn] at hloop
      rw [← hsegs]
      exact ⟨hfirst, ih h₁ hin₁ hloop⟩
    · -- the tool ends here, and the option to leave is not read
      rcases whileLoop_eq_ok.mp hloop with ⟨hcond, _⟩ | ⟨_, t', hturn, rfl⟩ | ⟨_, t₁, hturn, _⟩
      · cases hcond
      · obtain ⟨t'', hinl, hrest⟩ := turn_of_not_servable h hin hfirst hturn
        cases hinl
        exact absurd (hrest.symm.trans (hend _ rfl)) (typedSession_ne_nil requests)
      · obtain ⟨t'', hinl, hrest⟩ := turn_of_not_servable h hin hfirst hturn
        cases hinl

section Session

variable {w : Segments} {id : ℤ} {vmem : ℕ} {s₀ s : Arena} {reqs : List UInt32} {rs : List Reply}

/-- The tool before its loop. -/
theorem inLoop_start (hnew : Arena.new id vmem = .ok s₀)
    (hrun : exec Arena.allocChunk s₀ reqs = .ok (s, rs)) (hseg : w.segs 1 = some s.bytes)
    (input : List Token) :
    ∃ t, (start w input).getNumOfSeg = .ok (t, 0) ∧ InLoop t ∧ t.input = input ∧
      t.world.segs = w.segs := by
  obtain ⟨attached, hnum⟩ := getNumOfSeg_of_there (t := start w input) hseg
  have hmega := getNumOfSeg_exec hnew hrun
  refine ⟨_, hnum, ⟨hmega, ?_⟩, rfl, rfl⟩
  rintro bytes hbytes
  obtain rfl : s.bytes = bytes := Option.some.inj (hseg.symm.trans hbytes)
  exact hmega

/-- **Sessions.**  On a store that the allocator has made, whatever was allocated, the tool comes to
the end of what is typed exactly if all that is asked for can be served; the segments that are left
then are those that were not deleted. -/
theorem runsToEnd_iff (hnew : Arena.new id vmem = .ok s₀)
    (hrun : exec Arena.allocChunk s₀ reqs = .ok (s, rs)) (hseg : w.segs 1 = some s.bytes)
    (mem : ℕ) (requests : List ToolRequest) (segs : ℕ → Option Mem) :
    RunsToEnd w mem requests segs ↔
      AllServable w.segs requests ∧ segs = without w.segs requests := by
  obtain ⟨t, hnum, hin, htyped, hsegs⟩ := inLoop_start hnew hrun hseg (typedSession requests)
  have hstart : ∀ fuel, runUserLoop mem fuel (start w (typedSession requests))
      = whileLoop (fun _ => true) (turn mem fuel) fuel t := by
    intro fuel
    rw [runUserLoop, hnum]
    rfl
  constructor
  · rintro ⟨fuel, t', hloop, hend, rfl⟩
    rw [hstart] at hloop
    have hserve : AllServable t.world.segs requests := by
      refine allServable_of_loop hin htyped hloop ?_
      rintro t'' htt
      cases htt
      exact hend
    obtain ⟨t'', hloop', _, hleft⟩ := loop_of_allServable mem fuel hin htyped hserve
    -- the two runs differ in nothing but the fuel
    have hsame : (.inl t' : Tool ⊕ Tool) = .inl t'' := by
      have hfirst := whileLoop_mono hloop (Nat.le_max_left fuel (requests.length + 1))
      have hsecond := whileLoop_mono hloop' (Nat.le_max_right fuel (requests.length + 1))
      exact Except.ok.inj (hfirst.symm.trans hsecond)
    cases hsame
    rw [hsegs] at hserve hleft
    exact ⟨hserve, hleft⟩
  · rintro ⟨hserve, rfl⟩
    rw [← hsegs] at hserve ⊢
    obtain ⟨t', hloop, hend, hleft⟩ :=
      loop_of_allServable mem (requests.length + 1) hin htyped hserve
    exact ⟨requests.length + 1, t', (hstart _).trans hloop, hend, hleft⟩

end Session

/-! ### One segment -/

/-- The segment of the allocator, and no other. -/
def oneSegment : Segments := ⟨fun key => if key = 1 then some freshArena.bytes else none, []⟩

/-- The number is asked for, and then segment 1 is deleted. -/
theorem runsToEnd_countDelete :
    RunsToEnd oneSegment 0 [.count, .delete 1] (without oneSegment.segs [.count, .delete 1]) := by
  have hnew : Arena.new 0 0x10000 = .ok freshArena := rfl
  have hrun : exec Arena.allocChunk freshArena [] = .ok (freshArena, []) := rfl
  refine (runsToEnd_iff hnew hrun rfl 0 _ _).mpr ⟨⟨?_, ?_⟩, rfl⟩
  · intro r hr
    rcases List.mem_pair.mp hr with rfl | rfl
    · rfl
    · exact ⟨by decide, rfl⟩
  · exact List.pairwise_pair.mpr trivial

end Lab1.MemDb
