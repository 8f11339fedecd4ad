import Lab1.Task1.Equiv.Delivery

/-!
# How a result set is split

`Sent` says which packages the outer loop sends, turn by turn and for any calls of `getNextCSVRow`;
`sent_of_eq_ok` says that these are the packages of `handleProtoBuffSend`.

When all rows can be fetched, no row is lost on the way into the packages (`Sent.csvrow`), every
package has a row, and only the last one is finalised.  The number that it is finalised with is
counted in 32 bits, so it is the number of rows if and only if there are fewer than `2 ^ 32`
(`splitsExactly_iff`).
-/

namespace Lab1.Task1

open BulkDataOutStreamMngr

variable {T : Type}

/-! ### The property -/

/-- Nothing of what `finalizeStream` sets is set. -/
structure Unfinished (m : Respond T) : Prop where
  size : m.rows.size = 0
  querytime : m.metadata.querytime = none
  columns : m.metadata.columns = []

/-- The packages `front` and `last` are `rows`, in order, and none of them is without a row;
`finalizeStream` was called for the last one only, with the count `n`. -/
structure Split [Add T] (rs : ResultSet T) (rows : List Row) (front : List (Package T))
    (last : Package T) (n : UInt32) : Prop where
  csvrow_ne_nil : ∀ p ∈ front ++ [last], p.msg.rows.csvrow ≠ []
  csvrow : (front ++ [last]).flatMap (fun p => p.msg.rows.csvrow) = rows
  unfinished : ∀ p ∈ front, Unfinished p.msg
  finalized : ∃ m, Unfinished m ∧ last.msg = finalizeStream rs m n

/-- The loops end, and the rows of the result set are split into packages, the last of which is
finalised with their number. -/
def SplitsExactly [Add T] (rs : ResultSet T) (rows : List Row) : Prop :=
  ∃ front last m n, handleProtoBuffSend (.resultSet rs) = .ok ⟨front ++ [last], m, none⟩ ∧
    Split rs rows front last n ∧ n.toNat = rows.length

/-! ### The packages of a run -/

variable [Add T]

/-- The packages that the outer loop sends, from the variables `v` on, when `fs` are the calls of
`getNextCSVRow` that are left. -/
inductive Sent (rs : ResultSet T) : SendVars T → List RowFetch → List (Package T) → Prop
  | done (v : SendVars T) : Sent rs v [] []
  | raised {v v' : SendVars T} {fs : List RowFetch} {e : Raised}
      (hfill : fillBulk fs v = .inl (e, v')) : Sent rs v fs []
  | turn {v v' : SendVars T} {fs rest : List RowFetch} {ps : List (Package T)} (hne : fs ≠ [])
      (hfill : fillBulk fs v = .inr (v', rest))
      (hrest : Sent rs (afterTurn rs v' rest.isEmpty) rest ps) :
      Sent rs v fs (package rs v' rest.isEmpty :: ps)

omit [Add T] in
/-- The packages sent when the outer loop is left. -/
def sentOf : (Raised × SendVars T) ⊕ (SendVars T × List RowFetch) → List (Package T)
  | .inl (_, v) => v.sent
  | .inr (v, _) => v.sent

theorem sent_of_whileLoop {rs : ResultSet T} {v : SendVars T} {fs : List RowFetch} {fuel : ℕ}
    {r : (Raised × SendVars T) ⊕ (SendVars T × List RowFetch)}
    (h : whileLoop notEndOfSet (bulkTurn rs) fuel (v, fs) = .ok r) :
    ∃ ps, Sent rs v fs ps ∧ sentOf r = v.sent ++ ps := by
  induction fuel generalizing v fs with
  | zero => cases h
  | succ fuel ih =>
    rcases whileLoop_eq_ok.mp h with ⟨hcond, rfl⟩ | ⟨_, x, hturn, rfl⟩ | ⟨hcond, s, hturn, hrun⟩
    · -- there is nothing more to fetch
      obtain rfl : fs = [] := notEndOfSet_eq_false.mp hcond
      exact ⟨[], .done v, (List.append_nil v.sent).symm⟩
    · rcases hfill : fillBulk fs v with ⟨e, v'⟩ | ⟨v', rest⟩
      · rw [bulkTurn_of_inl hfill] at hturn
        cases hturn
        refine ⟨[], .raised hfill, ?_⟩
        show v'.sent = v.sent ++ []
        rw [(fillBulk_inl hfill).2, List.append_nil]
      · rw [bulkTurn_of_inr hfill] at hturn
        cases hturn
    · rcases hfill : fillBulk fs v with ⟨e, v'⟩ | ⟨v', rest⟩
      · rw [bulkTurn_of_inl hfill] at hturn
        cases hturn
      · rw [bulkTurn_of_inr hfill] at hturn
        cases hturn
        obtain ⟨ps, hps, hsent⟩ := ih hrun
        obtain ⟨b, _, rfl, _⟩ := fillBulk_inr hfill
        refine ⟨_, .turn (notEndOfSet_iff.mp hcond) hfill hps, hsent.trans ?_⟩
        show v.sent ++ [_] ++ ps = v.sent ++ _ :: ps
        rw [List.append_assoc, List.singleton_append]

/-- The packages of an answer are those of a run. -/
theorem sent_of_eq_ok {rs : ResultSet T} {a : Answer T}
    (h : handleProtoBuffSend (.resultSet rs) = .ok a) :
    Sent rs (startVars rs) rs.fetches a.sent := by
  rw [handleProtoBuffSend, bind_eq_ok] at h
  obtain ⟨r, hrun, ha⟩ := h
  obtain ⟨ps, hps, hsent⟩ := sent_of_whileLoop hrun
  have hstart : (startVars rs).sent ++ ps = ps := List.nil_append ps
  rw [hstart] at hsent
  rcases r with ⟨e, v⟩ | ⟨v, rest⟩
  · cases ha
    show Sent rs (startVars rs) rs.fetches v.sent
    rwa [show v.sent = ps from hsent]
  · cases ha
    show Sent rs (startVars rs) rs.fetches v.sent
    rwa [show v.sent = ps from hsent]

/-! ### Rows that can all be fetched -/

/-- The variables before a turn: the message has no rows, and is not finalised. -/
structure Clear (v : SendVars T) : Prop where
  total : v.totalBulkSz = 0
  csvrow : v.protobufRespond.rows.csvrow = []
  unfinished : Unfinished v.protobufRespond

omit [Add T] in
theorem clear_startVars (rs : ResultSet T) : Clear (startVars rs) := ⟨rfl, rfl, rfl, rfl, rfl⟩

theorem clear_afterTurn (rs : ResultSet T) (v : SendVars T) (last : Bool) :
    Clear (afterTurn rs v last) := ⟨rfl, rfl, rfl, rfl, rfl⟩

/-- The rows in a package, finalised or not. -/
theorem Clear.csvrow_package {v : SendVars T} (hv : Clear v) (rs : ResultSet T) (b : List Row)
    (last : Bool) : (package rs (addRows v b) last).msg.rows.csvrow = b := by
  have hb : v.protobufRespond.rows.csvrow ++ b = b := by rw [hv.csvrow, List.nil_append]
  cases last with
  | false => exact hb
  | true => exact hb

omit [Add T] in
theorem Clear.lt {v : SendVars T} (hv : Clear v) : v.totalBulkSz < maxTrxBufferSz := by
  rw [hv.total]
  decide

omit [Add T] in
/-- When all rows can be fetched, the inner loop takes some of them and leaves the others. -/
theorem Clear.fillBulk_inr {v v' : SendVars T} (hv : Clear v) {rows : List Row}
    {rest : List RowFetch} (hne : rows ≠ [])
    (hfill : fillBulk (rows.map .row) v = .inr (v', rest)) :
    ∃ b left, b ≠ [] ∧ rows = b ++ left ∧ v' = addRows v b ∧ rest = left.map .row := by
  rw [fillBulk_rows] at hfill
  cases hfill
  exact ⟨_, _, splitBulk_fst_ne_nil hv.lt hne, (splitBulk_append _ _).symm, rfl, rfl⟩

/-- Where the rows that are left can be fetched, there are two ways to go on. -/
theorem Sent.rows_cases {rs : ResultSet T} {v : SendVars T} {rows : List Row}
    {ps : List (Package T)} (h : Sent rs v (rows.map .row) ps) (hv : Clear v) :
    rows = [] ∧ ps = [] ∨ ∃ b left ps', b ≠ [] ∧ rows = b ++ left ∧
      ps = package rs (addRows v b) left.isEmpty :: ps' ∧
      Sent rs (afterTurn rs (addRows v b) left.isEmpty) (left.map .row) ps' := by
  generalize hfs : rows.map RowFetch.row = fs at h
  cases h with
  | done => exact Or.inl ⟨List.map_eq_nil_iff.mp hfs, rfl⟩
  | raised hfill =>
    -- no fetch fails
    rw [← hfs, fillBulk_rows] at hfill
    cases hfill
  | turn hne hfill hrest =>
    have hrows : rows ≠ [] := by
      rintro rfl
      exact hne hfs.symm
    rw [← hfs] at hfill
    obtain ⟨b, left, hb, heq, rfl, rfl⟩ := hv.fillBulk_inr hrows hfill
    rw [List.isEmpty_map] at hrest ⊢
    exact Or.inr ⟨b, left, _, hb, heq, rfl, hrest⟩

/-- Induction over the bulks. -/
theorem Sent.rows_induction {rs : ResultSet T}
    (P : SendVars T → List Row → List (Package T) → Prop) (hdone : ∀ v, P v [] [])
    (hturn : ∀ v b left ps, Clear v → b ≠ [] → (left = [] → ps = []) →
      P (afterTurn rs (addRows v b) left.isEmpty) left ps →
      P v (b ++ left) (package rs (addRows v b) left.isEmpty :: ps))
    {v : SendVars T} {rows : List Row} {ps : List (Package T)}
    (h : Sent rs v (rows.map .row) ps) (hv : Clear v) : P v rows ps := by
  induction hn : rows.length using Nat.strongRecOn generalizing v rows ps with
  | _ n ih =>
    rcases h.rows_cases hv with ⟨rfl, rfl⟩ | ⟨b, left, ps', hb, rfl, rfl, hrest⟩
    · exact hdone v
    · have hlt : left.length < n := by
        have hpos := List.length_pos_iff.mpr hb
        rw [List.length_append] at hn
        omega
      have hclear := clear_afterTurn rs (addRows v b) left.isEmpty
      refine hturn v b left ps' hv hb (fun hnil => ?_) (ih _ hlt hrest hclear rfl)
      subst hnil
      cases hrest with
      | done => rfl
      | raised hfill => rfl
      | turn hne _ _ => exact absurd rfl hne

/-- No row is lost, none is sent twice, and the order stays. -/
theorem Sent.csvrow {rs : ResultSet T} {v : SendVars T} {rows : List Row} {ps : List (Package T)}
    (h : Sent rs v (rows.map .row) ps) (hv : Clear v) :
    ps.flatMap (fun p => p.msg.rows.csvrow) = rows := by
  refine h.rows_induction (fun _ rows ps => ps.flatMap (fun p => p.msg.rows.csvrow) = rows)
    (fun _ => rfl) ?_ hv
  intro v b left ps hv _ _ ih
  rw [List.flatMap_cons, hv.csvrow_package, ih]

theorem Sent.csvrow_ne_nil {rs : ResultSet T} {v : SendVars T} {rows : List Row}
    {ps : List (Package T)} (h : Sent rs v (rows.map .row) ps) (hv : Clear v) :
    ∀ p ∈ ps, p.msg.rows.csvrow ≠ [] := by
  refine h.rows_induction (fun _ _ ps => ∀ p ∈ ps, p.msg.rows.csvrow ≠ [])
    (fun _ p hp => absurd hp List.not_mem_nil) ?_ hv
  intro v b left ps hv hb _ ih
  refine List.forall_mem_cons.mpr ⟨?_, ih⟩
  rw [hv.csvrow_package]
  exact hb

/-- The last package is finalised, with the number of rows in 32 bits, and no other one is. -/
theorem Sent.finalized {rs : ResultSet T} {v : SendVars T} {rows : List Row}
    {ps : List (Package T)} (h : Sent rs v (rows.map .row) ps) (hv : Clear v) (hne : rows ≠ []) :
    ∃ front last m, ps = front ++ [last] ∧ (∀ p ∈ front, Unfinished p.msg) ∧ Unfinished m ∧
      last.msg = finalizeStream rs m (v.count + UInt32.ofNat rows.length) := by
  refine h.rows_induction (fun v rows ps => rows ≠ [] → ∃ front last m, ps = front ++ [last] ∧
    (∀ p ∈ front, Unfinished p.msg) ∧ Unfinished m ∧
      last.msg = finalizeStream rs m (v.count + UInt32.ofNat rows.length))
    (fun _ hnil => absurd rfl hnil) ?_ hv hne
  intro v b left ps hv _ hnone ih _
  have hunfinished : Unfinished (addRows v b).protobufRespond :=
    ⟨hv.unfinished.size, hv.unfinished.querytime, hv.unfinished.columns⟩
  rcases left with _ | ⟨r, left⟩
  · -- the last bulk
    obtain rfl : ps = [] := hnone rfl
    rw [List.append_nil]
    exact ⟨[], _, _, rfl, fun p hp => absurd hp List.not_mem_nil, hunfinished, rfl⟩
  · obtain ⟨front, last, m, rfl, hfront, hm, hlast⟩ := ih (List.cons_ne_nil r left)
    refine ⟨_ :: front, last, m, rfl, List.forall_mem_cons.mpr ⟨hunfinished, hfront⟩, hm, ?_⟩
    have hcount : v.count + UInt32.ofNat b.length + UInt32.ofNat (r :: left).length
        = v.count + UInt32.ofNat (b ++ r :: left).length := by
      rw [List.length_append, UInt32.ofNat_add, UInt32.add_assoc]
    rw [hlast, ← hcount]
    rfl

/-! ### The number of rows -/

/-- The packages of a result set whose rows can all be fetched. -/
theorem handleProtoBuffSend_split {rs : ResultSet T} {rows : List Row}
    (hrows : rs.fetches = rows.map .row) (hne : rows ≠ []) :
    ∃ front last m, handleProtoBuffSend (.resultSet rs) = .ok ⟨front ++ [last], m, none⟩ ∧
      Split rs rows front last (UInt32.ofNat rows.length) := by
  obtain ⟨m, front, last, hsend, _⟩ := handleProtoBuffSend_rows hrows hne
  have hsent : Sent rs (startVars rs) (rows.map .row) (front ++ [last]) :=
    hrows ▸ sent_of_eq_ok hsend
  have hclear := clear_startVars rs
  obtain ⟨front', last', m', heq, hfront, hm, hlast⟩ := hsent.finalized hclear hne
  obtain ⟨rfl, hsingle⟩ := List.append_inj' heq rfl
  obtain rfl : last = last' := List.singleton_inj.mp hsingle
  have hcount : (startVars rs).count + UInt32.ofNat rows.length = UInt32.ofNat rows.length :=
    UInt32.zero_add _
  rw [hcount] at hlast
  exact ⟨front, last, m, hsend, hsent.csvrow_ne_nil hclear, hsent.csvrow hclear, hfront, m', hm,
    hlast⟩

/-- **Bulk splitting.**  When all rows of a result set can be fetched and there are any, the loops
end, every package has a row, the packages together have the rows in order, and only the last one is
finalised.  The count that it is finalised with is the number of rows if and only if that is below
`2 ^ 32`. -/
theorem splitsExactly_iff {rs : ResultSet T} {rows : List Row} (hrows : rs.fetches = rows.map .row)
    (hne : rows ≠ []) : SplitsExactly rs rows ↔ rows.length < 4294967296 := by
  obtain ⟨front, last, m, hsend, hsplit⟩ := handleProtoBuffSend_split hrows hne
  constructor
  · rintro ⟨_, _, _, n, _, _, hn⟩
    rw [← hn]
    exact n.toNat_lt
  · intro hlt
    refine ⟨front, last, m, _, hsend, hsplit, ?_⟩
    rw [UInt32.toNat_ofNat', Nat.mod_eq_of_lt hlt]

theorem splitsExactly_two_rows : SplitsExactly (resultSetOf [[0x31], []]) [[0x31], []] :=
  (splitsExactly_iff rfl (List.cons_ne_nil _ _)).mpr (by decide)

/-- With `2 ^ 32` rows the count wraps. -/
theorem not_splitsExactly_wrapped :
    ¬SplitsExactly (resultSetOf (List.replicate 4294967296 [0x31]))
      (List.replicate 4294967296 [0x31]) := by
  rintro ⟨_, _, _, n, _, _, hn⟩
  rw [List.length_replicate] at hn
  have hlt : n.toNat < 4294967296 := n.toNat_lt
  omega

end Lab1.Task1
