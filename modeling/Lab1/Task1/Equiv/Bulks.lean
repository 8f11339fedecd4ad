import Lab1.Task1.DataStreamManager
import Mathlib.Algebra.GroupWithZero.Nat

/-!
# Bulks

How `handleProtoBuffSend` splits a result set: `splitBulk` takes rows as long as the rows before
them are shorter than the limit together (`splitBulk_snd_eq_nil_iff` says when this is all of them),
and one turn of the outer loop sends the rows that it takes (`bulkTurn_rows`).
-/

namespace Lab1.Task1

open BulkDataOutStreamMngr

/-! ### One bulk -/

/-- The number of bytes of some rows. -/
def bytes (rows : List Row) : ℕ := (rows.map List.length).sum

/-- The rows of the next bulk, which has `total` bytes already, and the rows left. -/
def splitBulk (total : UInt32) : List Row → List Row × List Row
  | [] => ([], [])
  | r :: rows =>
    if total < maxTrxBufferSz then
      (r :: (splitBulk (total + UInt32.ofNat r.length) rows).1,
        (splitBulk (total + UInt32.ofNat r.length) rows).2)
    else ([], r :: rows)

theorem splitBulk_append (total : UInt32) (rows : List Row) :
    (splitBulk total rows).1 ++ (splitBulk total rows).2 = rows := by
  induction rows generalizing total with
  | nil => rfl
  | cons r rows ih =>
    rw [splitBulk]
    split_ifs
    · rw [List.cons_append, ih]
    · rfl

theorem splitBulk_fst_ne_nil {total : UInt32} {rows : List Row} (h : total < maxTrxBufferSz)
    (hrows : rows ≠ []) : (splitBulk total rows).1 ≠ [] := by
  obtain ⟨r, rows, rfl⟩ := List.exists_cons_of_ne_nil hrows
  rw [splitBulk, if_pos h]
  exact List.cons_ne_nil _ _

theorem bytes_append (b b' : List Row) : bytes (b ++ b') = bytes b + bytes b' := by
  rw [bytes, List.map_append, List.sum_append]
  rfl

/-- A row is counted when it is put into the bulk. -/
theorem total_cons (total : UInt32) (r : Row) (b : List Row) :
    total + UInt32.ofNat (bytes (r :: b))
      = total + UInt32.ofNat r.length + UInt32.ofNat (bytes b) := by
  rw [bytes, bytes, List.map_cons, List.sum_cons, UInt32.ofNat_add, UInt32.add_assoc]

/-- What a bulk has before its first row. -/
theorem total_take_zero (total : UInt32) (rows : List Row) :
    total + UInt32.ofNat (bytes (rows.take 0)) = total := by
  show total + 0 = total
  exact UInt32.add_zero total

/-- What it has before a later row, counted from the second row on. -/
theorem total_take_succ (total : UInt32) (r : Row) (rows : List Row) (n : ℕ) :
    total + UInt32.ofNat (bytes ((r :: rows).take (n + 1)))
      = total + UInt32.ofNat r.length + UInt32.ofNat (bytes (rows.take n)) := by
  rw [List.take_succ_cons, total_cons]

/-- A bulk has room for all rows as long as, before the last one, the limit is not reached. -/
theorem splitBulk_snd_eq_nil_iff {total : UInt32} {rows : List Row} :
    (splitBulk total rows).2 = [] ↔
      ∀ n < rows.length, total + UInt32.ofNat (bytes (rows.take n)) < maxTrxBufferSz := by
  induction rows generalizing total with
  | nil => exact iff_of_true rfl fun n hn => absurd hn (Nat.not_lt_zero n)
  | cons r rows ih =>
    rw [splitBulk]
    split_ifs with hlt
    · -- the row is taken, and its bytes count from the next row on
      show (splitBulk (total + UInt32.ofNat r.length) rows).2 = [] ↔ _
      rw [ih]
      constructor
      · intro h n hn
        rcases n with _ | n
        · rw [total_take_zero]
          exact hlt
        · rw [total_take_succ]
          exact h n (Nat.lt_of_succ_lt_succ hn)
      · intro h n hn
        rw [← total_take_succ]
        exact h (n + 1) (Nat.succ_lt_succ hn)
    · -- the limit is reached before this row
      refine iff_of_false not_false fun h => hlt ?_
      rw [← total_take_zero total (r :: rows)]
      exact h 0 (Nat.succ_pos _)

variable {T : Type}

/-- The variables after the rows `b` are put into the message. -/
def addRows (v : SendVars T) (b : List Row) : SendVars T :=
  { v with
    protobufRespond := { v.protobufRespond with
      rows := { v.protobufRespond.rows with csvrow := v.protobufRespond.rows.csvrow ++ b } }
    totalBulkSz := v.totalBulkSz + UInt32.ofNat (bytes b)
    count := v.count + UInt32.ofNat b.length }

@[simp] theorem addRows_nil (v : SendVars T) : addRows v [] = v := by
  have htotal : v.totalBulkSz + UInt32.ofNat (bytes []) = v.totalBulkSz := UInt32.add_zero _
  have hcount : v.count + UInt32.ofNat (List.length ([] : List Row)) = v.count := UInt32.add_zero _
  rw [addRows, htotal, hcount, List.append_nil]

theorem addRows_cons (v : SendVars T) (r : Row) (b : List Row) :
    addRows { v with
      protobufRespond := v.protobufRespond.addCsvrow r
      totalBulkSz := v.totalBulkSz + UInt32.ofNat r.length
      count := v.count + 1 } b = addRows v (r :: b) := by
  have hcount : v.count + 1 + UInt32.ofNat b.length
      = v.count + UInt32.ofNat (r :: b).length := by
    rw [List.length_cons, Nat.add_comm, UInt32.ofNat_add, UInt32.add_assoc]
    rfl
  simp only [addRows, Respond.addCsvrow, total_cons, hcount, List.append_assoc,
    List.singleton_append]

/-- When no fetch fails, the inner loop takes the rows of the next bulk. -/
theorem fillBulk_rows (rows : List Row) (v : SendVars T) :
    fillBulk (rows.map .row) v =
      .inr (addRows v (splitBulk v.totalBulkSz rows).1,
        (splitBulk v.totalBulkSz rows).2.map .row) := by
  induction rows generalizing v with
  | nil =>
    rw [splitBulk, addRows_nil]
    rfl
  | cons r rows ih =>
    rw [List.map_cons, fillBulk, splitBulk]
    split_ifs with hlt
    · show fillBulk (rows.map .row) _ = _
      rw [ih, addRows_cons]
    · rw [addRows_nil]
      rfl

/-- As long as the limit is not reached, the inner loop puts rows into the message. -/
theorem fillBulk_append {b : List Row} (fs : List RowFetch) {v : SendVars T}
    (h : ∀ n < b.length, v.totalBulkSz + UInt32.ofNat (bytes (b.take n)) < maxTrxBufferSz) :
    fillBulk (b.map .row ++ fs) v = fillBulk fs (addRows v b) := by
  induction b generalizing v with
  | nil =>
    rw [addRows_nil]
    rfl
  | cons r b ih =>
    have hlt := h 0 (Nat.succ_pos _)
    rw [total_take_zero] at hlt
    rw [List.map_cons, List.cons_append, fillBulk, if_pos hlt]
    show fillBulk (b.map .row ++ fs) _ = _
    rw [ih, addRows_cons]
    intro n hn
    rw [← total_take_succ]
    exact h (n + 1) (Nat.succ_lt_succ hn)

/-- Once the limit is reached, the inner loop is left. -/
theorem fillBulk_of_le {v : SendVars T} (fs : List RowFetch) (h : ¬v.totalBulkSz < maxTrxBufferSz) :
    fillBulk fs v = .inr (v, fs) := by
  rcases fs with _ | ⟨r | e, fs⟩
  · rfl
  · rw [fillBulk, if_neg h]
  · rw [fillBulk, if_neg h]

/-- Where the rows of a bulk end: behind the last fetch, where the limit is reached, or before it
is, at a fetch that fails. -/
theorem exists_bulk (fs : List RowFetch) (total : UInt32) :
    ∃ (b : List Row) (rest : List RowFetch), fs = b.map .row ++ rest ∧
      (∀ n < b.length, total + UInt32.ofNat (bytes (b.take n)) < maxTrxBufferSz) ∧
      (rest = [] ∨ maxTrxBufferSz ≤ total + UInt32.ofNat (bytes b) ∨
        total + UInt32.ofNat (bytes b) < maxTrxBufferSz ∧ ∃ e rest', rest = .raise e :: rest') := by
  induction fs generalizing total with
  | nil => exact ⟨[], [], rfl, fun n hn => absurd hn (Nat.not_lt_zero n), Or.inl rfl⟩
  | cons f fs ih =>
    have hzero : total + UInt32.ofNat (bytes []) = total := UInt32.add_zero total
    by_cases hlt : total < maxTrxBufferSz
    · rcases f with r | e
      · obtain ⟨b, rest, rfl, hroom, hend⟩ := ih (total + UInt32.ofNat r.length)
        rw [← total_cons] at hend
        refine ⟨r :: b, rest, rfl, fun n hn => ?_, hend⟩
        rcases n with _ | n
        · rw [total_take_zero]
          exact hlt
        · rw [total_take_succ]
          exact hroom n (Nat.lt_of_succ_lt_succ hn)
      · refine ⟨[], .raise e :: fs, rfl, fun n hn => absurd hn (Nat.not_lt_zero n), ?_⟩
        rw [hzero]
        exact Or.inr (Or.inr ⟨hlt, e, fs, rfl⟩)
    · refine ⟨[], f :: fs, rfl, fun n hn => absurd hn (Nat.not_lt_zero n), ?_⟩
      rw [hzero]
      exact Or.inr (Or.inl (UInt32.not_lt.mp hlt))

/-- What the inner loop does to any list of fetches. -/
theorem fillBulk_inr {fs rest : List RowFetch} {v v' : SendVars T}
    (h : fillBulk fs v = .inr (v', rest)) :
    ∃ b : List Row, fs = b.map .row ++ rest ∧ v' = addRows v b ∧
      (v.totalBulkSz < maxTrxBufferSz → fs ≠ [] → b ≠ []) := by
  induction fs generalizing v with
  | nil =>
    cases h
    exact ⟨[], rfl, (addRows_nil _).symm, fun _ hne => absurd rfl hne⟩
  | cons f fs ih =>
    rcases f with r | e
    · rw [fillBulk] at h
      split_ifs at h with hlt
      · obtain ⟨b, rfl, rfl, _⟩ := ih h
        exact ⟨r :: b, rfl, addRows_cons v r b, fun _ _ => List.cons_ne_nil _ _⟩
      · cases h
        exact ⟨[], rfl, (addRows_nil _).symm, fun hlt' => absurd hlt' hlt⟩
    · -- the bulk is full, so the fetch that would raise is left for the next one
      rw [fillBulk] at h
      split_ifs at h with hlt
      cases h
      exact ⟨[], rfl, (addRows_nil _).symm, fun hlt' => absurd hlt' hlt⟩

/-- The inner loop is left by an exception only if a fetch raises one. -/
theorem fillBulk_inl {fs : List RowFetch} {v v' : SendVars T} {e : Raised}
    (h : fillBulk fs v = .inl (e, v')) : .raise e ∈ fs ∧ v'.sent = v.sent := by
  induction fs generalizing v with
  | nil => cases h
  | cons f fs ih =>
    rcases f with r | e'
    · rw [fillBulk] at h
      split_ifs at h with hlt
      obtain ⟨hmem, hsent⟩ := ih h
      exact ⟨List.mem_cons_of_mem _ hmem, hsent⟩
    · rw [fillBulk] at h
      split_ifs at h with hlt
      cases h
      exact ⟨List.mem_cons_self, rfl⟩

/-! ### One turn -/

theorem notEndOfSet_iff {s : SendVars T × List RowFetch} : notEndOfSet s = true ↔ s.2 ≠ [] := by
  simp [notEndOfSet]

theorem notEndOfSet_eq_false {s : SendVars T × List RowFetch} :
    notEndOfSet s = false ↔ s.2 = [] := by
  simp [notEndOfSet]

section Turn

variable [Add T]

/-- The package that a turn sends, when `v` are the variables with the bulk put in. -/
def package (rs : ResultSet T) (v : SendVars T) (last : Bool) : Package T :=
  if last then ⟨protocolProtobuf, finalizeStream rs v.protobufRespond v.count⟩
  else ⟨v.flags, v.protobufRespond⟩

/-- The variables after a turn. -/
def afterTurn (rs : ResultSet T) (v : SendVars T) (last : Bool) : SendVars T where
  protobufRespond := .clear
  count := v.count
  totalBulkSz := 0
  flags := if last then protocolProtobuf else v.flags
  sent := v.sent ++ [package rs v last]

theorem bulkTurn_of_inr {rs : ResultSet T} {v v' : SendVars T} {fs rest : List RowFetch}
    (h : fillBulk fs v = .inr (v', rest)) :
    bulkTurn rs (v, fs) = .ok (.inr (afterTurn rs v' rest.isEmpty, rest)) := by
  simp only [bulkTurn, h]
  rcases rest with _ | ⟨f, rest⟩
  · rfl
  · rfl

theorem bulkTurn_of_inl {rs : ResultSet T} {v v' : SendVars T} {fs : List RowFetch} {e : Raised}
    (h : fillBulk fs v = .inl (e, v')) : bulkTurn rs (v, fs) = .ok (.inl (e, v')) := by
  simp only [bulkTurn, h]

/-- A turn sends the rows of the next bulk. -/
theorem bulkTurn_rows (rs : ResultSet T) (v : SendVars T) (rows : List Row) :
    bulkTurn rs (v, rows.map .row) =
      .ok (.inr (afterTurn rs (addRows v (splitBulk v.totalBulkSz rows).1)
          (splitBulk v.totalBulkSz rows).2.isEmpty,
        (splitBulk v.totalBulkSz rows).2.map .row)) := by
  rw [bulkTurn_of_inr (fillBulk_rows rows v), List.isEmpty_map]

end Turn

end Lab1.Task1
