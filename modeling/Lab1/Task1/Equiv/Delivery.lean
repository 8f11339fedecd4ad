import Lab1.Task1.Equiv.Answers

/-!
# Which rows arrive

`finalizeStream` is the only place where the number of rows is put into a message, and the number is
that of all rows of the answer.  So `consume` shows no row of a bulk that is not the last one, and
asks the last bulk for as many rows as there are in all bulks.  The rows arrive if and only if they
go out in a single bulk, and their number does not wrap (`rowsDelivered_iff`).
-/

namespace Lab1.Task1

open BulkDataOutStreamMngr

variable {T : Type}

/-! ### The property -/

/-- The rows that are printed, in order. -/
def shown (out : List (Out T)) : List Row :=
  out.filterMap fun
    | .csvrow r => some r
    | _ => none

/-- The client prints exactly `rows`, and asks no message for a row that it does not hold. -/
def RowsDelivered [Add T] (dflt : Defaults) (rs : ResultSet T) (rows : List Row) : Prop :=
  ∀ a, handleProtoBuffSend (.resultSet rs) = .ok a → a.caught = none →
    ∃ r, handleProtoBuffRecv dflt a.sent = .ok r ∧ shown r.out = rows

/-! ### The receiver -/

@[simp] theorem shown_append (out out' : List (Out T)) :
    shown (out ++ out') = shown out ++ shown out' :=
  List.filterMap_append

theorem showRows_eq_ok {n : ℕ} {rows : List Row} {out : List (Out T)} :
    showRows n rows = .ok out ↔ n ≤ rows.length ∧ out = (rows.take n).map .csvrow := by
  induction n generalizing rows out with
  | zero => simp [showRows, eq_comm]
  | succ n ih =>
    rcases rows with _ | ⟨r, rows⟩
    · simp [showRows]
    · rw [showRows, bind_eq_ok]
      simp only [ih, List.length_cons, Nat.succ_le_succ_iff, List.take_succ_cons, List.map_cons]
      constructor
      · rintro ⟨out', ⟨hle, rfl⟩, hpure⟩
        cases hpure
        exact ⟨hle, rfl⟩
      · rintro ⟨hle, rfl⟩
        exact ⟨_, ⟨hle, rfl⟩, rfl⟩

theorem shown_map_csvrow (rows : List Row) : shown (rows.map (Out.csvrow (T := T))) = rows := by
  rw [shown, List.filterMap_map]
  exact List.filterMap_some

/-- Behind the rows of a message, no row is printed. -/
theorem shown_summary (n : ℕ) (t : Option (QueryTime T)) :
    shown (.rowsCount n :: (t.map Out.querytime).toList) = [] := by
  rcases t with _ | t
  · rfl
  · rfl

/-- Of the rows in a message `consume` prints those that its size says, or none. -/
theorem shown_consume {dflt : Defaults} {m : Respond T} {out : List (Out T)}
    (h : consume dflt m = .ok out) :
    shown out = [] ∨ shown out = m.rows.csvrow.take m.rows.size.toNat := by
  unfold consume at h
  split at h
  · split_ifs at h
    · cases h
      exact Or.inl rfl
    · cases h
      exact Or.inl rfl
  · rw [bind_eq_ok] at h
    obtain ⟨out', hshow, hpure⟩ := h
    obtain ⟨_, rfl⟩ := showRows_eq_ok.mp hshow
    cases hpure
    rw [shown_append, shown_map_csvrow, shown_summary, List.append_nil]
    exact Or.inr rfl
  · cases h
    exact Or.inl rfl

/-- A result message whose size is the number of its rows is printed in full. -/
theorem consume_result (dflt : Defaults) {m : Respond T} (htype : m.type = some .RESULT)
    (hsize : m.rows.size.toNat = m.rows.csvrow.length) :
    ∃ out, consume dflt m = .ok out ∧ shown out = m.rows.csvrow := by
  have hshow : showRows m.rows.size.toNat m.rows.csvrow
      = .ok (m.rows.csvrow.map (Out.csvrow (T := T))) :=
    showRows_eq_ok.mpr ⟨Nat.le_of_eq hsize, by rw [hsize, List.take_length]⟩
  have hconsume : consume dflt m = .ok (m.rows.csvrow.map .csvrow ++
      .rowsCount m.metadata.rowscount :: (m.metadata.querytime.map Out.querytime).toList) := by
    rw [consume, htype, Option.getD_some]
    simp only [hshow, ok_bind]
    rfl
  refine ⟨_, hconsume, ?_⟩
  rw [shown_append, shown_map_csvrow, shown_summary, List.append_nil]

/-- Packages to be continued whose messages say that they have no rows add nothing to what is
shown for the last one. -/
theorem shown_received {dflt : Defaults} {front : List (Package T)} {last : Package T}
    {r : Received T} (hcont : ∀ p ∈ front, p.cont = true)
    (hsize : ∀ p ∈ front, p.msg.rows.size = 0)
    (h : handleProtoBuffRecv dflt (front ++ [last]) = .ok r) :
    ∃ out, consume dflt last.msg = .ok out ∧ shown r.out = shown out := by
  induction front generalizing r with
  | nil =>
    rw [List.nil_append, handleProtoBuffRecv, bind_eq_ok] at h
    obtain ⟨out, hout, h⟩ := h
    refine ⟨out, hout, ?_⟩
    split_ifs at h
    · cases h
      exact congrArg shown (List.append_nil out)
    · cases h
      rfl
  | cons p front ih =>
    rw [List.cons_append, handleProtoBuffRecv, bind_eq_ok] at h
    obtain ⟨out, hout, h⟩ := h
    rw [if_pos (hcont p List.mem_cons_self), bind_eq_ok] at h
    obtain ⟨r', hr', hpure⟩ := h
    cases hpure
    obtain ⟨out', hout', hshown⟩ := ih (fun q hq => hcont q (List.mem_cons_of_mem _ hq))
      (fun q hq => hsize q (List.mem_cons_of_mem _ hq)) hr'
    refine ⟨out', hout', ?_⟩
    -- the message says that it has no rows
    have hnone : shown out = [] := by
      rcases shown_consume hout with hnil | htake
      · exact hnil
      · rw [htake, hsize p List.mem_cons_self]
        exact List.take_zero
    show shown (out ++ r'.out) = shown out'
    rw [shown_append, hnone, List.nil_append, hshown]

/-! ### The sender -/

variable [Add T]

/-- The variables before a bulk is filled: the message has no rows yet. -/
structure BulkStart (v : SendVars T) : Prop where
  total : v.totalBulkSz = 0
  flags : v.flags = msgCont ||| protocolProtobuf
  csvrow : v.protobufRespond.rows.csvrow = []
  size : v.protobufRespond.rows.size = 0

/-- The packages in which `rows` go out, from the variables `v` on. -/
structure SentRows (v : SendVars T) (rows : List Row) (front : List (Package T))
    (last : Package T) : Prop where
  cont : ∀ p ∈ front, p.cont = true
  size : ∀ p ∈ front, p.msg.rows.size = 0
  csvrow_ne_nil : ∀ p ∈ front, p.msg.rows.csvrow ≠ []
  last_cont : last.cont = false
  last_size : last.msg.rows.size = v.count + UInt32.ofNat rows.length
  last_type : front = [] → last.msg.type = v.protobufRespond.type
  csvrow : front.flatMap (fun p => p.msg.rows.csvrow) ++ last.msg.rows.csvrow = rows
  single : front = [] ↔ (splitBulk 0 rows).2 = []

omit [Add T] in
theorem BulkStart.csvrow_addRows {v : SendVars T} (hv : BulkStart v) (b : List Row) :
    (addRows v b).protobufRespond.rows.csvrow = b := by
  show v.protobufRespond.rows.csvrow ++ b = b
  rw [hv.csvrow, List.nil_append]

/-- The last bulk is a package of its own. -/
theorem SentRows.last_bulk (rs : ResultSet T) {v : SendVars T} (hv : BulkStart v) {b : List Row}
    (hsplit : (splitBulk 0 b).2 = []) : SentRows v b [] (package rs (addRows v b) true) where
  cont _ hp := absurd hp List.not_mem_nil
  size _ hp := absurd hp List.not_mem_nil
  csvrow_ne_nil _ hp := absurd hp List.not_mem_nil
  last_cont := cont_protobuf _
  last_size := rfl
  last_type _ := rfl
  csvrow := hv.csvrow_addRows b
  single := iff_of_true rfl hsplit

/-- A bulk to be continued goes before the packages of the rows that are left. -/
theorem SentRows.cons {rs : ResultSet T} {v : SendVars T} (hv : BulkStart v) {rows b : List Row}
    {r : Row} {rest : List Row} (hsplit : splitBulk 0 rows = (b, r :: rest)) (hb : b ≠ [])
    {front : List (Package T)} {last : Package T}
    (hrest : SentRows (afterTurn rs (addRows v b) false) (r :: rest) front last) :
    SentRows v rows (package rs (addRows v b) false :: front) last := by
  have happend : b ++ r :: rest = rows := by
    have happend := splitBulk_append 0 rows
    rwa [hsplit] at happend
  have hbulk := hv.csvrow_addRows b
  have hpackage : (package rs (addRows v b) false).cont = true := by
    show Package.cont ⟨v.flags, _⟩ = true
    rw [hv.flags]
    exact cont_both _
  have hcount : v.count + UInt32.ofNat b.length + UInt32.ofNat (r :: rest).length
      = v.count + UInt32.ofNat rows.length := by
    rw [← happend, List.length_append, UInt32.ofNat_add, UInt32.add_assoc]
  exact {
    cont := List.forall_mem_cons.mpr ⟨hpackage, hrest.cont⟩
    size := List.forall_mem_cons.mpr ⟨hv.size, hrest.size⟩
    csvrow_ne_nil := List.forall_mem_cons.mpr ⟨hbulk.symm ▸ hb, hrest.csvrow_ne_nil⟩
    last_cont := hrest.last_cont
    last_size := hrest.last_size.trans hcount
    last_type := fun hnil => absurd hnil (List.cons_ne_nil _ _)
    csvrow := by
      rw [List.flatMap_cons, List.append_assoc, hrest.csvrow, ← happend]
      exact congrArg (· ++ r :: rest) hbulk
    single := iff_of_false (List.cons_ne_nil _ _)
      (by rw [hsplit]; exact List.cons_ne_nil r rest) }

/-- **How a result set goes out.**  All rows are sent, in order, bulk after bulk; only the last bulk
has a size, and it is the number of all rows. -/
theorem whileLoop_bulkTurn (rs : ResultSet T) {rows : List Row} {v : SendVars T}
    (hv : BulkStart v) (hrows : rows ≠ []) {fuel : ℕ} (hfuel : rows.length < fuel) :
    ∃ v' front last, whileLoop notEndOfSet (bulkTurn rs) fuel (v, rows.map .row)
        = .ok (.inr (v', [])) ∧
      v'.sent = v.sent ++ front ++ [last] ∧ SentRows v rows front last := by
  induction fuel generalizing v rows with
  | zero => omega
  | succ fuel ih =>
    have hcond : notEndOfSet (v, rows.map RowFetch.row) = true :=
      notEndOfSet_iff.mpr (by simpa using hrows)
    have hturn := bulkTurn_rows rs v rows
    rw [hv.total] at hturn
    have happend := splitBulk_append 0 rows
    have hb := splitBulk_fst_ne_nil (by decide : (0 : UInt32) < maxTrxBufferSz) hrows
    obtain ⟨b, rest, hsplit⟩ : ∃ b rest, splitBulk 0 rows = (b, rest) := ⟨_, _, rfl⟩
    rw [hsplit] at hturn happend hb
    simp only at hturn happend hb
    rw [whileLoop_of_inr hcond hturn]
    rcases rest with _ | ⟨r, rest⟩
    · -- the last bulk
      rw [List.append_nil] at happend
      subst happend
      obtain ⟨fuel, rfl⟩ : ∃ n, fuel = n + 1 := by
        have hpos := List.length_pos_iff.mpr hrows
        exact ⟨fuel - 1, by omega⟩
      have hend : whileLoop notEndOfSet (bulkTurn rs) (fuel + 1)
          (afterTurn rs (addRows v b) true, []) = .ok (.inr (_, [])) :=
        whileLoop_of_not (notEndOfSet_eq_false.mpr rfl)
      refine ⟨_, [], package rs (addRows v b) true, hend, ?_,
        SentRows.last_bulk rs hv (congrArg Prod.snd hsplit)⟩
      show v.sent ++ [_] = v.sent ++ [] ++ [_]
      rw [List.append_nil]
    · -- a bulk to be continued
      have hlen : (r :: rest).length < fuel := by
        have hpos := List.length_pos_iff.mpr hb
        have hsum := congrArg List.length happend
        rw [List.length_append] at hsum
        omega
      have hstart : BulkStart (afterTurn rs (addRows v b) false) := ⟨rfl, hv.flags, rfl, rfl⟩
      obtain ⟨v', front, last, hrun, hsent, hrest⟩ := ih hstart (List.cons_ne_nil r rest) hlen
      refine ⟨v', package rs (addRows v b) false :: front, last, hrun, ?_,
        SentRows.cons hv hsplit hb hrest⟩
      rw [hsent]
      show v.sent ++ [_] ++ front ++ [last] = v.sent ++ (_ :: front) ++ [last]
      rw [List.append_assoc v.sent, List.singleton_append]

omit [Add T] in
/-- The rows left out of the messages before the last are lost, so the rows in the last one are all
rows only if it is the only one. -/
theorem SentRows.eq_nil_of_take {v : SendVars T} {rows : List Row} {front : List (Package T)}
    {last : Package T} (h : SentRows v rows front last) {n : ℕ}
    (htake : last.msg.rows.csvrow.take n = rows) : front = [] := by
  rcases front with _ | ⟨p, front⟩
  · rfl
  · have hp := List.length_pos_iff.mpr (h.csvrow_ne_nil p List.mem_cons_self)
    have hlen := congrArg List.length h.csvrow
    have hle := congrArg List.length htake
    rw [List.flatMap_cons, List.length_append, List.length_append] at hlen
    rw [List.length_take] at hle
    omega

/-- The answer to a query whose rows can all be fetched. -/
theorem handleProtoBuffSend_rows {rs : ResultSet T} {rows : List Row}
    (hrows : rs.fetches = rows.map .row) (hne : rows ≠ []) :
    ∃ m front last, handleProtoBuffSend (.resultSet rs) = .ok ⟨front ++ [last], m, none⟩ ∧
      SentRows (startVars rs) rows front last := by
  have hstart : BulkStart (startVars rs) := ⟨rfl, rfl, rfl, rfl⟩
  obtain ⟨v', front, last, hrun, hsent, hrest⟩ :=
    whileLoop_bulkTurn rs hstart hne (Nat.lt_succ_self rows.length)
  refine ⟨v'.protobufRespond, front, last, ?_, hrest⟩
  have hlen : rs.fetches.length = rows.length := by rw [hrows, List.length_map]
  rw [handleProtoBuffSend, hlen, hrows, hrun]
  show Except.ok (⟨v'.sent, _, _⟩ : Answer T) = _
  rw [hsent]
  rfl

omit [Add T] in
theorem SentRows.toNat_size {rs : ResultSet T} {rows : List Row} {front : List (Package T)}
    {last : Package T} (h : SentRows (startVars rs) rows front last) :
    last.msg.rows.size.toNat = rows.length % 4294967296 := by
  rw [h.last_size]
  show (0 + UInt32.ofNat rows.length).toNat = _
  rw [UInt32.zero_add, UInt32.toNat_ofNat']

theorem single_of_rowsDelivered {dflt : Defaults} {rs : ResultSet T} {rows : List Row}
    (hrows : rs.fetches = rows.map .row) (hne : rows ≠ []) (h : RowsDelivered dflt rs rows) :
    rows.length < 4294967296 ∧ (splitBulk 0 rows).2 = [] := by
  obtain ⟨m, front, last, hsend, hsent⟩ := handleProtoBuffSend_rows hrows hne
  obtain ⟨r, hr, hshown⟩ := h _ hsend rfl
  obtain ⟨out, hout, heq⟩ := shown_received hsent.cont hsent.size hr
  rcases shown_consume hout with hnil | htake
  · exact absurd (hshown.symm.trans (heq.trans hnil)) hne
  · -- the last message says how many rows there are, modulo `2 ^ 32`
    rw [← heq, hshown] at htake
    have hle := congrArg List.length htake
    rw [List.length_take, hsent.toNat_size] at hle
    have hmod := Nat.mod_lt rows.length (by decide : 0 < 4294967296)
    exact ⟨by omega, hsent.single.mp (hsent.eq_nil_of_take htake.symm)⟩

theorem rowsDelivered_of_single {dflt : Defaults} {rs : ResultSet T} {rows : List Row}
    (hrows : rs.fetches = rows.map .row) (hne : rows ≠ []) (hlt : rows.length < 4294967296)
    (hsplit : (splitBulk 0 rows).2 = []) : RowsDelivered dflt rs rows := by
  obtain ⟨m, front, last, hsend, hsent⟩ := handleProtoBuffSend_rows hrows hne
  obtain rfl := hsent.single.mpr hsplit
  intro a ha _
  cases hsend.symm.trans ha
  -- a single package: its message has all rows and their number
  have hcsv : last.msg.rows.csvrow = rows := hsent.csvrow
  have htype : last.msg.type = some .RESULT := hsent.last_type rfl
  obtain ⟨out, hout, hshown⟩ := consume_result dflt htype
    (by rw [hsent.toNat_size, hcsv, Nat.mod_eq_of_lt hlt])
  refine ⟨⟨out, false, []⟩, ?_, hshown.trans hcsv⟩
  rw [List.nil_append, handleProtoBuffRecv, hout, ok_bind, if_neg]
  · rfl
  · rw [hsent.last_cont]
    exact Bool.false_ne_true

/-- **Every row reaches the client**, when all rows can be fetched, if and only if fewer than `2 ^
32` rows go out in a single bulk: the rows before the last have, in 32 bits, less than 2 Mb. -/
theorem rowsDelivered_iff (dflt : Defaults) {rs : ResultSet T} {rows : List Row}
    (hrows : rs.fetches = rows.map .row) :
    RowsDelivered dflt rs rows ↔ rows.length < 4294967296 ∧
      ∀ n < rows.length, bytes (rows.take n) % 4294967296 < 2097152 := by
  have hsingle : (splitBulk 0 rows).2 = [] ↔
      ∀ n < rows.length, bytes (rows.take n) % 4294967296 < 2097152 := by
    rw [splitBulk_snd_eq_nil_iff]
    refine forall₂_congr fun n _ => ?_
    rw [UInt32.zero_add, UInt32.lt_iff_toNat_lt, UInt32.toNat_ofNat']
    rfl
  rw [← hsingle]
  rcases eq_or_ne rows [] with rfl | hne
  · -- without rows, nothing is sent and nothing is shown
    refine iff_of_true ?_ ⟨by decide, rfl⟩
    intro a ha _
    rw [handleProtoBuffSend, hrows] at ha
    cases ha
    exact ⟨_, rfl, rfl⟩
  · exact ⟨single_of_rowsDelivered hrows hne,
      fun h => rowsDelivered_of_single hrows hne h.1 h.2⟩

/-! ### Two result sets -/

/-- A result set of the given rows. -/
def resultSetOf (rows : List Row) : ResultSet ℕ :=
  ⟨rows.length, rows.map .row, 1, 1, 1, 1, [⟨"id", "id", 0, "t"⟩]⟩

theorem rowsDelivered_two_rows :
    RowsDelivered ⟨.STATUS, .FAILURE⟩ (resultSetOf [[0x31], [0x32]]) [[0x31], [0x32]] :=
  (rowsDelivered_iff _ rfl).mpr ⟨by decide, by decide⟩

/-- A row of 2 Mb, and another row. -/
def bigRows : List Row := [List.replicate 2097152 0x30, [0x31]]

/-- The first row is in a message without a size, which is read as a result with no rows, and
lost. -/
theorem not_rowsDelivered_bigRows :
    ¬RowsDelivered ⟨.RESULT, .FAILURE⟩ (resultSetOf bigRows) bigRows := by
  obtain ⟨big, hbig, hlen⟩ : ∃ big : Row, bigRows = [big, [0x31]] ∧ big.length = 2097152 :=
    ⟨_, rfl, List.length_replicate⟩
  rw [hbig]
  intro h
  obtain ⟨_, hsplit⟩ := single_of_rowsDelivered rfl (List.cons_ne_nil _ _) h
  have hlt := splitBulk_snd_eq_nil_iff.mp hsplit 1 (by decide : 1 < 2)
  have hbytes : bytes (([big, [0x31]] : List Row).take 1) = 2097152 := by
    show big.length + 0 = 2097152
    rw [hlen]
  rw [hbytes] at hlt
  exact absurd hlt (by decide)

end Lab1.Task1
