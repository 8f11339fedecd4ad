import Lab1.Task1.Equiv.Transmission

/-!
# The transmit limit

The inner loop tests the limit before a row is fetched, and does not know how long the row is.  A
bulk that is not the last one is therefore closed only when its rows have reached the limit, and the
row that reaches it may go beyond.

`WithinLimit` says for which calls of `getNextCSVRow` this does no harm: a bulk is closed by a row
that is alone in it, or exactly at the limit.  `keepsLimit_iff` shows that these are all.
-/

namespace Lab1.Task1

open BulkDataOutStreamMngr

variable {T : Type}

/-! ### The property -/

/-- The rows have at most the limit together, or are a single row that is longer by itself. -/
def FitsLimit (rows : List Row) : Prop :=
  bytes rows ≤ 2097152 ∨ ∃ r, rows = [r] ∧ 2097152 < r.length

/-- No package of the answer crosses the limit. -/
def KeepsLimit [Add T] (rs : ResultSet T) : Prop :=
  ∃ a, handleProtoBuffSend (.resultSet rs) = .ok a ∧ ∀ p ∈ a.sent, FitsLimit p.msg.rows.csvrow

/-- Counted in 32 bits, the rows of a bulk are below the limit. -/
def Below (b : List Row) : Prop := bytes b % 4294967296 < 2097152

/-- The calls of `getNextCSVRow` for which bulks do not cross the limit. -/
inductive WithinLimit : List RowFetch → Prop
  /-- the rows go out in a bulk that is the last, or in parts of it -/
  | last {b : List Row} (hfits : FitsLimit b) : WithinLimit (b.map .row)
  /-- the rows do not go out, as a fetch fails before the limit is reached -/
  | raised {b : List Row} {e : Raised} {rest : List RowFetch}
      (hbelow : ∀ n ≤ b.length, Below (b.take n)) : WithinLimit (b.map .row ++ .raise e :: rest)
  /-- a row reaches the limit by itself -/
  | single {r : Row} {rest : List RowFetch} (hfull : ¬Below [r]) (hrest : WithinLimit rest) :
      WithinLimit (.row r :: rest)
  /-- the last of some rows reaches the limit exactly -/
  | full {b : List Row} {rest : List RowFetch} (hfull : bytes b = 2097152)
      (hlast : bytes b.dropLast < 2097152) (hrest : WithinLimit rest) :
      WithinLimit (b.map .row ++ rest)

/-! ### One bulk -/

theorem fitsLimit_of_length_le_one {b : List Row} (h : b.length ≤ 1) : FitsLimit b := by
  rcases b with _ | ⟨r, _ | ⟨r', b⟩⟩
  · exact Or.inl (Nat.zero_le _)
  · rcases Nat.lt_or_ge 2097152 r.length with hlt | hle
    · exact Or.inr ⟨r, rfl, hlt⟩
    · exact Or.inl hle
  · simp at h

/-- What fits goes on to do so when rows are left out before and after. -/
theorem FitsLimit.of_infix {b b' : List Row} (h : FitsLimit b) (hsub : b' <:+: b) :
    FitsLimit b' := by
  rcases h with hle | ⟨r, rfl, _⟩
  · obtain ⟨front, back, rfl⟩ := hsub
    rw [bytes_append, bytes_append] at hle
    exact Or.inl (by omega)
  · exact fitsLimit_of_length_le_one hsub.length_le

theorem below_nil : Below [] := by
  show (0 : ℕ) < 2097152
  decide

theorem below_iff {v : SendVars T} (hv : Clear v) (b : List Row) :
    Below b ↔ v.totalBulkSz + UInt32.ofNat (bytes b) < maxTrxBufferSz := by
  rw [hv.total, UInt32.zero_add, UInt32.lt_iff_toNat_lt, UInt32.toNat_ofNat']
  rfl

/-- Where all rows but the last are below the limit, so are fewer rows. -/
theorem below_take {b : List Row} (hlast : bytes b.dropLast < 2097152) {n : ℕ}
    (hn : n < b.length) : Below (b.take n) := by
  have htake : b.take n = b.dropLast.take n := by
    rw [List.dropLast_eq_take, List.take_take, Nat.min_eq_left (by omega)]
  have hsum := congrArg bytes (List.take_append_drop n b.dropLast)
  rw [bytes_append] at hsum
  rw [Below, htake]
  omega

/-- A bulk of several rows that is closed, and crosses no limit, has reached it exactly. -/
theorem WithinLimit.closed {b : List Row} {rest : List RowFetch} (hfits : FitsLimit b)
    (hbelow : ∀ n < b.length, Below (b.take n)) (hfull : ¬Below b) (hrest : WithinLimit rest) :
    WithinLimit (b.map .row ++ rest) := by
  rcases hfits with hle | ⟨r, rfl, _⟩
  · have hb : bytes b = 2097152 := by
      rw [Below] at hfull
      omega
    have hne : b ≠ [] := by
      rintro rfl
      cases hb
    have hlast : Below b.dropLast := by
      rw [List.dropLast_eq_take]
      exact hbelow _ (Nat.sub_lt (List.length_pos_iff.mpr hne) Nat.one_pos)
    have hsum := congrArg bytes (List.dropLast_append_getLast hne)
    rw [bytes_append] at hsum
    rw [Below] at hlast
    exact .full hb (by omega) hrest
  · exact .single hfull hrest

section Packages

variable [Add T] {rs : ResultSet T} {v : SendVars T} {fs : List RowFetch} {ps : List (Package T)}

/-- When a fetch fails, the rows before it are not sent. -/
theorem Sent.of_inl (h : Sent rs v fs ps) {caught : Raised × SendVars T}
    (hfill : fillBulk fs v = .inl caught) : ps = [] := by
  cases h with
  | done => rfl
  | raised _ => rfl
  | turn _ hfill' _ =>
    rw [hfill] at hfill'
    cases hfill'

theorem Sent.of_inr (h : Sent rs v fs ps) (hne : fs ≠ []) {v' : SendVars T} {rest : List RowFetch}
    (hfill : fillBulk fs v = .inr (v', rest)) :
    ∃ ps', ps = package rs v' rest.isEmpty :: ps' ∧
      Sent rs (afterTurn rs v' rest.isEmpty) rest ps' := by
  cases h with
  | done => exact absurd rfl hne
  | raised hfill' =>
    rw [hfill] at hfill'
    cases hfill'
  | turn _ hfill' hrest =>
    rw [hfill] at hfill'
    cases hfill'
    exact ⟨_, rfl, hrest⟩

/-- Rows that reach the limit, and not before the last of them, go out in a package. -/
theorem Sent.of_full {b : List Row} {rest : List RowFetch}
    (h : Sent rs v (b.map .row ++ rest) ps) (hv : Clear v)
    (hbelow : ∀ n < b.length, Below (b.take n)) (hfull : ¬Below b) :
    ∃ p ps' v', ps = p :: ps' ∧ p.msg.rows.csvrow = b ∧ Clear v' ∧ Sent rs v' rest ps' := by
  have hne : b.map RowFetch.row ++ rest ≠ [] := by
    intro hnil
    obtain ⟨hb, _⟩ := List.append_eq_nil_iff.mp hnil
    obtain rfl : b = [] := List.map_eq_nil_iff.mp hb
    exact hfull below_nil
  have hroom : ¬(addRows v b).totalBulkSz < maxTrxBufferSz := (below_iff hv b).not.mp hfull
  have hfill : fillBulk (b.map .row ++ rest) v = .inr (addRows v b, rest) := by
    rw [fillBulk_append _ fun n hn => (below_iff hv _).mp (hbelow n hn), fillBulk_of_le _ hroom]
  obtain ⟨ps', rfl, hrest⟩ := h.of_inr hne hfill
  exact ⟨_, ps', _, rfl, hv.csvrow_package rs b _, clear_afterTurn rs _ _, hrest⟩

/-- Rows that go out before a fetch fails below the limit: none. -/
theorem Sent.of_raised {b : List Row} {e : Raised} {rest : List RowFetch}
    (h : Sent rs v (b.map .row ++ .raise e :: rest) ps) (hv : Clear v)
    (hbelow : ∀ n ≤ b.length, Below (b.take n)) : ps = [] := by
  have hroom : (addRows v b).totalBulkSz < maxTrxBufferSz := by
    rw [← List.take_length (l := b)]
    exact (below_iff hv _).mp (hbelow _ (Nat.le_refl _))
  have hfill : fillBulk (b.map .row ++ .raise e :: rest) v = .inl (e, addRows v b) := by
    rw [fillBulk_append _ fun n hn => (below_iff hv _).mp (hbelow n (Nat.le_of_lt hn)), fillBulk,
      if_pos hroom]
  exact h.of_inl hfill

theorem Sent.fitsLimit (hw : WithinLimit fs) (h : Sent rs v fs ps) (hv : Clear v) :
    ∀ p ∈ ps, FitsLimit p.msg.rows.csvrow := by
  induction hw generalizing v ps with
  | @last b hfits =>
    intro p hp
    have hsub : p.msg.rows.csvrow <:+: (ps.map fun p => p.msg.rows.csvrow).flatten :=
      List.infix_of_mem_flatten (List.mem_map_of_mem hp)
    rw [← List.flatMap_def, h.csvrow hv] at hsub
    exact hfits.of_infix hsub
  | raised hbelow =>
    rw [h.of_raised hv hbelow]
    exact fun p hp => absurd hp List.not_mem_nil
  | @single r rest hfull _ ih =>
    have hbelow : ∀ n < [r].length, Below ([r].take n) := by
      intro n hn
      obtain rfl : n = 0 := Nat.lt_one_iff.mp hn
      exact below_nil
    have hsent : Sent rs v ([r].map .row ++ rest) ps := h
    obtain ⟨p, ps', v', rfl, hp, hv', hrest⟩ := hsent.of_full hv hbelow hfull
    refine List.forall_mem_cons.mpr ⟨?_, ih hrest hv'⟩
    rw [hp]
    exact fitsLimit_of_length_le_one (Nat.le_refl _)
  | @full b rest hfull hlast _ ih =>
    have hreached : ¬Below b := by
      rw [Below, hfull]
      decide
    obtain ⟨p, ps', v', rfl, hp, hv', hrest⟩ :=
      h.of_full hv (fun _ hn => below_take hlast hn) hreached
    refine List.forall_mem_cons.mpr ⟨?_, ih hrest hv'⟩
    rw [hp]
    exact Or.inl (Nat.le_of_eq hfull)

theorem Sent.withinLimit (h : Sent rs v fs ps) (hv : Clear v)
    (hfits : ∀ p ∈ ps, FitsLimit p.msg.rows.csvrow) : WithinLimit fs := by
  induction hn : fs.length using Nat.strongRecOn generalizing v fs ps with
  | _ n ih =>
    obtain ⟨b, rest, rfl, hroom, hend⟩ := exists_bulk fs v.totalBulkSz
    have hbelow : ∀ n < b.length, Below (b.take n) := fun n hn => (below_iff hv _).mpr (hroom n hn)
    rcases hend with rfl | hfull | ⟨hlt, e, rest, rfl⟩
    · -- there is nothing more to fetch
      have hfill : fillBulk (b.map .row ++ []) v = .inr (addRows v b, []) :=
        fillBulk_append [] hroom
      rw [List.append_nil] at h hfill ⊢
      rcases eq_or_ne b [] with rfl | hne
      · exact .last (fitsLimit_of_length_le_one (Nat.zero_le 1))
      · obtain ⟨ps', rfl, _⟩ := h.of_inr (fun hnil => hne (List.map_eq_nil_iff.mp hnil)) hfill
        have hb := hfits _ List.mem_cons_self
        rw [hv.csvrow_package] at hb
        exact .last hb
    · -- the bulk is closed
      have hfull : ¬Below b := (below_iff hv b).not.mpr (UInt32.not_lt.mpr hfull)
      obtain ⟨p, ps, v', rfl, hp, hv', hrest⟩ := h.of_full hv hbelow hfull
      obtain ⟨hfits, hleft⟩ := List.forall_mem_cons.mp hfits
      rw [hp] at hfits
      have hpos : 0 < b.length := by
        apply List.length_pos_iff.mpr
        rintro rfl
        exact hfull below_nil
      have hlen : rest.length < n := by
        rw [List.length_append, List.length_map] at hn
        omega
      exact WithinLimit.closed hfits hbelow hfull (ih _ hlen hrest hv' hleft rfl)
    · -- a fetch fails while there is room
      refine .raised fun n hn => ?_
      rcases Nat.lt_or_eq_of_le hn with hlt' | rfl
      · exact hbelow n hlt'
      · rw [List.take_length]
        exact (below_iff hv b).mpr hlt

/-- **The transmit limit** is kept if and only if the rows fall into bulks each of which is closed
by a row that is alone in it or reaches the limit exactly, up to a last one that fits or is not
sent. -/
theorem keepsLimit_iff (rs : ResultSet T) : KeepsLimit rs ↔ WithinLimit rs.fetches := by
  obtain ⟨a, ha, _⟩ := handleProtoBuffSend_resultSet rs
  have hsent := sent_of_eq_ok ha
  constructor
  · rintro ⟨a', ha', hfits⟩
    exact (sent_of_eq_ok ha').withinLimit (clear_startVars rs) hfits
  · exact fun hw => ⟨a, ha, hsent.fitsLimit hw (clear_startVars rs)⟩

end Packages

/-! ### A row behind another -/

/-- A row of one byte, and a row of 2 Mb. -/
def crossingRows : List Row := [[0x31], List.replicate 2097152 0x30]

/-- Both rows are in one package. -/
theorem not_keepsLimit_crossingRows : ¬KeepsLimit (resultSetOf crossingRows) := by
  obtain ⟨big, hbig, hlen⟩ : ∃ big : Row, crossingRows = [[0x31], big] ∧ big.length = 2097152 :=
    ⟨_, rfl, List.length_replicate⟩
  rw [hbig]
  rintro ⟨a, ha, hfits⟩
  have hrows : (resultSetOf [[0x31], big]).fetches = [[0x31], big].map .row := rfl
  obtain ⟨m, front, last, hsend, hsent⟩ := handleProtoBuffSend_rows hrows (List.cons_ne_nil _ _)
  cases hsend.symm.trans ha
  have hsplit : (splitBulk 0 [[0x31], big]).2 = [] := by
    rw [splitBulk_snd_eq_nil_iff]
    intro n hn
    rcases n with _ | _ | n
    · show (0 : UInt32) + UInt32.ofNat 0 < maxTrxBufferSz
      decide
    · show (0 : UInt32) + UInt32.ofNat 1 < maxTrxBufferSz
      decide
    · have hlt : n + 2 < 2 := hn
      omega
  obtain rfl := hsent.single.mpr hsplit
  have hcsv : last.msg.rows.csvrow = [[0x31], big] := hsent.csvrow
  have hlast := hfits last List.mem_cons_self
  rw [hcsv] at hlast
  rcases hlast with hle | ⟨r, hr, _⟩
  · have hbytes : bytes [[0x31], big] = 1 + big.length := rfl
    omega
  · cases hr

end Lab1.Task1
