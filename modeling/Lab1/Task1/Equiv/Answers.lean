import Lab1.Task1.Equiv.Bulks

/-!
# The end of an answer

The receiver reads packages until one comes without `msgCont`.  The sender leaves the flag out only
in the package with the last row, so nothing ends the answer when there are no rows, and nothing
does when an exception is thrown: the `catch` handlers fill in the message and do not send it.
-/

namespace Lab1.Task1

open BulkDataOutStreamMngr

variable {T : Type}

/-! ### The property -/

/-- The packages end where the receiver stops reading: with the last of them, and not before. -/
def Terminated (ps : List (Package T)) : Prop :=
  ∃ front last, ps = front ++ [last] ∧ (∀ p ∈ front, p.cont = true) ∧ last.cont = false

/-- The client gets an answer that ends. -/
def Answered [Add T] (outcome : QueryOutcome T) : Prop :=
  ∃ a, handleProtoBuffSend outcome = .ok a ∧ Terminated a.sent

/-- The two values of the flags that are sent. -/
theorem cont_protobuf (m : Respond T) : (⟨protocolProtobuf, m⟩ : Package T).cont = false := by
  show (protocolProtobuf &&& msgCont != 0) = false
  decide

theorem cont_both (m : Respond T) :
    (⟨msgCont ||| protocolProtobuf, m⟩ : Package T).cont = true := by
  show ((msgCont ||| protocolProtobuf) &&& msgCont != 0) = true
  decide

theorem Terminated.exists_not_cont {ps : List (Package T)} (h : Terminated ps) :
    ∃ p ∈ ps, p.cont = false := by
  obtain ⟨front, last, rfl, _, hlast⟩ := h
  exact ⟨last, List.mem_append_right _ (List.mem_singleton_self last), hlast⟩

theorem not_terminated_nil : ¬Terminated ([] : List (Package T)) := by
  intro hterm
  obtain ⟨p, hp, _⟩ := hterm.exists_not_cont
  exact List.not_mem_nil hp

/-- Where every package is to be continued, no package ends the answer. -/
theorem not_terminated_of_cont {ps : List (Package T)} (hcont : ∀ p ∈ ps, p.cont = true) :
    ¬Terminated ps := by
  intro hterm
  obtain ⟨p, hp, hlast⟩ := hterm.exists_not_cont
  rw [hcont p hp] at hlast
  cases hlast

/-- The receiver reads an answer that ends up to its last package, and does not wait for more. -/
theorem Terminated.received {dflt : Defaults} {ps : List (Package T)} (h : Terminated ps)
    {r : Received T} (hr : handleProtoBuffRecv dflt ps = .ok r) :
    r.waiting = false ∧ r.left = [] := by
  obtain ⟨front, last, rfl, hfront, hlast⟩ := h
  induction front generalizing r with
  | nil =>
    rw [List.nil_append, handleProtoBuffRecv, bind_eq_ok] at hr
    obtain ⟨out, _, hr⟩ := hr
    rw [if_neg (by rw [hlast]; exact Bool.false_ne_true)] at hr
    cases hr
    exact ⟨rfl, rfl⟩
  | cons p front ih =>
    rw [List.cons_append, handleProtoBuffRecv, bind_eq_ok] at hr
    obtain ⟨out, _, hr⟩ := hr
    rw [if_pos (hfront p List.mem_cons_self), bind_eq_ok] at hr
    obtain ⟨r', hr', hpure⟩ := hr
    cases hpure
    have hrest := ih hr' fun q hq => hfront q (List.mem_cons_of_mem _ hq)
    exact hrest

/-! ### The loop over the bulks -/

variable [Add T]

/-- What holds before and after every turn: the rows fetched so far were all there, and as long as
there is more to fetch, every package has gone out with `msgCont`. -/
structure Sending (rs : ResultSet T) (s : SendVars T × List RowFetch) : Prop where
  total : s.1.totalBulkSz = 0
  fetched : ∃ b : List Row, rs.fetches = b.map .row ++ s.2
  flags : s.2 ≠ [] → s.1.flags = msgCont ||| protocolProtobuf
  cont : s.2 ≠ [] → ∀ p ∈ s.1.sent, p.cont = true
  done : s.2 = [] → rs.fetches = [] ∧ s.1.sent = [] ∨ rs.fetches ≠ [] ∧ Terminated s.1.sent

omit [Add T] in
theorem sending_start (rs : ResultSet T) : Sending rs (startVars rs, rs.fetches) where
  total := rfl
  fetched := ⟨[], rfl⟩
  flags _ := rfl
  cont _ := fun _ hp => absurd hp List.not_mem_nil
  done h := Or.inl ⟨h, rfl⟩

/-- A turn sends the last package if it fetches the last row, and one to be continued otherwise. -/
theorem Sending.turn {rs : ResultSet T} {v v' : SendVars T} {fs rest : List RowFetch}
    (h : Sending rs (v, fs)) (hne : fs ≠ []) (hfill : fillBulk fs v = .inr (v', rest)) :
    Sending rs (afterTurn rs v' rest.isEmpty, rest) ∧ rest.length < fs.length := by
  obtain ⟨b, rfl, rfl, hb⟩ := fillBulk_inr hfill
  obtain ⟨b₀, hfetched⟩ := h.fetched
  have htotal : v.totalBulkSz = 0 := h.total
  have hb : b ≠ [] := hb (by rw [htotal]; decide) hne
  have hflags : v.flags = msgCont ||| protocolProtobuf := h.flags hne
  have hcont : ∀ p ∈ v.sent, p.cont = true := h.cont hne
  -- the fetches so far, the flags, the packages before the last turn, the last turn, the measure
  refine ⟨⟨rfl, ⟨b₀ ++ b, ?_⟩, fun hrest => ?_, fun hrest => ?_, ?_⟩, ?_⟩
  · rw [hfetched, List.map_append, List.append_assoc]
  · show (if rest.isEmpty then protocolProtobuf else v.flags) = _
    rw [if_neg (by simpa using hrest), hflags]
  · show ∀ p ∈ v.sent ++ [package rs (addRows v b) rest.isEmpty], p.cont = true
    intro p hp
    rcases List.mem_append.mp hp with hp | hp
    · exact hcont p hp
    · have hlast : rest.isEmpty = false := by simpa using hrest
      rw [List.mem_singleton, hlast] at hp
      subst hp
      show Package.cont ⟨v.flags, _⟩ = true
      rw [hflags]
      exact cont_both _
  · rintro rfl
    have hfetches : rs.fetches ≠ [] := by
      rw [hfetched]
      exact List.append_ne_nil_of_right_ne_nil _ hne
    exact Or.inr ⟨hfetches, v.sent, _, rfl, hcont, cont_protobuf _⟩
  · rw [List.length_append, List.length_map]
    have hpos := List.length_pos_iff.mpr hb
    omega

/-- The answer to a query with a result set.  If a fetch fails, all packages sent are to be
continued; otherwise the answer is terminated, or nothing is sent at all. -/
theorem handleProtoBuffSend_resultSet (rs : ResultSet T) :
    ∃ a, handleProtoBuffSend (.resultSet rs) = .ok a ∧
      (((∃ e, .raise e ∈ rs.fetches) ∧ ∀ p ∈ a.sent, p.cont = true) ∨
        ((∃ b : List Row, rs.fetches = b.map .row) ∧
          (rs.fetches = [] ∧ a.sent = [] ∨ rs.fetches ≠ [] ∧ Terminated a.sent))) := by
  have hloop := whileLoop_total notEndOfSet (bulkTurn rs) (Sending rs)
    (fun x => (∃ e, .raise e ∈ rs.fetches) ∧ ∀ p ∈ x.2.sent, p.cont = true)
    (fun s => s.2.length) ?_ (sending_start rs) (Nat.lt_succ_self _)
  · rw [handleProtoBuffSend]
    rcases hloop with ⟨⟨e, v⟩, hrun, hP⟩ | ⟨⟨v, rest⟩, hrun, hI, hcond⟩
    · rw [hrun]
      exact ⟨_, rfl, Or.inl hP⟩
    · rw [hrun]
      have hrest : rest = [] := notEndOfSet_eq_false.mp hcond
      obtain ⟨b, hb⟩ := hI.fetched
      refine ⟨_, rfl, Or.inr ⟨⟨b, ?_⟩, hI.done hrest⟩⟩
      rw [hb, hrest, List.append_nil]
  · rintro ⟨v, fs⟩ hs hcond
    have hne : fs ≠ [] := notEndOfSet_iff.mp hcond
    rcases hfill : fillBulk fs v with ⟨e, v'⟩ | ⟨v', rest⟩
    · obtain ⟨hmem, hsent⟩ := fillBulk_inl hfill
      obtain ⟨b, hb⟩ := hs.fetched
      have hraise : .raise e ∈ rs.fetches := hb ▸ List.mem_append_right _ hmem
      have hcont : ∀ p ∈ v'.sent, p.cont = true := hsent ▸ hs.cont hne
      exact Or.inl ⟨_, bulkTurn_of_inl hfill, ⟨e, hraise⟩, hcont⟩
    · exact Or.inr ⟨_, bulkTurn_of_inr hfill, hs.turn hne hfill⟩

theorem answered_iff_terminated {outcome : QueryOutcome T} {a : Answer T}
    (ha : handleProtoBuffSend outcome = .ok a) : Answered outcome ↔ Terminated a.sent := by
  constructor
  · rintro ⟨a', ha', hterm⟩
    obtain rfl : a = a' := Except.ok.inj (ha.symm.trans ha')
    exact hterm
  · exact fun hterm => ⟨a, ha, hterm⟩

/-- A result set is sent and terminated when it has rows, and all of them are fetched. -/
theorem answered_resultSet_iff (rs : ResultSet T) :
    Answered (.resultSet rs) ↔ rs.fetches ≠ [] ∧ ∀ f ∈ rs.fetches, ∃ r, f = .row r := by
  obtain ⟨a, ha, hcases⟩ := handleProtoBuffSend_resultSet rs
  rw [answered_iff_terminated ha]
  rcases hcases with ⟨⟨e, he⟩, hcont⟩ | ⟨⟨b, hb⟩, hsent⟩
  · -- a failed fetch
    refine iff_of_false (not_terminated_of_cont hcont) fun h => ?_
    obtain ⟨r, hr⟩ := h.2 _ he
    cases hr
  · have hall : ∀ f ∈ rs.fetches, ∃ r, f = .row r := by
      intro f hf
      rw [hb] at hf
      obtain ⟨r, _, rfl⟩ := List.mem_map.mp hf
      exact ⟨r, rfl⟩
    rw [and_iff_left hall]
    rcases hsent with ⟨hnil, hsent⟩ | ⟨hne, hterm⟩
    · -- no rows, and no package
      rw [hsent, hnil]
      exact iff_of_false not_terminated_nil (not_not_intro rfl)
    · -- the last turn has ended the answer
      exact iff_of_true hterm hne

/-- **Every query is answered** by packages that end where the receiver stops, if and only if
`executeQuery` gives no result set, or one that has rows, all of which can be fetched. -/
theorem answered_iff (outcome : QueryOutcome T) :
    Answered outcome ↔ outcome = .null ∨
      ∃ rs, outcome = .resultSet rs ∧ rs.fetches ≠ [] ∧ ∀ f ∈ rs.fetches, ∃ r, f = .row r := by
  rcases outcome with _ | e | rs
  · -- a single package, with the status
    refine iff_of_true ⟨_, rfl, [], _, rfl, ?_, cont_protobuf _⟩ (Or.inl rfl)
    exact fun _ hp => absurd hp List.not_mem_nil
  · -- no package, as the handler does not send its message
    rw [answered_iff_terminated rfl]
    refine iff_of_false not_terminated_nil ?_
    rintro (h | ⟨rs, h, _⟩)
    · cases h
    · cases h
  · rw [answered_resultSet_iff, or_iff_right (by rintro ⟨⟩)]
    constructor
    · exact fun h => ⟨rs, rfl, h⟩
    · rintro ⟨_, ⟨⟩, h⟩
      exact h

/-! ### A query without rows -/

/-- A result set without rows. -/
def emptyResultSet : ResultSet ℕ := ⟨0, [], 1, 1, 1, 1, [⟨"id", "id", 0, "t"⟩]⟩

/-- Nothing is sent, and the client waits. -/
theorem not_answered_emptyResultSet : ¬Answered (.resultSet emptyResultSet) := by
  rintro ⟨a, ha, hterm⟩
  have hsent : a.sent = [] := by
    cases ha
    rfl
  rw [hsent] at hterm
  exact not_terminated_nil hterm

end Lab1.Task1
