import Lab1.MemDb.Equiv.DataStructs

/-!
# `Stack` as a bounded stack

After `init(n)` a `Stack` is a list of at most `n` values, the top first: every call returns what
the call on the list results in, `INV_LOCATION` standing for a push that is refused and for a pop of
nothing, and no call reaches `pstack` from `n` on (`stack_refinesLifo`).
-/

namespace Lab1.MemDb.Stack

/-! ### The property -/

/-- How a result is returned. -/
def code : Lifo.Result ℕ → Option ℕ
  | .pushed => some 0
  | .full => some invLocation
  | .popped x => some x
  | .empty => some invLocation
  | .cleared => none

/-- The list after the calls, and what they result in. -/
def lifo (n : ℕ) (calls : List (Lifo.Call ℕ)) : List ℕ × List (Lifo.Result ℕ) :=
  replay (Lifo.step n) [] calls

/-- `init(n)` and the calls after it. -/
def run (s : Stack) (n : ℕ) (calls : List (Lifo.Call ℕ)) :
    Except Fault (Stack × List (Option ℕ)) := do
  let s ← s.init n
  exec call s calls

/-- The call reads and changes `pstack` at the index `accessed` gives, and nowhere else: with other
values elsewhere it does the same and leaves these as they are. -/
structure AccessesOnly (s : Stack) (c : Lifo.Call ℕ) : Prop where
  changes : ∀ t r, s.call c = .ok (t, r) → ∀ i, s.accessed c ≠ some i → t.pstack i = s.pstack i
  reads : ∀ t r p, s.call c = .ok (t, r) → (∀ i, s.accessed c = some i → p i = s.pstack i) →
    ∃ q, call { s with pstack := p } c = .ok ({ t with pstack := q }, r) ∧
      ∀ i, q i = if s.accessed c = some i then t.pstack i else p i

/-- The stack does what a list of at most `n` values does. -/
structure RefinesLifo (s : Stack) (n : ℕ) (calls : List (Lifo.Call ℕ)) : Prop where
  agrees : ∃ t, s.run n calls = .ok (t, (lifo n calls).2.map code) ∧
    t.getCapacity = (lifo n calls).1.length
  below : ∀ pre c post t outs, calls = pre ++ c :: post → s.run n pre = .ok (t, outs) →
    t.AccessesOnly c ∧ ∀ i, t.accessed c = some i → i < n
  pop_iff : (∀ x, .push x ∈ calls → x ≠ invLocation) → ∀ pre post t outs t' r,
    calls = pre ++ .pop :: post → s.run n pre = .ok (t, outs) → t.call .pop = .ok (t', r) →
      (r = some invLocation ↔ t.getCapacity = 0)

/-! ### One call -/

/-- The values of the list are in `pstack`. -/
structure Holds (n : ℕ) (s : Stack) (xs : List ℕ) : Prop where
  sz : s.sz = n
  le : s.capacity ≤ n
  stacked : Lifo.stacked s.pstack s.capacity = xs

variable {s : Stack} {n : ℕ} {xs : List ℕ}

theorem Holds.capacity (h : Holds n s xs) : s.capacity = xs.length := by
  rw [← h.stacked, Lifo.length_stacked]

theorem push_of_full (h : s.capacity = s.sz) (slot : ℕ) : s.push slot = .ok (s, invLocation) := by
  unfold push
  rw [require_true h.le, ok_bind, if_neg (by omega)]
  rfl

theorem pop_of_empty (h : s.capacity = 0) : s.pop = .ok (s, invLocation) := by
  unfold pop
  rw [require_true (by omega), ok_bind, if_neg (by omega)]
  rfl

theorem call_push {s' : Stack} {slot r : ℕ} (h : s.push slot = .ok (s', r)) :
    s.call (.push slot) = .ok (s', some r) := by
  rw [call, h]
  rfl

theorem call_pop {s' : Stack} {r : ℕ} (h : s.pop = .ok (s', r)) :
    s.call .pop = .ok (s', some r) := by
  rw [call, h]
  rfl

theorem Holds.push (hn : n ≤ maxObjNum) (h : Holds n s xs) (slot : ℕ) :
    ∃ s', s.call (.push slot) = .ok (s', code (Lifo.step n xs (.push slot)).2) ∧
      Holds n s' (Lifo.step n xs (.push slot)).1 := by
  have hcap := h.capacity
  have hsz := h.sz
  rcases Nat.lt_or_ge xs.length n with hlt | hge
  · rw [Lifo.step_push_of_lt hlt]
    refine ⟨_, call_push (push_eq (by omega) (by omega) slot), hsz, ?_, ?_⟩
    · show s.capacity + 1 ≤ n
      omega
    · show Lifo.stacked (Function.update s.pstack s.capacity slot) (s.capacity + 1) = slot :: xs
      rw [Lifo.stacked_update_succ, h.stacked]
  · have hle := h.le
    rw [Lifo.step_push_of_le hge]
    exact ⟨s, call_push (push_of_full (by omega) slot), h⟩

theorem Holds.pop (hn : n ≤ maxObjNum) (h : Holds n s xs) :
    ∃ s', s.call .pop = .ok (s', code (Lifo.step n xs .pop).2) ∧
      Holds n s' (Lifo.step n xs .pop).1 := by
  have hcap := h.capacity
  have hsz := h.sz
  have hle := h.le
  cases xs with
  | nil => exact ⟨s, call_pop (pop_of_empty hcap), h⟩
  | cons x xs =>
    rw [List.length_cons] at hcap
    have hstacked := h.stacked
    rw [hcap, Lifo.stacked_succ] at hstacked
    obtain ⟨htop, hrest⟩ := List.cons.inj hstacked
    have hpred : s.capacity - 1 = xs.length := by omega
    have hpop := pop_eq (s := s) (by omega) (by omega) (by omega)
    rw [hpred, htop] at hpop
    refine ⟨_, call_pop hpop, hsz, ?_, hrest⟩
    show xs.length ≤ n
    omega

theorem Holds.clear (h : Holds n s xs) :
    ∃ s', s.call .clear = .ok (s', code (Lifo.step n xs .clear).2) ∧
      Holds n s' (Lifo.step n xs .clear).1 :=
  ⟨s.clear, rfl, h.sz, Nat.zero_le n, rfl⟩

/-- What a call does is what it does to the list. -/
theorem Holds.call (hn : n ≤ maxObjNum) (h : Holds n s xs) (c : Lifo.Call ℕ) :
    ∃ s', s.call c = .ok (s', code (Lifo.step n xs c).2) ∧ Holds n s' (Lifo.step n xs c).1 := by
  cases c with
  | push slot => exact h.push hn slot
  | pop => exact h.pop hn
  | clear => exact h.clear

/-- What a push that does not fail did. -/
theorem call_push_eq_ok {t : Stack} {slot : ℕ} {r : Option ℕ} :
    s.call (.push slot) = .ok (t, r) ↔
      (s.capacity < s.sz ∧ s.capacity < maxObjNum ∧ r = some 0 ∧
        t = { s with
          capacity := s.capacity + 1
          pstack := Function.update s.pstack s.capacity slot }) ∨
        (s.capacity = s.sz ∧ r = some invLocation ∧ t = s) := by
  constructor
  · intro h
    obtain ⟨⟨s', r'⟩, hpush, hret⟩ := bind_eq_ok.mp h
    obtain ⟨rfl, rfl⟩ := ok_pair_inj hret
    unfold Stack.push at hpush
    obtain ⟨_, hle, hpush⟩ := bind_eq_ok.mp hpush
    rw [require_eq_ok] at hle
    split_ifs at hpush with hlt
    · obtain ⟨_, hmax, hpush⟩ := bind_eq_ok.mp hpush
      obtain ⟨rfl, rfl⟩ := ok_pair_inj hpush
      exact Or.inl ⟨hlt, require_eq_ok.mp hmax, rfl, rfl⟩
    · obtain ⟨rfl, rfl⟩ := ok_pair_inj hpush
      exact Or.inr ⟨by omega, rfl, rfl⟩
  · rintro (⟨hlt, hmax, rfl, rfl⟩ | ⟨hfull, rfl, rfl⟩)
    · exact call_push (push_eq hlt hmax slot)
    · exact call_push (push_of_full hfull slot)

/-- What a pop that does not fail did. -/
theorem call_pop_eq_ok {t : Stack} {r : Option ℕ} :
    s.call .pop = .ok (t, r) ↔
      (0 < s.capacity ∧ s.capacity ≤ s.sz ∧ s.capacity - 1 < maxObjNum ∧
        r = some (s.pstack (s.capacity - 1)) ∧ t = { s with capacity := s.capacity - 1 }) ∨
        (s.capacity = 0 ∧ r = some invLocation ∧ t = s) := by
  constructor
  · intro h
    obtain ⟨⟨s', r'⟩, hpop, hret⟩ := bind_eq_ok.mp h
    obtain ⟨rfl, rfl⟩ := ok_pair_inj hret
    unfold Stack.pop at hpop
    obtain ⟨_, hle, hpop⟩ := bind_eq_ok.mp hpop
    rw [require_eq_ok] at hle
    split_ifs at hpop with hpos
    · obtain ⟨_, hmax, hpop⟩ := bind_eq_ok.mp hpop
      obtain ⟨rfl, rfl⟩ := ok_pair_inj hpop
      exact Or.inl ⟨hpos, hle, require_eq_ok.mp hmax, rfl, rfl⟩
    · obtain ⟨rfl, rfl⟩ := ok_pair_inj hpop
      exact Or.inr ⟨by omega, rfl, rfl⟩
  · rintro (⟨hpos, hle, hmax, rfl, rfl⟩ | ⟨hempty, rfl, rfl⟩)
    · exact call_pop (pop_eq hpos hle hmax)
    · exact call_pop (pop_of_empty hempty)

theorem accessed_push_of_lt (h : s.capacity < s.sz) (slot : ℕ) :
    s.accessed (.push slot) = some s.capacity := if_pos h

theorem accessed_pop_of_pos (h : 0 < s.capacity) : s.accessed .pop = some (s.capacity - 1) :=
  if_pos h

theorem accessesOnly_push (s : Stack) (slot : ℕ) : s.AccessesOnly (.push slot) where
  changes t r h i hi := by
    rcases call_push_eq_ok.mp h with ⟨hlt, _, _, rfl⟩ | ⟨_, _, rfl⟩
    · rw [accessed_push_of_lt hlt] at hi
      exact Function.update_of_ne (fun heq => hi (congrArg some heq.symm)) _ _
    · rfl
  reads t r p h hp := by
    rcases call_push_eq_ok.mp h with ⟨hlt, hmax, rfl, rfl⟩ | ⟨hfull, rfl, rfl⟩
    · refine ⟨Function.update p s.capacity slot,
        call_push_eq_ok.mpr (Or.inl ⟨hlt, hmax, rfl, rfl⟩), fun i => ?_⟩
      simp only [accessed_push_of_lt hlt, Option.some.injEq, Function.update_apply]
      by_cases hi : i = s.capacity
      · rw [if_pos hi, if_pos hi.symm, if_pos hi]
      · rw [if_neg hi, if_neg (Ne.symm hi)]
    · refine ⟨p, call_push_eq_ok.mpr (Or.inr ⟨hfull, rfl, rfl⟩), fun i => ?_⟩
      have hnone : t.accessed (.push slot) = none := if_neg (by omega)
      rw [hnone, if_neg (by simp)]

theorem accessesOnly_pop (s : Stack) : s.AccessesOnly .pop where
  changes t r h i _ := by
    rcases call_pop_eq_ok.mp h with ⟨_, _, _, _, rfl⟩ | ⟨_, _, rfl⟩
    · rfl
    · rfl
  reads t r p h hp := by
    rcases call_pop_eq_ok.mp h with ⟨hpos, hle, hmax, rfl, rfl⟩ | ⟨hempty, rfl, rfl⟩
    · have htop := hp _ (accessed_pop_of_pos hpos)
      refine ⟨p, call_pop_eq_ok.mpr (Or.inl ⟨hpos, hle, hmax, congrArg some htop.symm, rfl⟩),
        fun i => ?_⟩
      split_ifs with hi
      · exact hp i hi
      · rfl
    · refine ⟨p, call_pop_eq_ok.mpr (Or.inr ⟨hempty, rfl, rfl⟩), fun i => ?_⟩
      have hnone : t.accessed .pop = none := if_neg (by omega)
      rw [hnone, if_neg (by simp)]

/-- **`accessed` says where a call goes.** -/
theorem accessesOnly (s : Stack) (c : Lifo.Call ℕ) : s.AccessesOnly c := by
  cases c with
  | push slot => exact accessesOnly_push s slot
  | pop => exact accessesOnly_pop s
  | clear =>
    refine ⟨fun t r h i _ => ?_, fun t r p h _ => ?_⟩
    · obtain ⟨rfl, _⟩ := ok_pair_inj h
      rfl
    · obtain ⟨rfl, rfl⟩ := ok_pair_inj h
      exact ⟨p, rfl, fun i => (if_neg (by simp [accessed])).symm⟩

/-- No call goes to the slots from `n` on. -/
theorem Holds.accessed_lt (h : Holds n s xs) {c : Lifo.Call ℕ} {i : ℕ}
    (hi : s.accessed c = some i) : i < n := by
  have hsz := h.sz
  have hle := h.le
  cases c with
  | push slot =>
    obtain ⟨hlt, htop⟩ := Option.ite_none_right_eq_some.mp hi
    have htop := Option.some.inj htop
    omega
  | pop =>
    obtain ⟨hpos, hpred⟩ := Option.ite_none_right_eq_some.mp hi
    have hpred := Option.some.inj hpred
    omega
  | clear => cases hi

/-! ### Runs -/

theorem exists_run (s : Stack) (hn : n ≤ maxObjNum) (calls : List (Lifo.Call ℕ)) :
    ∃ t, s.run n calls = .ok (t, (lifo n calls).2.map code) ∧ Holds n t (lifo n calls).1 := by
  have hstart : Holds n { s with sz := n, capacity := 0 } [] := ⟨rfl, Nat.zero_le n, rfl⟩
  have hinit : s.init n = .ok { s with sz := n, capacity := 0 } := by
    unfold init
    rw [require_true hn]
    rfl
  obtain ⟨t, hexec, ht⟩ :=
    exec_simulation (Holds n) (fun s xs c h => h.call hn c) hstart calls
  refine ⟨t, ?_, ht⟩
  rw [run, hinit]
  exact hexec

theorem holds_of_run {t : Stack} {calls : List (Lifo.Call ℕ)} {outs : List (Option ℕ)}
    (hn : n ≤ maxObjNum) (h : s.run n calls = .ok (t, outs)) : Holds n t (lifo n calls).1 := by
  obtain ⟨t', hrun, ht⟩ := s.exists_run hn calls
  obtain ⟨rfl, _⟩ := ok_pair_inj (hrun.symm.trans h)
  exact ht

/-- What is on the list was pushed. -/
theorem mem_lifo {P : ℕ → Prop} {calls : List (Lifo.Call ℕ)} (h : ∀ x, .push x ∈ calls → P x) :
    ∀ x ∈ (lifo n calls).1, P x := by
  refine replay_invariant (fun xs => ∀ x ∈ xs, P x) ?_ nofun
  intro xs c hc hxs x hx
  rcases Lifo.mem_step hx with hx | rfl
  · exact hxs x hx
  · exact h x hc

/-- **`Stack` is a stack of at most `n` values.** -/
theorem stack_refinesLifo (s : Stack) (hn : n ≤ maxObjNum) (calls : List (Lifo.Call ℕ)) :
    RefinesLifo s n calls where
  agrees := by
    obtain ⟨t, hrun, ht⟩ := s.exists_run hn calls
    exact ⟨t, hrun, ht.capacity⟩
  below pre c post t outs _ hrun :=
    ⟨t.accessesOnly c, fun _ hi => (holds_of_run hn hrun).accessed_lt hi⟩
  pop_iff hpush pre post t outs t' r hcalls hrun hpop := by
    have ht := holds_of_run hn hrun
    have hne : ∀ x ∈ (lifo n pre).1, x ≠ invLocation := by
      refine mem_lifo fun x hx => hpush x ?_
      rw [hcalls]
      exact List.mem_append_left _ hx
    obtain ⟨_, hret, _⟩ := ht.pop hn
    obtain ⟨_, rfl⟩ := ok_pair_inj (hret.symm.trans hpop)
    rw [getCapacity, ht.capacity]
    cases hxs : (lifo n pre).1 with
    | nil => exact iff_of_true rfl rfl
    | cons x xs =>
      -- the value returned is the one on top, which was pushed
      refine iff_of_false (fun h => ?_) nofun
      exact hne x (hxs ▸ List.mem_cons_self) (Option.some.inj h)

/-- Two places, three pushes, and a pop. -/
theorem stack_refinesLifo_two : (2 ≤ maxObjNum) ∧
    RefinesLifo ⟨0, 0, fun _ => 0⟩ 2 [.push 7, .push 8, .push 9, .pop] :=
  ⟨by decide, stack_refinesLifo _ (by decide) _⟩

end Lab1.MemDb.Stack
