import Lab1.Library.Exec
import Mathlib.Data.List.Count
import Mathlib.Data.List.Nodup
import Mathlib.Data.List.Perm.Subperm

/-!
# Things handed over through one cell

A giver puts one thing after the other into a cell, each for a new taker, and does not wait: a taker
reads the cell at some later time, and gets what was put there last.

When all takers have read, each thing has been taken once if and only if the giver never put
something there while a taker was still to read.  Otherwise some thing is taken by nobody
(`all_taken_iff_prompt`), and another one by two takers (`nodup_iff_prompt`).
-/

namespace Lab1.Handoff

variable {α : Type*}

structure State (α : Type*) where
  cell : Option α
  /-- what was put into the cell -/
  gave : List α
  /-- what the takers got, if they have read -/
  took : List (Option α)

def State.start : State α := ⟨none, [], []⟩

inductive Act (α : Type*) where
  | give (a : α)
  | take (i : ℕ)

/-- There is no such taker, or it has read. -/
inductive Blocked where
  | blocked

def step (s : State α) : Act α → Except Blocked (State α × Unit)
  | .give a => .ok (⟨some a, s.gave ++ [a], s.took ++ [none]⟩, ())
  | .take i =>
    match s.took[i]? with
    | some none => .ok ({ s with took := s.took.set i s.cell }, ())
    | _ => .error .blocked

/-- Nothing is put into the cell while a taker is still to read. -/
def Prompt (s : State α) (acts : List (Act α)) : Prop :=
  Throughout step (fun s act => ∀ a, act = .give a → none ∉ s.took) s acts

variable {s t u : State α} {a : α} {acts : List (Act α)} {outs : List Unit}

/-! ### One action -/

theorem step_give (h : step s (.give a) = .ok (t, ())) :
    t = ⟨some a, s.gave ++ [a], s.took ++ [none]⟩ := (Prod.mk.inj (Except.ok.inj h)).1.symm

theorem step_take {i : ℕ} (h : step s (.take i) = .ok (t, ())) :
    s.took[i]? = some none ∧ t = { s with took := s.took.set i s.cell } := by
  rw [step] at h
  split at h
  · next hnone => exact ⟨hnone, (Prod.mk.inj (Except.ok.inj h)).1.symm⟩
  · cases h

/-! ### All actions -/

/-- What an action puts into the cell. -/
def Act.given? : Act α → Option α
  | give a => some a
  | take _ => none

theorem exec_gave (h : exec step s acts = .ok (t, outs)) :
    t.gave = s.gave ++ acts.filterMap Act.given? ∧
      t.took.length + s.gave.length = s.took.length + t.gave.length := by
  induction acts generalizing s outs with
  | nil =>
    cases h
    exact ⟨(List.append_nil _).symm, rfl⟩
  | cons act acts ih =>
    obtain ⟨s', _, outs', hfirst, hrest, rfl⟩ := exec_cons_eq_ok.mp h
    obtain ⟨hgave, hlen⟩ := ih hrest
    cases act with
    | give a =>
      obtain rfl := step_give hfirst
      constructor
      · rw [hgave, List.filterMap_cons_some (rfl : Act.given? (.give a) = some a),
          List.append_assoc]
        rfl
      · simp only [List.length_append, List.length_singleton] at hlen
        omega
    | take i =>
      obtain ⟨_, rfl⟩ := step_take hfirst
      refine ⟨hgave, ?_⟩
      simp only [List.length_set] at hlen
      exact hlen

/-- One taker for each thing. -/
theorem length_took (h : exec step State.start acts = .ok (t, outs)) :
    t.took.length = t.gave.length := by
  have hlen := (exec_gave h).2
  have hnothing : (State.start : State α).gave.length = 0 := rfl
  have hnobody : (State.start : State α).took.length = 0 := rfl
  omega

/-- Takers get what was given. -/
theorem exec_took (h : exec step State.start acts = .ok (t, outs)) :
    (∀ x, some x ∈ t.took → x ∈ t.gave) ∧ ∀ x, t.cell = some x → x ∈ t.gave := by
  refine exec_invariant_outputs (fun _ s => (∀ x, some x ∈ s.took → x ∈ s.gave) ∧
    ∀ x, s.cell = some x → x ∈ s.gave) ?_ ?_ h
  · rintro _ s act s' _ ⟨htook, hcell⟩ hstep
    cases act with
    | give a =>
      obtain rfl := step_give hstep
      constructor
      · intro x hx
        rcases List.mem_append.mp hx with hx | hx
        · exact List.mem_append_left _ (htook x hx)
        · cases List.mem_singleton.mp hx
      · rintro x ⟨⟩
        exact List.mem_append_right _ (List.mem_singleton.mpr rfl)
    | take i =>
      obtain ⟨_, rfl⟩ := step_take hstep
      refine ⟨fun x hx => ?_, hcell⟩
      rcases List.mem_or_eq_of_mem_set hx with hx | hx
      · exact htook x hx
      · exact hcell x hx.symm
  · exact ⟨fun x hx => absurd hx List.not_mem_nil, fun x hx => by cases hx⟩

/-! ### Where nobody is overtaken -/

/-- All have read, or the last taker alone is still to read. -/
def InTurn (s : State α) : Prop :=
  s.took = s.gave.map some ∨
    ∃ init a, s.gave = init ++ [a] ∧ s.took = init.map some ++ [none] ∧ s.cell = some a

theorem not_none_mem_map (xs : List α) : none ∉ xs.map some := by simp

theorem InTurn.give (h : InTurn s) (hnone : none ∉ s.took)
    (hstep : step s (.give a) = .ok (t, ())) : InTurn t := by
  obtain rfl := step_give hstep
  rcases h with hall | ⟨init, b, _, htook, _⟩
  · exact Or.inr ⟨s.gave, a, rfl, by rw [hall], rfl⟩
  · rw [htook] at hnone
    exact absurd (List.mem_append_right _ (List.mem_singleton.mpr rfl)) hnone

theorem InTurn.take {i : ℕ} (h : InTurn s) (hstep : step s (.take i) = .ok (t, ())) :
    InTurn t := by
  obtain ⟨hi, rfl⟩ := step_take hstep
  rcases h with hall | ⟨init, b, hgave, htook, hcell⟩
  · rw [hall] at hi
    exact absurd (List.mem_of_getElem? hi) (not_none_mem_map s.gave)
  · refine Or.inl ?_
    -- the taker that reads is the last one
    have hlast : i = init.length := by
      rw [htook] at hi
      rcases Nat.lt_trichotomy i init.length with hlt | heq | hgt
      · rw [List.getElem?_append_left (by simpa using hlt)] at hi
        exact absurd (List.mem_of_getElem? hi) (not_none_mem_map init)
      · exact heq
      · rw [List.getElem?_eq_none (by simp; omega)] at hi
        cases hi
    show s.took.set i s.cell = s.gave.map some
    rw [htook, hcell, hgave, hlast, List.set_append_right _ _ (by simp)]
    simp

theorem took_of_prompt (hprompt : Prompt (State.start : State α) acts)
    (h : exec step State.start acts = .ok (t, outs)) (hnone : none ∉ t.took) :
    t.took = t.gave.map some := by
  have hturn : InTurn t := by
    refine exec_invariant_along (P := fun s act => ∀ a, act = .give a → none ∉ s.took)
      (fun _ s => InTurn s) ?_ (Or.inl rfl) ?_ h
    · intro _ s act s' _ hI hfree hstep
      cases act with
      | give a => exact hI.give (hfree a rfl) hstep
      | take i => exact hI.take hstep
    · rintro pre act post t' outs' rfl hpre
      exact hprompt.of_run hpre
  rcases hturn with hall | ⟨init, a, _, htook, _⟩
  · exact hall
  · rw [htook] at hnone
    exact absurd (List.mem_append_right _ (List.mem_singleton.mpr rfl)) hnone

/-! ### Where somebody is overtaken -/

section Overtaken

variable [DecidableEq α]

/-- How many takers got one of the things. -/
def gotOf (things : List α) (s : State α) : ℕ :=
  s.took.countP fun o => o.any (· ∈ things)

theorem gotOf_lt (hlen : s.took.length = s.gave.length) (hnone : none ∈ s.took) :
    gotOf s.gave s < s.gave.length := by
  rw [gotOf, ← hlen]
  exact List.countP_lt_length_iff.mpr ⟨none, hnone, rfl⟩

/-- Once something else is in the cell, no taker gets one of the things any more. -/
theorem gotOf_exec (things : List α) (hcell : ∃ b, s.cell = some b ∧ b ∉ things)
    (hlater : ∀ b, .give b ∈ acts → b ∉ things) (h : exec step s acts = .ok (t, outs)) :
    gotOf things t = gotOf things s := by
  have hrun := exec_invariant_along (P := fun _ act => ∀ b, act = Act.give b → b ∉ things)
    (fun _ u => gotOf things u = gotOf things s ∧ ∃ b, u.cell = some b ∧ b ∉ things) ?_
    ⟨rfl, hcell⟩ ?_ h
  · exact hrun.1
  · rintro _ u act u' _ ⟨hgot, b, hb, hnot⟩ hfree hstep
    cases act with
    | give c =>
      obtain rfl := step_give hstep
      refine ⟨?_, c, rfl, hfree c rfl⟩
      rw [← hgot, gotOf, gotOf, List.countP_append]
      rfl
    | take i =>
      obtain ⟨hi, rfl⟩ := step_take hstep
      refine ⟨?_, b, hb, hnot⟩
      rw [← hgot, gotOf, gotOf]
      obtain ⟨hlt, hget⟩ := List.getElem?_eq_some_iff.mp hi
      rw [List.countP_set hlt, hget, hb]
      simp [hnot]
  · rintro pre act post _ _ hacts _ b rfl
    exact hlater b (hacts ▸ List.mem_append_right _ List.mem_cons_self)

/-- When all things have been taken, nobody was overtaken. -/
theorem prompt_of_all_taken (hnodup : t.gave.Nodup)
    (h : exec (step : State α → _) State.start acts = .ok (t, outs))
    (hall : ∀ x ∈ t.gave, some x ∈ t.took) : Prompt State.start acts := by
  refine throughout_of_forall ?_
  rintro pre _ post u outs' rfl hpre a rfl hnone
  obtain ⟨u', _, _, hpre', hpost, _⟩ := exec_append_eq_ok.mp h
  obtain rfl : u = u' := (Prod.mk.inj (Except.ok.inj (hpre.symm.trans hpre'))).1
  obtain ⟨v, _, _, hgive, hrest, _⟩ := exec_cons_eq_ok.mp hpost
  obtain rfl := step_give hgive
  -- the things given before, of which one has not been taken
  have hlen := length_took hpre
  have hgave : t.gave = u.gave ++ a :: post.filterMap Act.given? := by
    have heq := (exec_gave hrest).1
    rw [heq, List.append_assoc]
    rfl
  have hfresh : ∀ b ∈ a :: post.filterMap Act.given?, b ∉ u.gave := by
    rw [hgave] at hnodup
    intro b hb hmem
    exact (List.nodup_append.mp hnodup).2.2 b hmem b hb rfl
  have hgot := gotOf_exec u.gave ⟨a, rfl, hfresh a List.mem_cons_self⟩
    (fun b hb => hfresh b (List.mem_cons_of_mem _
      (List.mem_filterMap.mpr ⟨.give b, hb, rfl⟩))) hrest
  have hbefore : gotOf u.gave ⟨some a, u.gave ++ [a], u.took ++ [none]⟩ = gotOf u.gave u := by
    rw [gotOf, gotOf, List.countP_append]
    rfl
  -- but in the end all of them have
  have hsub : (u.gave.map some).Subperm t.took := by
    refine List.Nodup.subperm ?_ ?_
    · rw [hgave] at hnodup
      exact (List.nodup_append.mp hnodup).1.map fun _ _ => Option.some.inj
    · intro o ho
      obtain ⟨x, hx, rfl⟩ := List.mem_map.mp ho
      exact hall x (hgave ▸ List.mem_append_left _ hx)
  have hcount : u.gave.length ≤ gotOf u.gave t := by
    have hle := hsub.countP_le fun o => o.any (· ∈ u.gave)
    rw [List.countP_map, List.countP_eq_length.mpr (fun x hx => by simpa using hx)] at hle
    exact hle
  have hlt := gotOf_lt hlen hnone
  omega

end Overtaken

/-! ### Each thing once -/

section Once

variable [DecidableEq α] (h : exec step State.start acts = .ok (t, outs)) (hnone : none ∉ t.took)
  (hnodup : t.gave.Nodup)

include h hnone hnodup

/-- **Nobody is overtaken exactly if every thing is taken.** -/
theorem all_taken_iff_prompt : (∀ x ∈ t.gave, some x ∈ t.took) ↔ Prompt State.start acts := by
  constructor
  · exact prompt_of_all_taken hnodup h
  · intro hprompt x hx
    rw [took_of_prompt hprompt h hnone]
    exact List.mem_map_of_mem hx

/-- **And exactly if none is taken twice.** -/
theorem nodup_iff_prompt : t.took.Nodup ↔ Prompt State.start acts := by
  constructor
  · intro htook
    -- as many takers as things, so that each thing has one
    have hsub : t.took.Subperm (t.gave.map some) := by
      refine List.Nodup.subperm htook fun o ho => ?_
      cases o with
      | none => exact absurd ho hnone
      | some x => exact List.mem_map_of_mem ((exec_took h).1 x ho)
    have hperm : t.took.Perm (t.gave.map some) := by
      refine hsub.perm_of_length_le (Nat.le_of_eq ?_)
      exact (List.length_map _).trans (length_took h).symm
    exact prompt_of_all_taken hnodup h fun x hx => hperm.mem_iff.mpr (List.mem_map_of_mem hx)
  · intro hprompt
    rw [took_of_prompt hprompt h hnone]
    exact hnodup.map fun _ _ => Option.some.inj

end Once

end Lab1.Handoff
