import Mathlib.Data.List.DropRight
import Mathlib.Logic.Function.Basic

/-!
# Mailboxes

A table of queues, one for each key that is in use.  A history is a list of events: a queue is
opened, a message is put into a queue, a queue is taken, with all that is in it.  `pending k hist`
is what the history says must be in the queue of `k`: what was put there since it was last opened or
taken.  `Holds boxes hist` says that the table is as the history wants it, and there is a lemma for
each kind of event that an implementation's step may be.
-/

namespace Lab1.Mailbox

inductive Event (κ μ : Type*) where
  | opened (k : κ)
  | put (k : κ) (m : μ)
  | taken (k : κ)
  | other
  deriving DecidableEq, Repr

variable {κ μ : Type*} [DecidableEq κ]

/-- Events after which the queue of `k` is empty. -/
def Event.Empties (k : κ) : Event κ μ → Prop
  | opened j => j = k
  | taken j => j = k
  | put _ _ => False
  | other => False

instance (k : κ) : (e : Event κ μ) → Decidable (e.Empties k)
  | .opened j => inferInstanceAs (Decidable (j = k))
  | .taken j => inferInstanceAs (Decidable (j = k))
  | .put _ _ => inferInstanceAs (Decidable False)
  | .other => inferInstanceAs (Decidable False)

/-- The message that an event puts into the queue of `k`. -/
def Event.putTo (k : κ) : Event κ μ → Option μ
  | put j m => if j = k then some m else none
  | _ => none

/-- What was put into the queue of `k` since it was last opened or taken, oldest first. -/
def pending (k : κ) (hist : List (Event κ μ)) : List μ :=
  (hist.rtakeWhile fun e => decide ¬e.Empties k).filterMap (Event.putTo k)

@[simp] theorem pending_nil (k : κ) : pending k ([] : List (Event κ μ)) = [] := rfl

theorem pending_concat_of_empties {k : κ} {e : Event κ μ} (h : e.Empties k)
    (hist : List (Event κ μ)) : pending k (hist ++ [e]) = [] := by
  rw [pending, List.rtakeWhile_concat_neg _ _ _ (by simpa using h), List.filterMap_nil]

theorem pending_concat {k : κ} {e : Event κ μ} (h : ¬e.Empties k) (hist : List (Event κ μ)) :
    pending k (hist ++ [e]) = pending k hist ++ (e.putTo k).toList := by
  rw [pending, List.rtakeWhile_concat_pos _ _ _ (by simpa using h), List.filterMap_append]
  rcases he : e.putTo k with _ | m <;> simp [pending, he]

/-- What is pending was put. -/
theorem mem_of_mem_pending {k : κ} {m : μ} {hist : List (Event κ μ)} (h : m ∈ pending k hist) :
    Event.put k m ∈ hist := by
  rw [pending, List.mem_filterMap] at h
  obtain ⟨e, he, hput⟩ := h
  have hmem : e ∈ hist := (List.rtakeWhile_suffix _ _).subset he
  rcases e with j | ⟨j, m'⟩ | j | _
  · exact absurd hput (Option.some_ne_none m).symm
  · change (if j = k then some m' else none) = some m at hput
    split_ifs at hput with hj
    rw [← hj, ← Option.some.inj hput]
    exact hmem
  · exact absurd hput (Option.some_ne_none m).symm
  · exact absurd hput (Option.some_ne_none m).symm

/-! ### Tables -/

/-- Every queue holds what is pending for its key. -/
def Holds (boxes : κ → Option (List μ)) (hist : List (Event κ μ)) : Prop :=
  ∀ k, (boxes k).getD [] = pending k hist

variable {boxes : κ → Option (List μ)} {hist : List (Event κ μ)}

/-- The empty table, before anything happened. -/
theorem holds_nil : Holds (fun _ : κ => (none : Option (List μ))) [] := fun _ => rfl

/-- An event which leaves a key alone, and leaves its queue as it is. -/
theorem Holds.frame {k : κ} {e : Event κ μ} {box : Option (List μ)} (h : Holds boxes hist)
    (hempties : ¬e.Empties k) (hput : e.putTo k = none) (hbox : box = boxes k) :
    box.getD [] = pending k (hist ++ [e]) := by
  rw [pending_concat hempties, hput, hbox, h k]
  exact (List.append_nil _).symm

/-- Nothing happens. -/
theorem Holds.other (h : Holds boxes hist) : Holds boxes (hist ++ [.other]) := by
  intro k
  exact h.frame (e := .other) not_false rfl rfl

/-- A new queue is opened. -/
theorem Holds.opened (h : Holds boxes hist) (k : κ) :
    Holds (Function.update boxes k (some [])) (hist ++ [.opened k]) := by
  intro j
  by_cases hj : k = j
  · subst hj
    rw [Function.update_self, pending_concat_of_empties (e := .opened k) rfl]
    rfl
  · exact h.frame (e := .opened k) hj rfl (Function.update_of_ne (Ne.symm hj) _ _)

/-- A queue is taken, and is left empty. -/
theorem Holds.taken (h : Holds boxes hist) (k : κ) :
    Holds (Function.update boxes k (some [])) (hist ++ [.taken k]) := by
  intro j
  by_cases hj : k = j
  · subst hj
    rw [Function.update_self, pending_concat_of_empties (e := .taken k) rfl]
    rfl
  · exact h.frame (e := .taken k) hj rfl (Function.update_of_ne (Ne.symm hj) _ _)

/-- A queue that is not there is taken. -/
theorem Holds.taken_of_none (h : Holds boxes hist) {k : κ} (hk : boxes k = none) :
    Holds boxes (hist ++ [.taken k]) := by
  intro j
  by_cases hj : k = j
  · subst hj
    rw [hk, pending_concat_of_empties (e := .taken k) rfl]
    rfl
  · exact h.frame (e := .taken k) hj rfl rfl

/-- A message goes to the end of a queue. -/
theorem Holds.put (h : Holds boxes hist) {k : κ} {q : List μ} (hk : boxes k = some q) (m : μ) :
    Holds (Function.update boxes k (some (q ++ [m]))) (hist ++ [.put k m]) := by
  intro j
  by_cases hj : k = j
  · subst hj
    have hq : q = pending k hist := by rw [← h k, hk]; rfl
    rw [Function.update_self, pending_concat (e := .put k m) not_false, hq]
    show _ = _ ++ (if k = k then some m else none).toList
    rw [if_pos rfl]
    rfl
  · exact h.frame (e := .put k m) not_false (if_neg hj) (Function.update_of_ne (Ne.symm hj) _ _)

end Lab1.Mailbox
