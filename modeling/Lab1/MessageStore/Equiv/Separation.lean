import Lab1.MessageStore.Equiv.Mailboxes

/-!
# Separation of users

A user is known to the manager by the hash of the first name with the last name behind it.  Even if
no two strings have the same hash, two users are kept apart only if these concatenations differ
(`separated_iff`): where the boundary between the names stands is lost.
-/

namespace Lab1.MessageStore

open Mailbox UserManager

variable {κ : Type*} [DecidableEq κ] {hash : Str → κ}

/-! ### The property -/

/-- Whatever calls came before, `v` does not get to exist by adding `u`, and reads no message that
was sent to `u`. -/
structure Separated (hash : Str → κ) (u v : User) : Prop where
  add : ∀ ops m outs, exec (call hash) .new ops = .ok (m, outs) → m.doesUserExist hash v = false →
    (m.addUser hash u).1.doesUserExist hash v = false ∧
      ((m.addUser hash u).1.addUser hash v).2 = .SUCCESS
  read : ∀ ops m outs, exec (call hash) .new ops = .ok (m, outs) →
    ∀ msg ∈ (m.getUserMessages hash v).2, msg.m_to ≠ u

/-! ### Hashes -/

theorem addUser_snd (m : UserManager κ) (user : User) :
    (m.addUser hash user).2 = .SUCCESS ↔ m.doesUserExist hash user = false := by
  rw [addUser]
  split_ifs with h <;> simp [h]

/-- Adding a user makes exactly the users with the same hash exist. -/
theorem doesUserExist_addUser (m : UserManager κ) (u v : User) :
    (m.addUser hash u).1.doesUserExist hash v =
      (decide (userHash hash v = userHash hash u) || m.doesUserExist hash v) := by
  simp only [doesUserExist_eq]
  by_cases hk : userHash hash v = userHash hash u
  · rw [hk, decide_eq_true rfl, Bool.true_or]
    rcases addUser_cases hash m u with ⟨hsome, heq⟩ | ⟨_, heq⟩
    · rw [heq]
      exact hsome
    · rw [heq, setBox_self]
      rfl
  · rw [decide_eq_false hk, Bool.false_or]
    rcases addUser_cases hash m u with ⟨_, heq⟩ | ⟨_, heq⟩
    · rw [heq]
    · rw [heq, setBox_of_ne hk]

/-- In every run, what a user reads was sent to a user with the same hash. -/
theorem userHash_of_mem_getUserMessages {ops : List Op} {m : UserManager κ} {outs : List Reply}
    (h : exec (call hash) .new ops = .ok (m, outs)) {v : User} {msg : UserMsg}
    (hmsg : msg ∈ (m.getUserMessages hash v).2) :
    userHash hash msg.m_to = userHash hash v := by
  rw [getUserMessages_eq_pending h] at hmsg
  obtain ⟨p, _, hp⟩ := List.mem_map.mp (mem_of_mem_pending hmsg)
  -- only `sendToUser` puts something, and under the recipient's hash
  rcases p with ⟨user | msg' | user | user, r⟩
  · rcases r with rc | _ | b | msgs
    · rcases rc with _ | _ | _ | _ <;> cases hp
    · cases hp
    · cases hp
    · cases hp
  · obtain ⟨hkey, rfl⟩ := Event.put.inj hp
    exact hkey
  · cases hp
  · cases hp

/-! ### Separation -/

theorem Separated.userHash_ne {u v : User} (h : Separated hash u v) :
    userHash hash v ≠ userHash hash u := by
  intro heq
  have hnone := (h.add [] .new [] rfl rfl).1
  rw [doesUserExist_addUser, decide_eq_true heq] at hnone
  cases hnone

theorem separated_of_userHash_ne {u v : User} (h : userHash hash v ≠ userHash hash u) :
    Separated hash u v where
  add ops m outs _ hv := by
    have hadd : (m.addUser hash u).1.doesUserExist hash v = false := by
      rw [doesUserExist_addUser, decide_eq_false h, hv]
      rfl
    exact ⟨hadd, (addUser_snd _ v).mpr hadd⟩
  read ops m outs hrun msg hmsg hto := by
    have hash_eq := userHash_of_mem_getUserMessages hrun hmsg
    rw [hto] at hash_eq
    exact h hash_eq.symm

/-- **Which users are kept apart.** -/
theorem separated_iff (hinj : Function.Injective hash) (u v : User) :
    Separated hash u v ↔ u.m_firstName ++ u.m_lastName ≠ v.m_firstName ++ v.m_lastName := by
  constructor
  · intro h heq
    exact h.userHash_ne (congrArg hash heq.symm)
  · intro hne
    apply separated_of_userHash_ne
    intro heq
    exact hne (hinj heq).symm

/-- `a b` and `a c` -/
theorem separated_b_c : Separated (id : Str → Str) ⟨[97], [98]⟩ ⟨[97], [99]⟩ :=
  (separated_iff Function.injective_id _ _).mpr (by decide)

/-- `ab c` and `a bc` -/
theorem not_separated_abc : ¬Separated (id : Str → Str) ⟨[97, 98], [99]⟩ ⟨[97], [98, 99]⟩ :=
  fun h => h.userHash_ne rfl

end Lab1.MessageStore
