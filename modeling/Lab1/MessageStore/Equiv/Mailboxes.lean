import Lab1.Library.Mailbox
import Lab1.MessageStore.UserManager

/-!
# Mailboxes are queues

The user manager's map of boxes is a table of queues, one for each hash that a user was added under:
a call that adds a user opens a queue, `sendToUser` puts a message at the end of one, and
`getUserMessages` takes all that a queue holds.  `holds_exec` says so for all runs.  With it, every
`getUserMessages` returns what was sent since the last one (`getUserMessages_eq_pending`).
-/

namespace Lab1.MessageStore

open Mailbox

variable {κ : Type*} [DecidableEq κ] {hash : Str → κ}

/-! ### The property -/

/-- What a call with its reply means for the mailboxes. -/
def event (hash : Str → κ) : Op × Reply → Event κ UserMsg
  | (.addUser user, .code .SUCCESS) => .opened (userHash hash user)
  | (.sendToUser msg, _) => .put (userHash hash msg.m_to) msg
  | (.getUserMessages user, _) => .taken (userHash hash user)
  | _ => .other

/-- Messages are only sent to users of whom `doesUserExist` would say at that time that they
exist. -/
def SendsToExisting (hash : Str → κ) (ops : List Op) : Prop :=
  ∀ pre msg post, ops = pre ++ .sendToUser msg :: post →
    ∀ m outs, exec (call hash) .new pre = .ok (m, outs) → m.doesUserExist hash msg.m_to = true

/-- One of the calls is an `addUser` of a user with the hash `k`. -/
def Adds (hash : Str → κ) (ops : List Op) (k : κ) : Prop :=
  ∃ user, .addUser user ∈ ops ∧ userHash hash user = k

/-! ### Boxes -/

namespace UserManager

/-- The messages in the box of each hash. -/
def boxes (m : UserManager κ) (k : κ) : Option Messages :=
  (m.m_usersByHash k).map MsgStoreUserBox.m_msgs

@[simp] theorem setBox_self (m : UserManager κ) (k : κ) (box : MsgStoreUserBox) :
    (m.setBox k box).m_usersByHash k = some box := Function.update_self _ _ _

theorem setBox_of_ne {m : UserManager κ} {j k : κ} (h : j ≠ k) (box : MsgStoreUserBox) :
    (m.setBox k box).m_usersByHash j = m.m_usersByHash j :=
  Function.update_of_ne h _ _

theorem boxes_setBox (m : UserManager κ) (k : κ) (box : MsgStoreUserBox) :
    (m.setBox k box).boxes = Function.update m.boxes k (some box.m_msgs) := by
  ext1 j
  by_cases hj : j = k
  · subst hj
    rw [boxes, setBox_self, Function.update_self]
    rfl
  · rw [boxes, setBox_of_ne hj, Function.update_of_ne hj]
    rfl

omit [DecidableEq κ]

theorem findUserBox_eq_some {m : UserManager κ} {user : User} {p : κ × MsgStoreUserBox} :
    m.findUserBox hash user = some p ↔
      p.1 = userHash hash user ∧ m.m_usersByHash (userHash hash user) = some p.2 := by
  rcases p with ⟨k, box⟩
  rw [findUserBox, Option.map_eq_some_iff]
  constructor
  · rintro ⟨box', hbox, heq⟩
    cases heq
    exact ⟨rfl, hbox⟩
  · rintro ⟨rfl, hbox⟩
    exact ⟨box, hbox, rfl⟩

theorem findUserBox_eq_none {m : UserManager κ} {user : User} :
    m.findUserBox hash user = none ↔ m.m_usersByHash (userHash hash user) = none :=
  Option.map_eq_none_iff

theorem doesUserExist_eq (m : UserManager κ) (user : User) :
    m.doesUserExist hash user = (m.m_usersByHash (userHash hash user)).isSome :=
  Option.isSome_map

end UserManager

open UserManager

/-! ### What a call does -/

theorem addUser_cases (hash : Str → κ) (m : UserManager κ) (user : User) :
    (m.m_usersByHash (userHash hash user)).isSome = true ∧ m.addUser hash user = (m, .EXISTS) ∨
      m.m_usersByHash (userHash hash user) = none ∧
        m.addUser hash user = (m.setBox (userHash hash user) .new, .SUCCESS) := by
  rw [addUser, doesUserExist_eq]
  split_ifs with h
  · exact Or.inl ⟨h, rfl⟩
  · exact Or.inr ⟨by simpa using h, rfl⟩

theorem sendToUser_eq_ok {m m' : UserManager κ} {msg : UserMsg} :
    m.sendToUser hash msg = .ok m' ↔
      ∃ box, m.m_usersByHash (userHash hash msg.m_to) = some box ∧
        m' = m.setBox (userHash hash msg.m_to) (box.addMessage msg) := by
  rcases hfind : m.findUserBox hash msg.m_to with _ | ⟨k, box⟩
  · rw [findUserBox_eq_none] at hfind
    simp [sendToUser, findUserBox, hfind]
  · rw [findUserBox_eq_some] at hfind
    obtain ⟨rfl, hbox⟩ := hfind
    simp [sendToUser, findUserBox, hbox, eq_comm]

theorem getUserMessages_cases (hash : Str → κ) (m : UserManager κ) (user : User) :
    m.m_usersByHash (userHash hash user) = none ∧ m.getUserMessages hash user = (m, []) ∨
      ∃ box, m.m_usersByHash (userHash hash user) = some box ∧
        m.getUserMessages hash user =
          (m.setBox (userHash hash user) box.clearUsersBox, box.m_msgs) := by
  rcases hfind : m.findUserBox hash user with _ | ⟨k, box⟩
  · refine Or.inl ⟨findUserBox_eq_none.mp hfind, ?_⟩
    rw [getUserMessages, hfind]
  · obtain ⟨hk, hbox⟩ := findUserBox_eq_some.mp hfind
    refine Or.inr ⟨box, hbox, ?_⟩
    rw [getUserMessages, hfind, ← hk]
    rfl

/-- What is read is what the box holds. -/
theorem getUserMessages_snd (m : UserManager κ) (user : User) :
    (m.getUserMessages hash user).2 = (m.boxes (userHash hash user)).getD [] := by
  rcases getUserMessages_cases hash m user with ⟨hnone, heq⟩ | ⟨box, hbox, heq⟩
  · rw [heq, boxes, hnone]
    rfl
  · rw [heq, boxes, hbox]
    rfl

/-- All that a call can do: the manager after it, and the reply. -/
inductive Calls (hash : Str → κ) (m : UserManager κ) : Op → UserManager κ → Reply → Prop where
  | addExisting (user : User) : (m.m_usersByHash (userHash hash user)).isSome = true →
      Calls hash m (.addUser user) m (.code .EXISTS)
  | addNew (user : User) : m.m_usersByHash (userHash hash user) = none →
      Calls hash m (.addUser user) (m.setBox (userHash hash user) .new) (.code .SUCCESS)
  | send (msg : UserMsg) (box : MsgStoreUserBox) :
      m.m_usersByHash (userHash hash msg.m_to) = some box →
      Calls hash m (.sendToUser msg) (m.setBox (userHash hash msg.m_to) (box.addMessage msg)) .done
  | exist (user : User) :
      Calls hash m (.doesUserExist user) m (.bool (m.doesUserExist hash user))
  | getMissing (user : User) : m.m_usersByHash (userHash hash user) = none →
      Calls hash m (.getUserMessages user) m (.messages [])
  | get (user : User) (box : MsgStoreUserBox) :
      m.m_usersByHash (userHash hash user) = some box →
      Calls hash m (.getUserMessages user) (m.setBox (userHash hash user) box.clearUsersBox)
        (.messages box.m_msgs)

theorem calls_of_call {m m' : UserManager κ} {op : Op} {r : Reply}
    (h : call hash m op = .ok (m', r)) : Calls hash m op m' r := by
  rcases op with user | msg | user | user
  · rw [call] at h
    rcases addUser_cases hash m user with ⟨hsome, heq⟩ | ⟨hnone, heq⟩
    · rw [heq] at h
      cases h
      exact .addExisting user hsome
    · rw [heq] at h
      cases h
      exact .addNew user hnone
  · obtain ⟨m'', hsend, hpure⟩ := bind_eq_ok.mp h
    obtain ⟨box, hbox, rfl⟩ := sendToUser_eq_ok.mp hsend
    cases hpure
    exact .send msg box hbox
  · cases h
    exact .exist user
  · rw [call] at h
    rcases getUserMessages_cases hash m user with ⟨hnone, heq⟩ | ⟨box, hbox, heq⟩
    · rw [heq] at h
      cases h
      exact .getMissing user hnone
    · rw [heq] at h
      cases h
      exact .get user box hbox

/-- A box changes only in a call that looks up its hash, and neither in one that finds the user to
exist nor in `doesUserExist`. -/
theorem call_frame {m m' : UserManager κ} {op : Op} {r : Reply} (h : call hash m op = .ok (m', r))
    {k : κ} (hop : r = .code .EXISTS ∨ (∃ user, op = .doesUserExist user) ∨
      userHash hash op.user ≠ k) : m'.m_usersByHash k = m.m_usersByHash k := by
  have hne (hex : r ≠ .code .EXISTS) (hdoes : ¬∃ user, op = .doesUserExist user) :
      k ≠ userHash hash op.user := ((hop.resolve_left hex).resolve_left hdoes).symm
  cases calls_of_call h with
  | addExisting user _ => rfl
  | addNew user _ => exact setBox_of_ne (hne (by simp) (by simp)) _
  | send msg box _ => exact setBox_of_ne (hne (by simp) (by simp)) _
  | exist user => rfl
  | getMissing user _ => rfl
  | get user box _ => exact setBox_of_ne (hne (by simp) (by simp)) _

/-! ### Runs -/

/-- A call keeps the boxes as the history wants them. -/
theorem holds_call {m m' : UserManager κ} {op : Op} {r : Reply} {hist : List (Op × Reply)}
    (hm : Holds m.boxes (hist.map (event hash))) (h : call hash m op = .ok (m', r)) :
    Holds m'.boxes ((hist ++ [(op, r)]).map (event hash)) := by
  rw [List.map_append, List.map_singleton]
  cases calls_of_call h with
  | addExisting user _ => exact hm.other
  | exist user => exact hm.other
  | addNew user _ =>
    rw [boxes_setBox]
    exact hm.opened _
  | send msg box hbox =>
    rw [boxes_setBox]
    apply hm.put
    rw [boxes, hbox]
    rfl
  | getMissing user hnone =>
    apply hm.taken_of_none
    rw [boxes, hnone]
    rfl
  | get user box _ =>
    rw [boxes_setBox]
    exact hm.taken _

/-- In every run, the boxes are as the history wants them. -/
theorem holds_exec {ops : List Op} {m : UserManager κ} {outs : List Reply}
    (h : exec (call hash) .new ops = .ok (m, outs)) :
    Holds m.boxes ((ops.zip outs).map (event hash)) :=
  exec_history_invariant (fun hist (m : UserManager κ) => Holds m.boxes (hist.map (event hash)))
    (fun _ _ _ _ _ hm hcall => holds_call hm hcall) holds_nil h

/-- A call makes a box only for the hash of a user it adds, and takes none away. -/
theorem isSome_call {m m' : UserManager κ} {op : Op} {r : Reply} (h : call hash m op = .ok (m', r))
    (k : κ) : (m'.m_usersByHash k).isSome ↔ (m.m_usersByHash k).isSome ∨ Adds hash [op] k := by
  have hset : ∀ j box, ((m.setBox j box).m_usersByHash k).isSome ↔
      (m.m_usersByHash k).isSome ∨ j = k := by
    intro j box
    by_cases hj : k = j
    · subst hj
      rw [setBox_self]
      exact iff_of_true rfl (Or.inr rfl)
    · rw [setBox_of_ne hj]
      exact (or_iff_left (Ne.symm hj)).symm
  have hother : (∀ user, op ≠ .addUser user) → ¬Adds hash [op] k := by
    rintro hop ⟨user, hmem, _⟩
    exact hop user (List.mem_singleton.mp hmem).symm
  have hadd : ∀ user, Adds hash [.addUser user] k ↔ userHash hash user = k := by
    simp [Adds]
  cases calls_of_call h with
  | addExisting user hsome =>
    rw [hadd]
    exact ⟨Or.inl, fun hor => hor.elim id fun hk => hk ▸ hsome⟩
  | addNew user _ => rw [hadd, hset]
  | send msg box hbox =>
    rw [or_iff_left (hother (by simp)), hset]
    exact ⟨fun hor => hor.elim id fun hk => hk ▸ Option.isSome_of_mem hbox, Or.inl⟩
  | exist user => rw [or_iff_left (hother (by simp))]
  | getMissing user _ => rw [or_iff_left (hother (by simp))]
  | get user box hbox =>
    rw [or_iff_left (hother (by simp)), hset]
    exact ⟨fun hor => hor.elim id fun hk => hk ▸ Option.isSome_of_mem hbox, Or.inl⟩

/-- After a run there is a box for each hash of which a user was added. -/
theorem isSome_exec {ops : List Op} {m : UserManager κ} {outs : List Reply}
    (h : exec (call hash) .new ops = .ok (m, outs)) (k : κ) :
    (m.m_usersByHash k).isSome ↔ Adds hash ops k := by
  refine exec_invariant (fun pre (m : UserManager κ) => (m.m_usersByHash k).isSome ↔
    Adds hash pre k) ?_ ?_ h
  · intro pre m op m' r hm hcall
    rw [isSome_call hcall k, hm]
    simp only [Adds, List.mem_append, or_and_right, exists_or]
  · exact iff_of_false Bool.false_ne_true fun ⟨_, hmem, _⟩ => absurd hmem List.not_mem_nil

/-- The reply to the call at the place `pre.length` of a run. -/
theorem getElem?_outs {pre post : List Op} {op : Op} {m : UserManager κ} {outs : List Reply}
    (hrun : exec (call hash) .new (pre ++ op :: post) = .ok (m, outs)) :
    ∃ m₁ outs₁ m₂ r, exec (call hash) .new pre = .ok (m₁, outs₁) ∧ pre.zip outs = pre.zip outs₁ ∧
      call hash m₁ op = .ok (m₂, r) ∧ outs[pre.length]? = some r := by
  obtain ⟨m₁, outs₁, outs₂, hpre, hrest, rfl⟩ := exec_append_eq_ok.mp hrun
  obtain ⟨m₂, r, outs₃, hcall, _, rfl⟩ := exec_cons_eq_ok.mp hrest
  have hlen : outs₁.length = pre.length := length_exec hpre
  refine ⟨m₁, outs₁, m₂, r, hpre, ?_, hcall, ?_⟩
  · have happend : (pre ++ []).zip (outs₁ ++ r :: outs₃) = pre.zip outs₁ ++ [].zip (r :: outs₃) :=
      List.zip_append hlen.symm
    rwa [List.append_nil, List.zip_nil_left, List.append_nil] at happend
  · rw [← hlen, List.getElem?_append_right (Nat.le_refl _), Nat.sub_self, List.getElem?_cons_zero]

/-- `getUserMessages` returns what was sent to the user's hash since the last such call, or since
the user was added. -/
theorem getUserMessages_eq_pending {ops : List Op} {m : UserManager κ} {outs : List Reply}
    (h : exec (call hash) .new ops = .ok (m, outs)) (user : User) :
    (m.getUserMessages hash user).2 =
      pending (userHash hash user) ((ops.zip outs).map (event hash)) := by
  rw [getUserMessages_snd]
  exact holds_exec h _

/-- Only a message to a user who does not exist stops the manager. -/
theorem exec_isOk {ops : List Op} (hsend : SendsToExisting hash ops) :
    ∃ m outs, exec (call hash) .new ops = .ok (m, outs) := by
  suffices htotal : ∃ m outs, exec (call hash) .new ops = .ok (m, outs) ∧
      exec (call hash) .new ops = .ok (m, outs) by
    obtain ⟨m, outs, hrun, _⟩ := htotal
    exact ⟨m, outs, hrun⟩
  refine exec_progress (fun pre outs m => exec (call hash) .new pre = .ok (m, outs)) ?_ rfl
  intro pre op post outs m hops hrun
  -- of the calls only `sendToUser` can fail
  have hcall : ∃ m' r, call hash m op = .ok (m', r) := by
    rcases op with user | msg | user | user
    · exact ⟨_, _, rfl⟩
    · have hexist := hsend pre msg post hops m outs hrun
      rw [doesUserExist_eq, Option.isSome_iff_exists] at hexist
      obtain ⟨box, hbox⟩ := hexist
      have hmsg := sendToUser_eq_ok.mpr ⟨box, hbox, rfl⟩
      exact ⟨_, .done, by rw [call, hmsg]; rfl⟩
    · exact ⟨_, _, rfl⟩
    · exact ⟨_, _, rfl⟩
  obtain ⟨m', r, hcall⟩ := hcall
  exact ⟨m', r, hcall, exec_append_eq_ok.mpr
    ⟨m, outs, [r], hrun, exec_singleton_eq_ok.mpr ⟨r, hcall, rfl⟩, rfl⟩⟩

/-- A run which comes to its end sends to existing users only. -/
theorem sendsToExisting_of_exec {ops : List Op} {m : UserManager κ} {outs : List Reply}
    (h : exec (call hash) .new ops = .ok (m, outs)) : SendsToExisting hash ops := by
  rintro pre msg post rfl m₁ outs₁ hpre
  obtain ⟨m₁', outs₁', outs₂, hpre', hrest, -⟩ := exec_append_eq_ok.mp h
  rw [hpre] at hpre'
  cases hpre'
  obtain ⟨m₂, r, _, hcall, -, -⟩ := exec_cons_eq_ok.mp hrest
  obtain ⟨m₃, hsend, -⟩ := bind_eq_ok.mp hcall
  obtain ⟨box, hbox, -⟩ := sendToUser_eq_ok.mp hsend
  rw [doesUserExist_eq, hbox]
  rfl

open Classical in
/-- **Mailboxes deliver exactly once and in order.**  Nothing stops the manager; every
`getUserMessages` of the run returns what was put into the box since it was last emptied; an
`addUser` returns `EXISTS` exactly where a user of that hash was added before; and the calls that
are not about a box leave it as it is. -/
theorem mailboxes_deliver (hash : Str → κ) (ops : List Op) (hsend : SendsToExisting hash ops) :
    ∃ m outs, exec (call hash) .new ops = .ok (m, outs) ∧
      (∀ pre user post, ops = pre ++ .getUserMessages user :: post →
        outs[pre.length]? = some (.messages
          (pending (userHash hash user) ((pre.zip outs).map (event hash))))) ∧
      (∀ pre user post, ops = pre ++ .addUser user :: post →
        outs[pre.length]? = some (.code
          (if Adds hash pre (userHash hash user) then .EXISTS else .SUCCESS))) ∧
      ∀ (m₁ m₂ : UserManager κ) op r user, call hash m₁ op = .ok (m₂, r) →
        r = .code .EXISTS ∨ (∃ v, op = .doesUserExist v) ∨
          userHash hash op.user ≠ userHash hash user →
        m₂.m_usersByHash (userHash hash user) = m₁.m_usersByHash (userHash hash user) := by
  obtain ⟨m, outs, hrun⟩ := exec_isOk hsend
  refine ⟨m, outs, hrun, ?_, ?_, fun m₁ m₂ op r user hcall hop => call_frame hcall hop⟩
  · rintro pre user post rfl
    obtain ⟨m₁, outs₁, m₂, r, hpre, hzip, hget, hr⟩ := getElem?_outs hrun
    have hmessages : r = .messages (m₁.getUserMessages hash user).2 := by
      rw [call] at hget
      cases hget
      rfl
    rw [hr, hzip, hmessages, getUserMessages_eq_pending hpre]
  · rintro pre user post rfl
    obtain ⟨m₁, outs₁, m₂, r, hpre, -, hadd, hr⟩ := getElem?_outs hrun
    rw [hr]
    cases calls_of_call hadd with
    | addExisting _ hsome => rw [if_pos ((isSome_exec hpre _).mp hsome)]
    | addNew _ hnone =>
      rw [if_neg fun hadds => ?_]
      rw [← isSome_exec hpre, hnone] at hadds
      cases hadds

/-! ### A run -/

/-- The user `a b`. -/
def userAB : User := ⟨[97], [98]⟩

/-- A message from `a b` to `a b`. -/
def msgAB (b : UInt8) : UserMsg := ⟨userAB, userAB, [b]⟩

/-- Two messages, an attempt to add the user again between them, and two reads. -/
def opsAB : List Op :=
  [.addUser userAB, .sendToUser (msgAB 1), .addUser userAB, .sendToUser (msgAB 2),
    .getUserMessages userAB, .getUserMessages userAB]

theorem mailboxes_deliver_opsAB :
    ∃ m outs, exec (call (id : Str → Str)) .new opsAB = .ok (m, outs) ∧
      outs[4]? = some (.messages [msgAB 1, msgAB 2]) ∧ outs[5]? = some (.messages []) ∧
      outs[0]? = some (.code .SUCCESS) ∧ outs[2]? = some (.code .EXISTS) := by
  obtain ⟨m, outs, hrun, hget, hadd, -⟩ :=
    mailboxes_deliver (id : Str → Str) opsAB (sendsToExisting_of_exec rfl)
  have h₄ := hget (opsAB.take 4) userAB (opsAB.drop 5) rfl
  have h₅ := hget (opsAB.take 5) userAB (opsAB.drop 6) rfl
  have h₀ := hadd [] userAB (opsAB.drop 1) rfl
  have h₂ := hadd (opsAB.take 2) userAB (opsAB.drop 3) rfl
  have hnone : ¬Adds (id : Str → Str) [] (userHash id userAB) := fun ⟨_, hmem, _⟩ =>
    absurd hmem List.not_mem_nil
  rw [if_neg hnone] at h₀
  rw [if_pos ⟨userAB, List.mem_cons_self, rfl⟩] at h₂
  refine ⟨m, outs, hrun, h₄.trans ?_, h₅.trans ?_, h₀, h₂⟩
  · cases hrun
    rfl
  · cases hrun
    rfl

end Lab1.MessageStore
