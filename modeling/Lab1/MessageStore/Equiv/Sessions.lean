import Lab1.MessageStore.Equiv.Mailboxes
import Lab1.MessageStore.Equiv.Menu
import Lab1.MessageStore.Equiv.Names
import Mathlib.Data.Set.Function

/-!
# A session at the console

What the message store is for: users are added, send each other messages, and receive what was sent
to them.  A `Service` is that, without hashes, menus or streams of characters.  A session is a list
of dialogues; in each of them the user types what is asked for, and in the end leaves.  The program
that reads the typed lines displays exactly what the service says (`displays_session`), as long as
the names in use have different hashes.
-/

namespace Lab1.MessageStore

open ClientUiTask UserManager

/-! ### The service -/

/-- A user as they are typed: not both names have the greatest length. -/
structure TypedUser where
  first : TypedName MAX_USR_NAME
  last : TypedName MAX_USR_LAST
  short : ¬(first.chars.length = MAX_USR_NAME ∧ last.chars.length = MAX_USR_LAST)

namespace TypedUser

def user (u : TypedUser) : User := ⟨u.first.chars, u.last.chars⟩

def line (u : TypedUser) : TypedLine := nameLine u.first u.last

end TypedUser

inductive Dialogue where
  | add (u : TypedUser)
  | send (src dst : TypedUser) (text : TypedLine)
  | recv (u : TypedUser)
  /-- a choice that the menu does not have -/
  | other (c : TypedLine) (hne : c.chars ≠ []) (hbad : chosenOption c.chars = .BAD_OPT)

/-- The users that a dialogue names. -/
def Dialogue.users : Dialogue → List User
  | add u => [u.user]
  | send src dst _ => [src.user, dst.user]
  | recv u => [u.user]
  | other _ _ _ => []

/-- The texts in the box of each user who has been added. -/
abbrev Service := User → Option (List Str)

/-- What the menu chooses by. -/
def addChoice : TypedLine := ⟨[49], by decide⟩

def sendChoice : TypedLine := ⟨[50], by decide⟩

def recvChoice : TypedLine := ⟨[51], by decide⟩

def exitChoice : TypedLine := ⟨[52], by decide⟩

/-- The line that a dialogue begins with. -/
def Dialogue.choice : Dialogue → TypedLine
  | add _ => addChoice
  | send _ _ _ => sendChoice
  | recv _ => recvChoice
  | other c _ _ => c

theorem Dialogue.choice_ne_nil (d : Dialogue) : d.choice.chars ≠ [] := by
  cases d with
  | add u => exact List.cons_ne_nil _ _
  | send src dst text => exact List.cons_ne_nil _ _
  | recv u => exact List.cons_ne_nil _ _
  | other c hne hbad => exact hne

def menu : List Str := [WELCOME, ADD, SEND, RECV, EXIT]

/-- What is displayed of a box. -/
def received : List Str → List Str
  | [] => [NO_MSG]
  | texts => MSG_HEADER :: texts

namespace Service

def new : Service := fun _ => none

/-- What becomes of the service, and what is displayed. -/
def step (s : Service) : Dialogue → Service × List Str
  | .add u =>
    match s u.user with
    | some _ => (s, [USR_ADD, USR_EXIST])
    | none => (Function.update s u.user (some []), [USR_ADD])
  | .send src dst text =>
    match s src.user, s dst.user with
    | none, _ => (s, [SEND_USR_FROM, NO_SUCH_USER])
    | some _, none => (s, [SEND_USR_FROM, SEND_USR_TO, NO_SUCH_USER])
    | some _, some box =>
      (Function.update s dst.user (some (box ++ [text.chars.take MAX_MSG_SIZE])),
        [SEND_USR_FROM, SEND_USR_TO, USER_MSG])
  | .recv u =>
    match s u.user with
    | none => (s, [RCV_USR, NO_SUCH_USER])
    | some texts => (Function.update s u.user (some []), RCV_USR :: received texts)
  | .other _ _ _ => (s, [BAD_OPT])

/-- What is typed in a dialogue: a sender who does not exist is not asked for a recipient. -/
def typed (s : Service) : Dialogue → List TypedLine
  | .add u => [addChoice, u.line]
  | .send src dst text =>
    match s src.user, s dst.user with
    | none, _ => [sendChoice, src.line]
    | some _, none => [sendChoice, src.line, dst.line]
    | some _, some _ => [sendChoice, src.line, dst.line, text]
  | .recv u => [recvChoice, u.line]
  | .other c _ _ => [c]

theorem typed_eq (s : Service) (d : Dialogue) : s.typed d = d.choice :: (s.typed d).tail := by
  cases d with
  | add u => rfl
  | send src dst text =>
    rw [typed]
    rcases s src.user with _ | texts
    · rfl
    · rcases s dst.user with _ | texts'
      · rfl
      · rfl
  | recv u => rfl
  | other c hne hbad => rfl

/-- What is typed in a session. -/
def script (s : Service) : List Dialogue → List TypedLine
  | [] => [exitChoice]
  | d :: ds => s.typed d ++ script (s.step d).1 ds

/-- What is displayed in a session. -/
def transcript (s : Service) : List Dialogue → List Str
  | [] => menu ++ [GOOD_BYE]
  | d :: ds => menu ++ (s.step d).2 ++ transcript (s.step d).1 ds

end Service

/-- What is on the console after some more messages. -/
def display (output : Str) (msgs : List Str) : Str := msgs.foldl StdStreamIODevice.writeData output

theorem display_append (output : Str) (msgs msgs' : List Str) :
    display output (msgs ++ msgs') = display (display output msgs) msgs' := List.foldl_append

/-! ### The manager beside the service -/

section Agrees

variable {κ : Type} {hash : Str → κ} {users : Set User} {m : UserManager κ} {s : Service} {u : User}

/-- For each of the users there is the box that the service has. -/
def Agrees (hash : Str → κ) (users : Set User) (m : UserManager κ) (s : Service) : Prop :=
  ∀ u ∈ users, (m.boxes (userHash hash u)).map (List.map UserMsg.m_msg) = s u

theorem Agrees.isSome (h : Agrees hash users m s) (hu : u ∈ users) {texts : List Str}
    (hsome : s u = some texts) :
    ∃ box, m.m_usersByHash (userHash hash u) = some box ∧
      box.m_msgs.map UserMsg.m_msg = texts := by
  have hbox := h u hu
  rw [hsome, Option.map_eq_some_iff] at hbox
  obtain ⟨msgs, hmsgs, rfl⟩ := hbox
  obtain ⟨box, hbox, rfl⟩ := Option.map_eq_some_iff.mp hmsgs
  exact ⟨box, hbox, rfl⟩

theorem Agrees.doesUserExist (h : Agrees hash users m s) (hu : u ∈ users) :
    m.doesUserExist hash u = (s u).isSome := by
  rw [doesUserExist_eq, ← h u hu, Option.isSome_map, boxes, Option.isSome_map]

variable [DecidableEq κ]

/-- A box is changed; the boxes of the other users are under other hashes. -/
theorem Agrees.setBox (h : Agrees hash users m s) (hinj : Set.InjOn (userHash hash) users)
    (hu : u ∈ users) (box : MsgStoreUserBox) :
    Agrees hash users (m.setBox (userHash hash u) box)
      (Function.update s u (some (box.m_msgs.map UserMsg.m_msg))) := by
  intro v hv
  rw [boxes_setBox]
  by_cases heq : v = u
  · rw [heq, Function.update_self, Function.update_self]
    rfl
  · -- here the hashes have to be different
    have hne : userHash hash v ≠ userHash hash u := fun hhash => heq (hinj hv hu hhash)
    rw [Function.update_of_ne hne, Function.update_of_ne heq]
    exact h v hv

end Agrees

/-! ### One dialogue -/

theorem TypedUser.parseUserFromInput (u : TypedUser) (lines : List TypedLine) :
    lineReader.parseUserFromInput (u.line :: lines) (MAX_USR_NAME + MAX_USR_LAST)
      = .ok (lines, u.user) := by
  have hfirst : u.first.chars.length ≤ 20 := u.first.length_le
  have hlast : u.last.chars.length ≤ 20 := u.last.length_le
  have hshort : ¬(u.first.chars.length = 20 ∧ u.last.chars.length = 20) := u.short
  have hstream := parseUserFromInput_nameLine ⟨MAX_MSG_SIZE, le_rfl⟩ u.first u.last (textOf lines)
  have htext : (nameLine u.first u.last).chars ++ newline :: textOf lines
      = textOf (u.line :: lines) := (textOf_cons _ _).symm
  rw [htext, List.take_of_length_le (by omega)] at hstream
  -- what the stream gives is what the lines give
  have hfollows := parseUserFromInput_follows ⟨MAX_MSG_SIZE, le_rfl⟩ (u.line :: lines) _ rfl
  rw [show (⟨textOf (u.line :: lines), true⟩ : InStream) = before (u.line :: lines) from rfl,
    hfollows] at hstream
  have huser := congrArg Prod.snd (Except.ok.inj hstream)
  exact congrArg (fun user => Except.ok (lines, user)) huser

section Dialogues

variable {κ : Type} [DecidableEq κ] {hash : Str → κ} {users : Set User} {m : UserManager κ}
  {s : Service} (output : Str) (lines : List TypedLine)

omit [DecidableEq κ] in
theorem displayAll_eq (msgs : Messages) (t : ClientUiTask (List TypedLine) κ) :
    msgs.foldl (fun t msg => t.displaySingleMessage msg.m_msg) t
      = { t with output := display t.output (msgs.map UserMsg.m_msg) } := by
  induction msgs generalizing t with
  | nil => rfl
  | cons msg msgs ih =>
    rw [List.foldl_cons, ih]
    rfl

/-- A handler on the lines `typed`, with `msgs` for what it displays. -/
def Does (hash : Str → κ) (users : Set User) (handler : ClientUiTask (List TypedLine) κ →
    Except Stop (ClientUiTask (List TypedLine) κ)) (m : UserManager κ) (typed : List TypedLine)
    (s : Service) (msgs : List Str) : Prop :=
  ∀ output lines, ∃ m', handler ⟨typed ++ lines, output, true, m⟩
    = .ok ⟨lines, display output msgs, true, m'⟩ ∧ Agrees hash users m' s

theorem handleAddUser_does (h : Agrees hash users m s) (hinj : Set.InjOn (userHash hash) users)
    {u : TypedUser} (hu : u.user ∈ users) :
    Does hash users (handleAddUser hash lineReader) m [u.line] (s.step (.add u)).1
      (s.step (.add u)).2 := by
  intro output lines
  have hexist := h.doesUserExist hu
  have hparse := u.parseUserFromInput lines
  rw [List.singleton_append, Service.step]
  rcases hs : s u.user with _ | texts
  · have hadd : m.addUser hash u.user = (m.setBox (userHash hash u.user) .new, .SUCCESS) := by
      rw [addUser, hexist, hs]
      rfl
    refine ⟨m.setBox (userHash hash u.user) .new, ?_, h.setBox hinj hu .new⟩
    simp only [handleAddUser, displaySingleMessage, hparse, ok_bind, hadd]
    rfl
  · have hadd : m.addUser hash u.user = (m, .EXISTS) := by
      rw [addUser, hexist, hs]
      rfl
    refine ⟨m, ?_, h⟩
    simp only [handleAddUser, displaySingleMessage, hparse, ok_bind, hadd]
    rfl

theorem handleRecvForUser_does (h : Agrees hash users m s)
    (hinj : Set.InjOn (userHash hash) users) {u : TypedUser} (hu : u.user ∈ users) :
    Does hash users (handleRecvForUser hash lineReader) m [u.line] (s.step (.recv u)).1
      (s.step (.recv u)).2 := by
  intro output lines
  have hexist := h.doesUserExist hu
  have hparse := u.parseUserFromInput lines
  rw [List.singleton_append, Service.step]
  rcases hs : s u.user with _ | texts
  · rw [hs] at hexist
    refine ⟨m, ?_, h⟩
    simp only [handleRecvForUser, displaySingleMessage, hparse, ok_bind, hexist]
    rfl
  · rw [hs] at hexist
    obtain ⟨box, hbox, rfl⟩ := h.isSome hu hs
    have hget : m.getUserMessages hash u.user
        = (m.setBox (userHash hash u.user) box.clearUsersBox, box.m_msgs) := by
      rw [getUserMessages, findUserBox, hbox]
      rfl
    refine ⟨m.setBox (userHash hash u.user) box.clearUsersBox, ?_,
      h.setBox hinj hu box.clearUsersBox⟩
    simp only [handleRecvForUser, displaySingleMessage, hparse, ok_bind, hexist, hget]
    rcases box.m_msgs with _ | ⟨msg, msgs⟩
    · -- an empty box has a text of its own
      rfl
    · exact congrArg Except.ok (displayAll_eq (msg :: msgs) _)

theorem handleSendToUser_does (h : Agrees hash users m s)
    (hinj : Set.InjOn (userHash hash) users) {src dst : TypedUser} (hsrc : src.user ∈ users)
    (hdst : dst.user ∈ users) (text : TypedLine) :
    Does hash users (handleSendToUser hash lineReader) m
      (s.typed (.send src dst text)).tail (s.step (.send src dst text)).1
      (s.step (.send src dst text)).2 := by
  intro output lines
  have hexist := h.doesUserExist hsrc
  have hexist' := h.doesUserExist hdst
  rw [Service.step, Service.typed]
  rcases hs : s src.user with _ | texts
  · rw [hs] at hexist
    refine ⟨m, ?_, h⟩
    simp only [handleSendToUser, displaySingleMessage, List.tail_cons, List.singleton_append,
      src.parseUserFromInput, ok_bind, hexist]
    rfl
  rw [hs] at hexist
  rcases hd : s dst.user with _ | texts'
  · rw [hd] at hexist'
    refine ⟨m, ?_, h⟩
    simp only [handleSendToUser, displaySingleMessage, List.tail_cons, List.cons_append,
      src.parseUserFromInput, dst.parseUserFromInput, ok_bind, hexist, hexist']
    rfl
  · rw [hd] at hexist'
    obtain ⟨box, hbox, rfl⟩ := h.isSome hdst hd
    have hsend : m.sendToUser hash ⟨src.user, dst.user, text.chars.take MAX_MSG_SIZE⟩
        = .ok (m.setBox (userHash hash dst.user)
          (box.addMessage ⟨src.user, dst.user, text.chars.take MAX_MSG_SIZE⟩)) :=
      sendToUser_eq_ok.mpr ⟨box, hbox, rfl⟩
    have hagrees := h.setBox hinj hdst
      (box.addMessage ⟨src.user, dst.user, text.chars.take MAX_MSG_SIZE⟩)
    rw [MsgStoreUserBox.addMessage, List.map_append] at hagrees
    refine ⟨_, ?_, hagrees⟩
    have hread : lineReader.readLineFromStream (text :: lines) MAX_MSG_SIZE
        = .ok (lines, text.chars.take MAX_MSG_SIZE) := rfl
    simp only [handleSendToUser, displaySingleMessage, List.tail_cons, List.cons_append,
      List.nil_append, src.parseUserFromInput, dst.parseUserFromInput, ok_bind, hexist, hexist',
      hread, hsend]
    rfl

/-- The choice is read from the first line, and the menu is displayed before it. -/
theorem round_does {d : TypedLine} {typed : List TypedLine} {msgs : List Str}
    (h : Does hash users (fun t => handleUserRequest hash lineReader t (chosenOption d.chars)) m
      typed s msgs) :
    Does hash users (round hash lineReader) m (d :: typed) s (menu ++ msgs) := by
  intro output lines
  obtain ⟨m', hrun, hagrees⟩ := h (display output menu) lines
  refine ⟨m', ?_, hagrees⟩
  rw [display_append]
  exact hrun

theorem round_typed (h : Agrees hash users m s) (hinj : Set.InjOn (userHash hash) users)
    {d : Dialogue} (hd : ∀ u ∈ d.users, u ∈ users) :
    Does hash users (round hash lineReader) m (s.typed d) (s.step d).1 (menu ++ (s.step d).2) := by
  cases d with
  | add u => exact round_does (handleAddUser_does h hinj (hd _ List.mem_cons_self))
  | send src dst text =>
    have hsend := handleSendToUser_does h hinj (hd _ List.mem_cons_self)
      (hd _ (List.mem_cons_of_mem _ List.mem_cons_self)) text
    rw [s.typed_eq]
    exact round_does hsend
  | recv u => exact round_does (handleRecvForUser_does h hinj (hd _ List.mem_cons_self))
  | other c hne hbad =>
    have hdoes : Does hash users
        (fun t => handleUserRequest hash lineReader t (chosenOption c.chars)) m [] s [BAD_OPT] := by
      intro output lines
      refine ⟨m, ?_, h⟩
      rw [hbad]
      rfl
    exact round_does hdoes

/-- A round of the program itself. -/
theorem round_std (room : Room) (h : Agrees hash users m s) (hinj : Set.InjOn (userHash hash) users)
    {d : Dialogue} (hd : ∀ u ∈ d.users, u ∈ users) (output : Str) (lines : List TypedLine) :
    ∃ m', round hash (stdReader room) ⟨before (s.typed d ++ lines), output, true, m⟩
        = .ok ⟨before lines, display output (menu ++ (s.step d).2), true, m'⟩ ∧
      Agrees hash users m' (s.step d).1 := by
  obtain ⟨m', hrun, hagrees⟩ := round_typed h hinj hd output lines
  refine ⟨m', ?_, hagrees⟩
  refine round_follows hash room ⟨s.typed d ++ lines, output, true, m⟩
    (fun l ls hl => ?_) _ hrun
  rw [s.typed_eq] at hl
  obtain ⟨rfl, -⟩ := List.cons.inj hl
  exact d.choice_ne_nil

end Dialogues

/-! ### Sessions -/

section Sessions

variable {κ : Type} [DecidableEq κ] {hash : Str → κ} {users : Set User}

/-- The rest of a session. -/
theorem session_from (room : Room) (hinj : Set.InjOn (userHash hash) users) {ds : List Dialogue}
    (hds : ∀ d ∈ ds, ∀ u ∈ d.users, u ∈ users) {m : UserManager κ} {s : Service}
    (h : Agrees hash users m s) (output : Str) (k : ℕ) :
    ∃ m', runUiLoop hash (stdReader room) (ds.length + 1 + k)
        ⟨before (s.script ds), output, true, m⟩
      = .ok ⟨before [], display output (s.transcript ds), false, m'⟩ := by
  induction ds generalizing m s output with
  | nil =>
    -- the choice to leave
    refine ⟨m, ?_⟩
    have hround : round hash (stdReader room) ⟨before [exitChoice], output, true, m⟩
        = .ok ⟨before [], display output (menu ++ [GOOD_BYE]), false, m⟩ :=
      round_follows hash room ⟨[exitChoice], output, true, m⟩
        (fun l ls hl => by
          obtain ⟨rfl, -⟩ := List.cons.inj hl
          exact List.cons_ne_nil _ _) _ rfl
    rw [List.length_nil, Nat.zero_add, Nat.add_comm 1 k, runUiLoop_succ, Service.script, hround,
      ok_bind]
    rfl
  | cons d ds ih =>
    obtain ⟨hd, hds⟩ := List.forall_mem_cons.mp hds
    obtain ⟨m₁, hround, hagrees⟩ :=
      round_std room h hinj hd output ((s.step d).1.script ds)
    obtain ⟨m', hrun⟩ := ih hds hagrees (display output (menu ++ (s.step d).2))
    refine ⟨m', ?_⟩
    have hlen : (d :: ds).length + 1 + k = (ds.length + 1 + k) + 1 := by
      rw [List.length_cons]
      omega
    have htranscript : display output (s.transcript (d :: ds))
        = display (display output (menu ++ (s.step d).2)) ((s.step d).1.transcript ds) :=
      display_append _ _ _
    rw [hlen, runUiLoop_succ, Service.script, hround, ok_bind, htranscript, ← hrun]
    rfl

/-- **A session.**  When the users that it names have different hashes, the program displays exactly
what the service says, reads all that is typed, and ends. -/
theorem displays_session (room : Room) (hinj : Set.InjOn (userHash hash) users) {ds : List Dialogue}
    (hds : ∀ d ∈ ds, ∀ u ∈ d.users, u ∈ users) {n : ℕ} (hn : ds.length < n) :
    ∃ m, runUiLoop hash (stdReader room) n (start (before (Service.new.script ds)))
      = .ok ⟨before [], display [] (Service.new.transcript ds), false, m⟩ := by
  obtain ⟨k, rfl⟩ := Nat.exists_eq_add_of_le hn
  have hnew : Agrees hash users (.new : UserManager κ) Service.new := fun _ _ => rfl
  exact session_from room hinj hds hnew [] k

end Sessions

/-! ### A short session -/

/-- A name of one letter. -/
def oneLetter (max : ℕ) (hmax : 1 ≤ max) (c : UInt8) (hc : c ≠ space ∧ c ≠ newline ∧ c ≠ nul) :
    TypedName max where
  chars := [c]
  pos := Nat.le_refl 1
  length_le := hmax
  clean _ hd := List.mem_singleton.mp hd ▸ hc

/-- The user with the names `a` and `b`. -/
def typedAB : TypedUser where
  first := oneLetter MAX_USR_NAME (by decide) 97 (by decide)
  last := oneLetter MAX_USR_LAST (by decide) 98 (by decide)
  short := by decide

/-- The user is added, writes to themself and receives the message. -/
def dialoguesAB : List Dialogue :=
  [.add typedAB, .send typedAB typedAB ⟨[104, 105], by decide⟩, .recv typedAB]

theorem displays_session_dialoguesAB : ∃ m,
    runUiLoop (id : Str → Str) (stdReader ⟨128, by decide⟩) 4
        (start (before (Service.new.script dialoguesAB)))
      = .ok ⟨before [], display [] (Service.new.transcript dialoguesAB), false, m⟩ := by
  have hinj : Set.InjOn (userHash (id : Str → Str)) {userAB} := Set.injOn_singleton _ _
  have hall : ∀ d ∈ dialoguesAB, ∀ u ∈ d.users, u = userAB := by decide
  exact displays_session _ hinj hall (by decide)

end Lab1.MessageStore
