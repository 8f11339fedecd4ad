import Lab1.Library.Follow
import Lab1.MessageStore.Equiv.Lines

/-!
# The menu

What the user types is a list of lines, and the task should be what it is when it reads from that
list (`lineReader`): a handler takes the beginnings of as many lines as it asks for, and a choice is
the first character of a line.  The handlers do (`handleUserRequest_follows`); a choice is read from
a line that is not empty only.  The chunk of an empty line has no element 0.
-/

namespace Lab1.MessageStore

open ClientUiTask

/-! ### The task on lines -/

/-- What a line chooses. -/
def chosenOption : Str → UserOptions
  | [] => .BAD_OPT
  | c :: _ => optionOf c

/-- The lines that are left to be read. -/
def lineReader : Reader (List TypedLine) where
  readLineFromStream
    | [], _ => .error .streamException
    | l :: lines, n => .ok (lines, l.chars.take n)
  readUserRequest
    | [] => .error .streamException
    | l :: lines => .ok (lines, chosenOption l.chars)

/-- The same task on a stream with these lines. -/
def ClientUiTask.onStream {κ : Type} (t : ClientUiTask (List TypedLine) κ) :
    ClientUiTask InStream κ :=
  ⟨before t.input, t.output, t.m_keepRunning, t.m_userManager⟩

section Property

variable {κ : Type} [DecidableEq κ] (hash : Str → κ) (room : Room) (lines : List TypedLine)

/-- The loop has done `n` rounds, is going on and finds the lines `l :: ls` next. -/
def AtChoice (n : ℕ) (l : TypedLine) (ls : List TypedLine) : Prop :=
  ∃ t, runUiLoop hash lineReader n (start lines) = .ok t ∧ t.m_keepRunning = true ∧
    t.input = l :: ls

/-- Every line that stands where a choice is read is handled. -/
def MenuHandled : Prop :=
  ∀ n l ls, AtChoice hash lines n l ls →
    ∃ t, runUiLoop hash (stdReader room) n (start (before lines)) = .ok t ∧
      t.input = before (l :: ls) ∧
      readUserRequest room.chars t.input = .ok (before ls, chosenOption l.chars)

end Property

/-! ### One line -/

theorem readLineFromStream_follows (room : Room) (lines : List TypedLine) {n : ℕ} (hn : 1 ≤ n)
    (hmax : n ≤ MAX_MSG_SIZE) :
    FollowsBy (Prod.map before id) ((stdReader room).readLineFromStream (before lines) n)
      (lineReader.readLineFromStream lines n) := by
  rcases lines with _ | ⟨l, lines⟩
  · exact .error _ _
  · have hread : (stdReader room).readLineFromStream (before (l :: lines)) n
        = .ok (before lines, l.chars.take n) := readLineFromStream_before l lines hn
          (room.reservable.mono hmax)
    rw [hread]
    exact .ok rfl

theorem parseUserFromInput_follows (room : Room) (lines : List TypedLine) :
    FollowsBy (Prod.map before id)
      ((stdReader room).parseUserFromInput (before lines) (MAX_USR_NAME + MAX_USR_LAST))
      (lineReader.parseUserFromInput lines (MAX_USR_NAME + MAX_USR_LAST)) :=
  (readLineFromStream_follows room lines (by decide) (by decide)).bind fun _ => .ok rfl

/-- An empty line has no first character. -/
theorem readUserRequest_before (room : Room) (l : TypedLine) (lines : List TypedLine) :
    readUserRequest room.chars (before (l :: lines))
      = if l.chars = [] then .error (.fault .outOfBounds)
        else .ok (before lines, chosenOption l.chars) := by
  rw [readUserRequest, readLineFromStream_before l lines (Nat.le_refl 1)
    (room.reservable.mono (by decide)), ok_bind]
  rcases l.chars with _ | ⟨c, cs⟩
  · rfl
  · rfl

/-! ### The handlers -/

section Handlers

variable {κ : Type} [DecidableEq κ] (hash : Str → κ) (room : Room)
  (t : ClientUiTask (List TypedLine) κ)

theorem handleAddUser_follows :
    FollowsBy onStream (handleAddUser hash (stdReader room) t.onStream)
      (handleAddUser hash lineReader t) := by
  refine (parseUserFromInput_follows room t.input).bind fun (lines, user) => ?_
  -- whether the user exists
  exact .ite (.ok rfl) (.ok rfl)

theorem handleSendToUser_follows :
    FollowsBy onStream (handleSendToUser hash (stdReader room) t.onStream)
      (handleSendToUser hash lineReader t) := by
  refine (parseUserFromInput_follows room t.input).bind fun (lines, userFrom) => ?_
  refine .ite (.ok rfl) ?_
  refine (parseUserFromInput_follows room lines).bind fun (lines, userTo) => ?_
  refine .ite (.ok rfl) ?_
  have hmsg := readLineFromStream_follows room lines (n := MAX_MSG_SIZE) (by decide) le_rfl
  refine hmsg.bind fun (lines, chunkMsg) => ?_
  exact (FollowsBy.refl _).bind fun _ => .ok rfl

omit [DecidableEq κ] in
theorem onStream_displayAll (msgs : Messages) :
    (msgs.foldl (fun t msg => t.displaySingleMessage msg.m_msg) t).onStream
      = msgs.foldl (fun t msg => t.displaySingleMessage msg.m_msg) t.onStream :=
  (List.foldl_hom onStream fun _ _ => rfl).symm

theorem handleRecvForUser_follows :
    FollowsBy onStream (handleRecvForUser hash (stdReader room) t.onStream)
      (handleRecvForUser hash lineReader t) := by
  refine (parseUserFromInput_follows room t.input).bind fun (lines, user) => ?_
  refine .ite (.ok rfl) (.ite (.ok rfl) (.ok ?_))
  exact onStream_displayAll _ _

theorem handleUserRequest_follows (opt : UserOptions) :
    FollowsBy onStream (handleUserRequest hash (stdReader room) t.onStream opt)
      (handleUserRequest hash lineReader t opt) := by
  cases opt with
  | ADD_USER => exact handleAddUser_follows hash room t
  | SEND_MSG => exact handleSendToUser_follows hash room t
  | RECV_ALL_MSGS => exact handleRecvForUser_follows hash room t
  | EXIT => exact .ok rfl
  | BAD_OPT => exact .ok rfl

end Handlers

/-! ### The loop -/

section Loop

variable {κ : Type} [DecidableEq κ] (hash : Str → κ) (room : Room)

/-- A round whose choice is not an empty line. -/
theorem round_follows (t : ClientUiTask (List TypedLine) κ)
    (hne : ∀ l ls, t.input = l :: ls → l.chars ≠ []) :
    FollowsBy onStream (round hash (stdReader room) t.onStream) (round hash lineReader t) := by
  have hmenu : FollowsBy (Prod.map onStream id) (displayUserOptions (stdReader room) t.onStream)
      (displayUserOptions lineReader t) := by
    rcases t with ⟨_ | ⟨l, ls⟩, output, m_keepRunning, m_userManager⟩
    · exact .error _ _
    · have hread : readUserRequest room.chars (before (l :: ls))
          = .ok (before ls, chosenOption l.chars) := by
        rw [readUserRequest_before, if_neg (hne l ls rfl)]
      have hread' : FollowsBy (Prod.map before id)
          ((stdReader room).readUserRequest (before (l :: ls)))
          (lineReader.readUserRequest (l :: ls)) := by
        rw [show (stdReader room).readUserRequest (before (l :: ls)) = _ from hread]
        exact .ok rfl
      exact hread'.bind fun _ => .ok rfl
  exact hmenu.bind fun (t, opt) => handleUserRequest_follows hash room t opt

theorem runUiLoop_succ {δ : Type} (r : Reader δ) (n : ℕ) (t : ClientUiTask δ κ) :
    runUiLoop hash r (n + 1) t = round hash r t >>= fun t =>
      if t.m_keepRunning then runUiLoop hash r n t else .ok t := rfl

theorem runUiLoop_follows (n : ℕ) {t : ClientUiTask (List TypedLine) κ}
    (hrunning : t.m_keepRunning = true)
    (hne : ∀ m < n, ∀ t' l ls, runUiLoop hash lineReader m t = .ok t' → t'.m_keepRunning = true →
      t'.input = l :: ls → l.chars ≠ []) :
    FollowsBy onStream (runUiLoop hash (stdReader room) n t.onStream)
      (runUiLoop hash lineReader n t) := by
  induction n generalizing t with
  | zero => exact .ok rfl
  | succ n ih =>
    intro t₂ hrun
    obtain ⟨t₁, hround, hrest⟩ := bind_eq_ok.mp hrun
    have hfirst := round_follows hash room t fun l ls hl =>
      hne 0 (Nat.succ_pos n) t l ls rfl hrunning hl
    rw [runUiLoop_succ, hfirst t₁ hround, ok_bind]
    show (if t₁.m_keepRunning then _ else _) = _
    split_ifs at hrest ⊢ with hgo
    · refine ih hgo (fun m hm t' l ls hrun' => ?_) t₂ hrest
      refine hne (m + 1) (Nat.succ_lt_succ hm) t' l ls ?_
      rw [runUiLoop_succ, hround, ok_bind, if_pos hgo, hrun']
    · cases hrest
      rfl

/-- **The menu.**  Every choice is handled if and only if no choice is an empty line. -/
theorem menuHandled_iff (lines : List TypedLine) :
    MenuHandled hash room lines ↔ ∀ n l ls, AtChoice hash lines n l ls → l.chars ≠ [] := by
  constructor
  · intro hmenu n l ls hat hnil
    obtain ⟨t, _, hinput, hread⟩ := hmenu n l ls hat
    rw [hinput, readUserRequest_before, if_pos hnil] at hread
    cases hread
  · rintro hne n l ls ⟨t, hrun, hrunning, hinput⟩
    have hfollows := runUiLoop_follows hash room n (t := start lines) rfl
      (fun m _ t' l' ls' hrun' hrunning' hinput' => hne m l' ls' ⟨t', hrun', hrunning', hinput'⟩)
    refine ⟨t.onStream, hfollows t hrun, congrArg before hinput, ?_⟩
    show readUserRequest room.chars (before t.input) = _
    rw [hinput, readUserRequest_before, if_neg (hne n l ls ⟨t, hrun, hrunning, hinput⟩)]

end Loop

/-- The user types an empty line. -/
theorem not_menuHandled_emptyLine :
    readUserRequest 128 (before [⟨[], by decide⟩]) = .error (.fault .outOfBounds) ∧
      ¬MenuHandled (id : Str → Str) ⟨128, by decide⟩ [⟨[], by decide⟩] := by
  refine ⟨rfl, fun hmenu => ?_⟩
  obtain ⟨t, hrun, _, hread⟩ := hmenu 0 ⟨[], by decide⟩ [] ⟨_, rfl, rfl, rfl⟩
  cases hrun
  cases hread

end Lab1.MessageStore
