import Lab1.Pagaya.Equiv.Flood
import Lab1.Pagaya.Game
import Mathlib.Logic.Function.Iterate

/-!
# Which boards are won

The colour is asked for once and then played again and again.  From the second play on it is also
the colour of `[0][0]`, and then a play moves it up by one row: a square is coloured for the one
below and for nothing else (`replay_iff`), so after `n` more plays it stands wherever it was up to
`n` rows further down (`replays_iff`).

Nothing is below the last row, and the first play colours the whole of it only if it was coloured
already (`lastRow_iff`).  So a board is won exactly when its last row is of the colour that was
entered, in 18 tries if not before, and otherwise no number of tries is enough
(`playTries_iff`, `getUserInput_iff`).
-/

namespace Lab1.Pagaya

/-! ### The whole board -/

theorem valid_of_mem_positions {p : Position} (h : p ∈ positions) : Valid p := by
  obtain ⟨i, hi, hp⟩ := List.mem_flatMap.mp h
  obtain ⟨j, hj, rfl⟩ := List.mem_map.mp hp
  rw [List.mem_range] at hi hj
  rcases Nat.lt_or_ge i BOARD_SIZE with hlt | hge
  · rw [rowLength, if_pos hlt] at hj
    have hsize : BOARD_SIZE = 18 := rfl
    exact valid_iff.mpr (by omega)
  · rw [rowLength, if_neg (by omega)] at hj
    exact absurd hj (Nat.not_lt_zero j)

variable {α : Type*}

theorem started_lastRow (board : Board α) (colorChosen : α) (j : ℤ) :
    started board colorChosen (17, j) = board (17, j) :=
  started_of_ne fun he => absurd (congrArg Prod.fst he) (show (17 : ℤ) ≠ 0 by omega)

variable [DecidableEq α] {board : Board α} {colorChosen : α}

theorem didIWin_iff : didIWin board colorChosen = true ↔ ∀ p, Valid p → board p = colorChosen := by
  simp only [didIWin, List.all_eq_true, beq_iff_eq]
  constructor
  · intro h p hp
    exact h p (mem_positions hp)
  · intro h p hp
    exact h p (valid_of_mem_positions hp)

/-! ### The first play -/

theorem processPlay_origin (board : Board α) (colorChosen : α) :
    processPlay board colorChosen (0, 0) = colorChosen := by
  have hv : Valid (0, 0) := valid_iff.mpr (by omega)
  have hstart : started board colorChosen (0, 0) = colorChosen := Function.update_self _ _ _
  rcases processPlay_eq_or board colorChosen hv with hnew | hnew
  · exact hnew
  · exact hnew.trans hstart

/-- In the last row a square can only be coloured for its left neighbour, and that one still has the
old colour then. -/
theorem lastRow_iff : (∀ j, Valid (17, j) → processPlay board colorChosen (17, j) = colorChosen) ↔
    ∀ j, Valid (17, j) → board (17, j) = colorChosen := by
  constructor
  · intro h j hj
    have hnew := h j hj
    rw [processPlay_apply hj, started_lastRow] at hnew
    split_ifs at hnew with hcase
    · rcases hcase with ⟨hself, hvalid, hleft⟩ | hbelow
      · -- the left neighbour is coloured too, so the old colour is the chosen one
        rw [started_lastRow] at hself
        rw [hself, ← hleft, h (j - 1) hvalid]
      · exact absurd (valid_iff.mp hbelow.1) (by omega)
    · exact hnew
  · intro h j hj
    rcases processPlay_eq_or board colorChosen hj with hnew | hnew
    · exact hnew
    · rw [hnew, started_lastRow, h j hj]

/-! ### The plays after it -/

/-- When the chosen colour is that of `[0][0]`, a square gets it from the one below. -/
theorem replay_iff (h0 : board (0, 0) = colorChosen) {i j : ℤ} (hv : Valid (i, j)) :
    processPlay board colorChosen (i, j) = colorChosen ↔
      board (i, j) = colorChosen ∨ (Valid (i + 1, j) ∧ board (i + 1, j) = colorChosen) := by
  have hstart : started board colorChosen = board := by
    rw [started, ← h0, Function.update_eq_self]
  constructor
  · intro hnew
    rw [processPlay_apply hv, hstart] at hnew
    split_ifs at hnew with hcase
    · rcases hcase with ⟨hself, _⟩ | ⟨hvalid, hbelow⟩
      · rw [hstart, h0] at hself
        exact Or.inl hself
      · rw [hstart, h0] at hbelow
        exact Or.inr ⟨hvalid, hbelow⟩
    · exact Or.inl hnew
  · rintro (hself | ⟨hvalid, hbelow⟩)
    · rcases processPlay_eq_or board colorChosen hv with hnew | hnew
      · exact hnew
      · rw [hnew, hstart, hself]
    · exact processPlay_of_below hv ⟨hvalid, by rw [hstart, hbelow, h0]⟩

/-- The board after a number of plays. -/
def plays (colorChosen : α) (n : ℕ) (board : Board α) : Board α :=
  (fun b => processPlay b colorChosen)^[n] board

theorem plays_succ (colorChosen : α) (n : ℕ) (board : Board α) :
    plays colorChosen (n + 1) board = plays colorChosen n (processPlay board colorChosen) := rfl

/-- After `n` more plays the colour has gone up by as many rows. -/
theorem replays_iff (n : ℕ) (h0 : board (0, 0) = colorChosen) {i j : ℤ} (hv : Valid (i, j)) :
    plays colorChosen n board (i, j) = colorChosen ↔
      ∃ d : ℕ, d ≤ n ∧ Valid (i + d, j) ∧ board (i + d, j) = colorChosen := by
  induction n generalizing board with
  | zero =>
    constructor
    · intro h
      have hhere : i + ((0 : ℕ) : ℤ) = i := Int.add_zero i
      refine ⟨0, le_rfl, ?_⟩
      rw [hhere]
      exact ⟨hv, h⟩
    · rintro ⟨d, hd, _, h⟩
      obtain rfl := Nat.le_zero.mp hd
      have hhere : i + ((0 : ℕ) : ℤ) = i := Int.add_zero i
      rw [hhere] at h
      exact h
  | succ n ih =>
    rw [plays_succ, ih (processPlay_origin board colorChosen)]
    constructor
    · rintro ⟨d, hd, hvalid, h⟩
      rcases (replay_iff h0 hvalid).mp h with hself | ⟨hvalid', hbelow⟩
      · exact ⟨d, by omega, hvalid, hself⟩
      · have hdown : i + ((d + 1 : ℕ) : ℤ) = i + d + 1 := by omega
        refine ⟨d + 1, by omega, ?_⟩
        rw [hdown]
        exact ⟨hvalid', hbelow⟩
    · rintro ⟨d, hd, hvalid, h⟩
      rcases Nat.lt_or_ge n d with hlt | hle
      · -- it comes from the row that only the last of the plays reaches
        obtain rfl : d = n + 1 := by omega
        have hdown : i + ((n + 1 : ℕ) : ℤ) = i + n + 1 := by omega
        rw [hdown] at hvalid h
        have hvalid' : Valid (i + n, j) := by
          rw [valid_iff] at hv hvalid ⊢
          omega
        exact ⟨n, le_rfl, hvalid', (replay_iff h0 hvalid').mpr (Or.inr ⟨hvalid, h⟩)⟩
      · exact ⟨d, hle, hvalid, (replay_iff h0 hvalid).mpr (Or.inl h)⟩

/-! ### The tries -/

/-- Some number of plays, one at the least and `n` at the most, colours the whole board. -/
def WonWithin (n : ℕ) (board : Board α) (colorChosen : α) : Prop :=
  ∃ k < n, ∀ p, Valid p → plays colorChosen (k + 1) board p = colorChosen

theorem playTries_eq_wonWithin (n : ℕ) (board : Board α) (colorChosen : α) :
    (playTries n board colorChosen).1 = true ↔ WonWithin n board colorChosen := by
  induction n generalizing board with
  | zero =>
    constructor
    · exact fun h => absurd h Bool.false_ne_true
    · rintro ⟨k, hk, _⟩
      exact absurd hk (Nat.not_lt_zero k)
  | succ n ih =>
    rw [playTries]
    split_ifs with hwin
    · exact iff_of_true rfl ⟨0, Nat.succ_pos n, didIWin_iff.mp hwin⟩
    · rw [ih]
      constructor
      · rintro ⟨k, hk, hall⟩
        exact ⟨k + 1, by omega, hall⟩
      · rintro ⟨k, hk, hall⟩
        cases k with
        | zero => exact absurd (didIWin_iff.mpr hall) hwin
        | succ k => exact ⟨k, by omega, hall⟩

/-- **The last row decides.** -/
theorem playTries_iff {n : ℕ} (hn : 18 ≤ n) (board : Board α) (colorChosen : α) :
    (playTries n board colorChosen).1 = true ↔
      ∀ j, Valid (17, j) → board (17, j) = colorChosen := by
  have h0 := processPlay_origin board colorChosen
  rw [playTries_eq_wonWithin, ← lastRow_iff]
  constructor
  · rintro ⟨k, _, hall⟩ j hj
    have hlast := hall _ hj
    rw [plays_succ, replays_iff k h0 hj] at hlast
    obtain ⟨d, _, hvalid, h⟩ := hlast
    obtain rfl : d = 0 := by
      rw [valid_iff] at hvalid
      omega
    simpa using h
  · intro h
    refine ⟨17, by omega, ?_⟩
    rintro ⟨i, j⟩ hv
    obtain ⟨hi, hj, hi', hj'⟩ := valid_iff.mp hv
    rw [plays_succ, replays_iff 17 h0 hv]
    have hdown : i + ((17 - i).toNat : ℤ) = 17 := by omega
    refine ⟨(17 - i).toNat, by omega, ?_⟩
    rw [hdown]
    have hlast : Valid (17, j) := valid_iff.mpr (by omega)
    exact ⟨hlast, h j hlast⟩

/-- A board that is won is of one colour. -/
theorem playTries_won (n : ℕ) (board : Board α) (colorChosen : α)
    (h : (playTries n board colorChosen).1 = true) {p : Position} (hp : Valid p) :
    (playTries n board colorChosen).2 p = colorChosen := by
  induction n generalizing board with
  | zero => exact absurd h Bool.false_ne_true
  | succ n ih =>
    rw [playTries] at h ⊢
    split_ifs at h ⊢ with hwin
    · dsimp only
      exact didIWin_iff.mp hwin p hp
    · exact ih _ h

/-- A board that is not has had all of the plays. -/
theorem playTries_lost (n : ℕ) (board : Board α) (colorChosen : α)
    (h : (playTries n board colorChosen).1 = false) :
    (playTries n board colorChosen).2 = plays colorChosen n board := by
  induction n generalizing board with
  | zero => rfl
  | succ n ih =>
    rw [playTries] at h ⊢
    split_ifs at h ⊢ with hwin
    rw [plays_succ]
    exact ih _ h

/-- A square of the last board has the chosen colour when, after the first play, it or one below it
in its column had it. -/
theorem playTries_snd_iff {n : ℕ} (hn : 18 ≤ n) (board : Board α) (colorChosen : α) {i j : ℤ}
    (hv : Valid (i, j)) :
    (playTries n board colorChosen).2 (i, j) = colorChosen ↔
      ∃ d : ℕ, Valid (i + d, j) ∧ processPlay board colorChosen (i + d, j) = colorChosen := by
  cases hwin : (playTries n board colorChosen).1 with
  | true =>
    refine iff_of_true (playTries_won n board colorChosen hwin hv) ⟨(17 - i).toNat, ?_⟩
    have hpos := valid_iff.mp hv
    have hdown : i + ((17 - i).toNat : ℤ) = 17 := by omega
    have hlast : Valid (17, j) := valid_iff.mpr (by omega)
    rw [hdown]
    exact ⟨hlast, lastRow_iff.mpr ((playTries_iff hn board colorChosen).mp hwin) j hlast⟩
  | false =>
    obtain ⟨m, rfl⟩ : ∃ m, n = m + 1 := ⟨n - 1, by omega⟩
    rw [playTries_lost _ board colorChosen hwin, plays_succ,
      replays_iff m (processPlay_origin board colorChosen) hv]
    constructor
    · rintro ⟨d, _, hvalid, h⟩
      exact ⟨d, hvalid, h⟩
    · rintro ⟨d, hvalid, h⟩
      -- the board has no more rows than there have been plays
      have hpos := valid_iff.mp hv
      have hpos' := valid_iff.mp hvalid
      exact ⟨d, by omega, hvalid, h⟩

/-! ### The game -/

/-- The first line that is a colour. -/
def entered (lines : List String) : Option String := lines.find? fun val => val ∈ colorNames

theorem askColor_snd (lines : List String) :
    (askColor lines).2 = match entered lines with
      | some val => .ok val
      | none => .error .eof := by
  induction lines with
  | nil => rfl
  | cons val lines ih =>
    rw [askColor, entered]
    by_cases hval : val ∈ colorNames
    · rw [if_pos hval, List.find?_cons_of_pos (by simpa using hval)]
    · rw [if_neg hval, List.find?_cons_of_neg (by simpa using hval)]
      exact ih

/-- While the colour is asked for, nobody wins. -/
theorem mem_askColor {lines : List String} {text : String} (h : text ∈ (askColor lines).1) :
    text = PROMPT ∨ text = BAD_INPUT := by
  induction lines with
  | nil => exact Or.inl (List.mem_singleton.mp h)
  | cons val lines ih =>
    rw [askColor] at h
    split_ifs at h
    · simpa using h
    · rcases List.mem_append.mp h with hasked | hlater
      · simpa using hasked
      · exact ih hlater

/-- What is accepted as a colour is one character. -/
theorem ord_of_entered {lines : List String} {val : String} (h : entered lines = some val) :
    ∃ colorChosen, ord val = .ok colorChosen := by
  have hmem : val ∈ colorNames := by simpa using List.find?_some h
  have hall : ∀ name ∈ colorNames, (ord name).toOption.isSome = true := by decide
  cases hord : ord val with
  | ok colorChosen => exact ⟨colorChosen, rfl⟩
  | error e =>
    have hok := hall val hmem
    rw [hord] at hok
    exact absurd hok Bool.false_ne_true

theorem getUserInput_of_entered (board : Board ℕ) {lines : List String} {val : String}
    {colorChosen : ℕ} (hval : entered lines = some val) (hord : ord val = .ok colorChosen) :
    getUserInput board lines
      = ((askColor lines).1 ++ [if (playTries NUM_TRIES board colorChosen).1 then YOU_WIN
            else GAME_ENDED],
          .ok (playTries NUM_TRIES board colorChosen).2) := by
  have hasked : askColor lines = ((askColor lines).1, .ok val) :=
    Prod.ext rfl (by rw [askColor_snd, hval])
  rw [getUserInput, hasked]
  simp only [hord]
  rcases playTries NUM_TRIES board colorChosen with ⟨_ | _, last⟩ <;> rfl

theorem getUserInput_of_none (board : Board ℕ) {lines : List String} (h : entered lines = none) :
    getUserInput board lines = ((askColor lines).1, .error .eof) := by
  have hasked : askColor lines = ((askColor lines).1, .error .eof) :=
    Prod.ext rfl (by rw [askColor_snd, h])
  rw [getUserInput, hasked]

/-- **A game is won exactly when the last row has the colour that is entered.** -/
theorem getUserInput_iff (board : Board ℕ) (lines : List String) :
    YOU_WIN ∈ (getUserInput board lines).1 ↔
      ∃ val colorChosen, entered lines = some val ∧ ord val = .ok colorChosen ∧
        ∀ j, Valid (17, j) → board (17, j) = colorChosen := by
  have hasking : YOU_WIN ∉ (askColor lines).1 := by
    intro hmem
    rcases mem_askColor hmem with h | h
    · exact absurd h (by decide)
    · exact absurd h (by decide)
  cases hval : entered lines with
  | none =>
    rw [getUserInput_of_none board hval]
    refine iff_of_false hasking ?_
    rintro ⟨val, _, h, _⟩
    exact absurd h (by simp)
  | some val =>
    obtain ⟨colorChosen, hord⟩ := ord_of_entered hval
    have htries : 18 ≤ NUM_TRIES := by decide
    have hdecides := playTries_iff htries board colorChosen
    rw [getUserInput_of_entered board hval hord]
    constructor
    · intro hmem
      rcases List.mem_append.mp hmem with hmem | hmem
      · exact absurd hmem hasking
      · refine ⟨val, colorChosen, rfl, hord, hdecides.mp ?_⟩
        by_contra hlost
        rw [if_neg hlost, List.mem_singleton] at hmem
        exact absurd hmem (by decide)
    · rintro ⟨val', colorChosen', hval', hord', hlast⟩
      obtain rfl := Option.some.inj hval'
      obtain rfl := Except.ok.inj (hord.symm.trans hord')
      rw [if_pos (hdecides.mpr hlast)]
      exact List.mem_append_right _ (List.mem_singleton.mpr rfl)

/-- **The board that is left.**  Each column has the colour from the lowest square that the first
play gave it, or left it, upwards. -/
theorem getUserInput_board (board : Board ℕ) (lines : List String) :
    match entered lines with
    | none => (getUserInput board lines).2 = .error .eof
    | some val => ∃ colorChosen last, ord val = .ok colorChosen ∧
        (getUserInput board lines).2 = .ok last ∧
        ∀ i j, Valid (i, j) → (last (i, j) = colorChosen ↔
          ∃ d : ℕ, Valid (i + d, j) ∧ processPlay board colorChosen (i + d, j) = colorChosen) := by
  cases hval : entered lines with
  | none => rw [getUserInput_of_none board hval]
  | some val =>
    obtain ⟨colorChosen, hord⟩ := ord_of_entered hval
    have htries : 18 ≤ NUM_TRIES := by decide
    refine ⟨colorChosen, (playTries NUM_TRIES board colorChosen).2, hord, ?_, ?_⟩
    · rw [getUserInput_of_entered board hval hord]
    · intro i j hv
      exact playTries_snd_iff htries board colorChosen hv

end Lab1.Pagaya
