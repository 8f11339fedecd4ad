import Lab1.Pagaya.GameBoard

/-!
# A game

`did_i_win` and `get_user_input` of `python/pagaya/main.py`.  The player is asked for a colour until
the line is one of them, and whatever was entered is called bad; then the same colour is played
until the board is won or the tries are used up.

What the player types is the list of the lines, and what is printed is a list of texts.  The board
that the game begins with is a parameter: the source draws its colours at random.
-/

namespace Lab1.Pagaya

section Board

variable {α : Type*} [DecidableEq α]

def NUM_TRIES : ℕ := 21

def didIWin (board : Board α) (colorChosen : α) : Bool :=
  positions.all fun p => board p == colorChosen

/-- The second loop of `get_user_input`: whether the game was won, and the board that it leaves. -/
def playTries : ℕ → Board α → α → Bool × Board α
  | 0, board, _ => (false, board)
  | numTries + 1, board, colorChosen =>
    let board := processPlay board colorChosen
    if didIWin board colorChosen then (true, board) else playTries numTries board colorChosen

end Board

/-- The exceptions that the functions can end with. -/
inductive PyError
  /-- `input` has no line. -/
  | eof
  /-- `ord` of a text that is not one character. -/
  | type
  deriving DecidableEq, Repr

def colorNames : List String := ["r", "b", "g", "y"]

def PROMPT : String := "Enter a color (r:b:g:y): "

def BAD_INPUT : String := "bad input. try again"

def YOU_WIN : String := "you win!!"

def GAME_ENDED : String := "game ended"

def ord (val : String) : Except PyError ℕ :=
  match val.toList with
  | [char] => .ok char.toNat
  | _ => .error .type

/-- The first loop of `get_user_input`: what it prints, and the colour. -/
def askColor : List String → List String × Except PyError String
  | [] => ([PROMPT], .error .eof)
  | val :: lines =>
    -- printed for a good colour too
    let asked := [PROMPT, BAD_INPUT]
    if val ∈ colorNames then (asked, .ok val)
    else (asked ++ (askColor lines).1, (askColor lines).2)

/-- What is printed, and the board, which `main` prints next. -/
def getUserInput (board : Board ℕ) (lines : List String) :
    List String × Except PyError (Board ℕ) :=
  match askColor lines with
  | (printed, .error e) => (printed, .error e)
  | (printed, .ok val) =>
    match ord val with
    | .error e => (printed, .error e)
    | .ok colorChosen =>
      match playTries NUM_TRIES board colorChosen with
      | (true, board) => (printed ++ [YOU_WIN], .ok board)
      | (false, board) => (printed ++ [GAME_ENDED], .ok board)

end Lab1.Pagaya
