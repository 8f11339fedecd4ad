import Mathlib.Data.List.Range
import Mathlib.Logic.Function.Basic

/-!
# The game board

`GameBoard` of `python/pagaya/main.py`: a square board in which a play colours squares.

The board is a function of the positions, of which only the valid ones are ever used.  A colour is
a value of any type that can be compared.
-/

namespace Lab1.Pagaya

variable {α : Type*} [DecidableEq α]

abbrev Position := ℤ × ℤ

abbrev Board (α : Type*) := Position → α

def BOARD_SIZE : ℕ := 18

def isValidPosition (i j : ℤ) : Bool :=
  (decide (i ≥ 0) && decide (j ≥ 0)) && (decide (i < BOARD_SIZE) && decide (j < BOARD_SIZE))

/-- As in the source, the conjunction binds the first two conditions only. -/
def shouldColorSquare (board : Board α) (currentColor : α) (i j : ℤ) : Bool :=
  board (i, j) == currentColor &&
      (isValidPosition i (j - 1) && board (i, j - 1) == currentColor) ||
    (isValidPosition (i + 1) j && board (i + 1, j) == currentColor)

/-- `len(self._board[i])`: the rows were put before the empty list that `_board` starts with, and so
this is the last row. -/
def rowLength (i : ℕ) : ℕ := if i < BOARD_SIZE then BOARD_SIZE else 0

/-- The positions that the two loops of a play go through. -/
def positions : List Position :=
  (List.range (BOARD_SIZE + 1)).flatMap fun i : ℕ =>
    (List.range (rowLength i)).map fun j : ℕ => ((i : ℤ), (j : ℤ))

def colorSquare (currentColor colorChosen : α) (board : Board α) (p : Position) : Board α :=
  if shouldColorSquare board currentColor p.1 p.2 then Function.update board p colorChosen
  else board

def processPlay (board : Board α) (colorChosen : α) : Board α :=
  let currentColor := board (0, 0)
  positions.foldl (colorSquare currentColor colorChosen) (Function.update board (0, 0) colorChosen)

end Lab1.Pagaya
