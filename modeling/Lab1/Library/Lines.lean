import Mathlib.Data.List.Infix

/-!
# Lines of a text

A `Line` is a list of characters without the separator; a text is what some lines come to when a
separator stands behind each of them.

`upTo sep n s` is the part of `s` that a reader takes who stops behind the first separator, or after
`n` characters.  It is the longest prefix of `s` with at most `n` characters in which the separator
is at most the last one (`isLongest_upTo`).
-/

namespace Lab1

variable {α : Type*} {sep : α}

/-! ### Texts -/

/-- Characters without a separator. -/
structure Line (sep : α) where
  chars : List α
  not_mem : sep ∉ chars

/-- The lines, with a separator behind each. -/
def textOf (ls : List (Line sep)) : List α := ls.flatMap fun l => l.chars ++ [sep]

@[simp] theorem textOf_nil : textOf ([] : List (Line sep)) = [] := rfl

@[simp] theorem textOf_cons (l : Line sep) (ls : List (Line sep)) :
    textOf (l :: ls) = l.chars ++ sep :: textOf ls := by
  rw [textOf, List.flatMap_cons, List.append_assoc, List.singleton_append]
  rfl

/-! ### Reading a part -/

/-- The separator is at most the last character, and there are no more than `n`. -/
structure AtMostLine (sep : α) (n : ℕ) (p : List α) : Prop where
  length_le : p.length ≤ n
  not_mem : sep ∉ p.dropLast

/-- The longest prefix of this kind. -/
structure IsLongest (sep : α) (n : ℕ) (s p : List α) : Prop where
  isPrefix : p <+: s
  atMostLine : AtMostLine sep n p
  longest : ∀ q, q <+: s → AtMostLine sep n q → q.length ≤ p.length

variable [DecidableEq α]

/-- Up to the first separator, and no more than `n` characters. -/
def upTo (sep : α) : ℕ → List α → List α
  | 0, _ => []
  | _ + 1, [] => []
  | n + 1, c :: cs => if c = sep then [c] else c :: upTo sep n cs

theorem upTo_prefix (n : ℕ) (s : List α) : upTo sep n s <+: s := by
  induction n generalizing s with
  | zero => exact List.nil_prefix
  | succ n ih =>
    rcases s with _ | ⟨c, cs⟩
    · exact List.nil_prefix
    · rw [upTo]
      split_ifs with hc
      · exact ⟨cs, rfl⟩
      · exact (List.prefix_cons_inj c).mpr (ih cs)

theorem atMostLine_upTo (n : ℕ) (s : List α) : AtMostLine sep n (upTo sep n s) := by
  induction n generalizing s with
  | zero => exact ⟨Nat.le_refl 0, nofun⟩
  | succ n ih =>
    rcases s with _ | ⟨c, cs⟩
    · exact ⟨Nat.zero_le _, nofun⟩
    · obtain ⟨hlen, hmem⟩ := ih cs
      rw [upTo]
      split_ifs with hc
      · exact ⟨Nat.succ_le_succ (Nat.zero_le n), nofun⟩
      · refine ⟨Nat.succ_le_succ hlen, ?_⟩
        rcases hrest : upTo sep n cs with _ | ⟨d, ds⟩
        · exact nofun
        · rw [hrest] at hmem
          rw [List.dropLast_cons_cons, List.mem_cons]
          rintro (hsep | hsep)
          · exact hc hsep.symm
          · exact hmem hsep

/-- Every prefix of this kind is a prefix of what is read. -/
theorem AtMostLine.prefix_upTo {n : ℕ} {s q : List α} (h : AtMostLine sep n q) (hq : q <+: s) :
    q <+: upTo sep n s := by
  induction n generalizing s q with
  | zero =>
    rw [List.length_eq_zero_iff.mp (Nat.le_zero.mp h.length_le)]
    exact List.nil_prefix
  | succ n ih =>
    rcases q with _ | ⟨d, q⟩
    · exact List.nil_prefix
    rcases s with _ | ⟨c, cs⟩
    · cases List.prefix_nil.mp hq
    obtain ⟨rfl, hrest⟩ := List.cons_prefix_cons.mp hq
    obtain ⟨hlen, hmem⟩ := h
    rw [upTo]
    rcases q with _ | ⟨e, q⟩
    · split_ifs with hd
      · exact List.prefix_refl _
      · exact (List.prefix_cons_inj d).mpr List.nil_prefix
    · -- the first character is not the last one
      rw [List.dropLast_cons_cons, List.mem_cons, not_or] at hmem
      rw [if_neg (Ne.symm hmem.1)]
      exact (List.prefix_cons_inj d).mpr (ih ⟨Nat.le_of_succ_le_succ hlen, hmem.2⟩ hrest)

theorem isLongest_upTo (n : ℕ) (s : List α) : IsLongest sep n s (upTo sep n s) where
  isPrefix := upTo_prefix n s
  atMostLine := atMostLine_upTo n s
  longest _ hq h := (h.prefix_upTo hq).length_le

/-- Of a text, nothing behind the first line is read. -/
theorem Line.upTo_append (l : Line sep) (n : ℕ) (rest : List α) :
    upTo sep n (l.chars ++ sep :: rest) = (l.chars ++ [sep]).take n := by
  obtain ⟨chars, hmem⟩ := l
  induction chars generalizing n with
  | nil =>
    rcases n with _ | n
    · rfl
    · rw [List.nil_append, upTo, if_pos rfl]
      exact (List.take_of_length_le (Nat.succ_le_succ (Nat.zero_le n))).symm
  | cons c cs ih =>
    obtain ⟨hc, hcs⟩ := not_or.mp (List.mem_cons.not.mp hmem)
    rcases n with _ | n
    · rfl
    · rw [List.cons_append, upTo, if_neg (Ne.symm hc), ih n hcs]
      rfl

/-- What is behind the first separator. -/
theorem Line.dropWhile_append (l : Line sep) (rest : List α) :
    (l.chars ++ sep :: rest).dropWhile (· ≠ sep) = sep :: rest := by
  rw [List.dropWhile_append_of_pos, List.dropWhile_cons_of_neg]
  · simp
  · intro c hc
    exact decide_eq_true (ne_of_mem_of_not_mem hc l.not_mem)

theorem Line.takeWhile_append (l : Line sep) (rest : List α) :
    (l.chars ++ sep :: rest).takeWhile (· ≠ sep) = l.chars := by
  rw [List.takeWhile_append_of_pos, List.takeWhile_cons_of_neg, List.append_nil]
  · simp
  · intro c hc
    exact decide_eq_true (ne_of_mem_of_not_mem hc l.not_mem)

end Lab1
