import Lab1.Library.Bytes

/-!
# Null-terminated strings in memory

`strlen` looks for the first NUL among a given number of bytes, and `cstr` gives the characters in
front of it.  The string found is the one that stands there with a NUL behind it
(`cstr_eq_some_iff`).
-/

namespace Lab1.Mem

/-- The number of characters from `p` on before the first NUL, if there is one in `room` bytes. -/
def strlen (m : Mem) (p : ℕ) : ℕ → Option ℕ
  | 0 => none
  | room + 1 => if m p = 0 then some 0 else (strlen m (p + 1) room).map (· + 1)

/-- The characters before the NUL. -/
def cstr (m : Mem) (p room : ℕ) : Option (List UInt8) := (m.strlen p room).map (m.read p)

variable {m : Mem} {p room n : ℕ}

theorem strlen_eq_some_iff :
    m.strlen p room = some n ↔ n < room ∧ m (p + n) = 0 ∧ ∀ i < n, m (p + i) ≠ 0 := by
  induction room generalizing p n with
  | zero => simp [strlen]
  | succ room ih =>
    rw [strlen]
    split_ifs with h0
    · constructor
      · rintro ⟨⟩
        exact ⟨Nat.succ_pos room, h0, nofun⟩
      · rintro ⟨_, _, hbefore⟩
        have hn : n = 0 := Nat.eq_zero_of_not_pos fun hpos => hbefore 0 hpos h0
        rw [hn]
    · rw [Option.map_eq_some_iff]
      constructor
      · rintro ⟨k, hk, rfl⟩
        obtain ⟨hlt, hzero, hbefore⟩ := ih.mp hk
        rw [Nat.add_assoc, Nat.add_comm 1] at hzero
        refine ⟨Nat.succ_lt_succ hlt, hzero, fun i hi => ?_⟩
        rcases i with _ | i
        · exact h0
        · have hne := hbefore i (Nat.lt_of_succ_lt_succ hi)
          rwa [Nat.add_assoc, Nat.add_comm 1] at hne
      · rintro ⟨hlt, hzero, hbefore⟩
        rcases n with _ | n
        · exact absurd hzero h0
        refine ⟨n, ih.mpr ⟨Nat.lt_of_succ_lt_succ hlt, ?_, fun i hi => ?_⟩, rfl⟩
        · rwa [Nat.add_assoc, Nat.add_comm 1]
        · have hne := hbefore (i + 1) (Nat.succ_lt_succ hi)
          rwa [Nat.add_assoc, Nat.add_comm 1]

theorem strlen_of_zero (hroom : 0 < room) (h : m p = 0) : m.strlen p room = some 0 :=
  strlen_eq_some_iff.mpr ⟨hroom, h, nofun⟩

/-- Which string stands at `p`. -/
theorem cstr_eq_some_iff {cs : List UInt8} :
    m.cstr p room = some cs ↔
      cs.length < room ∧ 0 ∉ cs ∧ m.read p (cs.length + 1) = cs ++ [0] := by
  have hread : m.read p (cs.length + 1) = cs ++ [0] ↔
      m.read p cs.length = cs ∧ m (p + cs.length) = 0 := by
    have happend : m.read p (cs ++ [0]).length = cs ++ [0] ↔ _ := m.read_append_iff p
    rw [List.length_append] at happend
    exact happend.trans (and_congr_right fun _ => List.singleton_inj)
  rw [hread, cstr, Option.map_eq_some_iff]
  constructor
  · rintro ⟨n, hlen, rfl⟩
    obtain ⟨hlt, hzero, hbefore⟩ := strlen_eq_some_iff.mp hlen
    rw [length_read]
    refine ⟨hlt, fun hmem => ?_, rfl, hzero⟩
    obtain ⟨i, hi, hget⟩ := List.getElem_of_mem hmem
    rw [getElem_read] at hget
    exact hbefore i (by rwa [length_read] at hi) hget
  · rintro ⟨hlt, h0, hcs, hzero⟩
    refine ⟨cs.length, strlen_eq_some_iff.mpr ⟨hlt, hzero, fun i hi heq => ?_⟩, hcs⟩
    have hget := List.getElem_of_eq hcs (i := i) (by rwa [length_read])
    rw [getElem_read, heq] at hget
    exact h0 (hget ▸ List.getElem_mem hi)

end Lab1.Mem
