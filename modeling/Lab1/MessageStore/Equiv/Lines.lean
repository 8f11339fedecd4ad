import Lab1.Library.Lines
import Lab1.MessageStore.ClientUiTask

/-!
# Lines and names

`readData` takes characters up to the end of the line, or as many as it is asked for.  At the end of
the stream it goes on nevertheless, with the last character again and again (`readsExactly_iff`).
Where the line ends before the stream does, `readLineFromStream` returns the beginning of it and
leaves the stream at the next line (`readLineFromStream_line`), and so a run of calls stays in step
with the lines.
-/

namespace Lab1.MessageStore

open StdStreamIODevice ClientUiTask

/-- A line of the standard input. -/
abbrev TypedLine := Line newline

/-- The stream before some lines. -/
def before (lines : List TypedLine) : InStream := ⟨textOf lines, true⟩

/-! ### `readData` -/

/-- In front of the end of the stream, the loop stops in time. -/
theorem readLoop_of_enough {left : ℕ} {ch : UInt8} {s : Str} (hch : ch ≠ newline)
    (h : left ≤ s.length ∨ newline ∈ s) :
    readLoop left ch ⟨s, true⟩
      = (⟨s.drop (upTo newline left s).length, true⟩, upTo newline left s) := by
  induction left generalizing ch s with
  | zero => rfl
  | succ left ih =>
    rcases s with _ | ⟨c, cs⟩
    · simp at h
    rw [readLoop, if_pos hch]
    show ((readLoop left c ⟨cs, true⟩).1, c :: (readLoop left c ⟨cs, true⟩).2) = _
    by_cases hc : c = newline
    · have hstop : readLoop left c ⟨cs, true⟩ = (⟨cs, true⟩, []) := by
        rcases left with _ | left
        · rfl
        · exact if_neg (not_not_intro hc)
      rw [hstop, upTo, if_pos hc]
      rfl
    · have hrest : left ≤ cs.length ∨ newline ∈ cs := by
        refine h.imp Nat.le_of_succ_le_succ fun hmem => ?_
        exact (List.mem_cons.mp hmem).resolve_left (Ne.symm hc)
      rw [ih hc hrest, upTo, if_neg hc]
      rfl

/-- At the end of the stream, it goes on with the last character. -/
theorem readLoop_atEnd {left : ℕ} {ch : UInt8} (hch : ch ≠ newline) (good : Bool) :
    (readLoop left ch ⟨[], good⟩).2 = List.replicate left ch := by
  induction left generalizing good with
  | zero => rfl
  | succ left ih =>
    have hextract : InStream.extract ⟨[], good⟩ ch = (⟨[], false⟩, ch) := by
      cases good with
      | false => rfl
      | true => rfl
    rw [readLoop, if_pos hch, hextract]
    exact congrArg (ch :: ·) (ih false)

theorem readLoop_of_short {left : ℕ} {ch : UInt8} {s : Str} (hch : ch ≠ newline)
    (hleft : s.length ≤ left) (hs : newline ∉ s) :
    (readLoop left ch ⟨s, true⟩).2 = s ++ List.replicate (left - s.length) (s.getLastD ch) := by
  induction s generalizing left ch with
  | nil => exact readLoop_atEnd hch true
  | cons c cs ih =>
    obtain ⟨hc, hcs⟩ := not_or.mp (List.mem_cons.not.mp hs)
    obtain ⟨left, rfl⟩ : ∃ k, left = k + 1 :=
      ⟨left - 1, (Nat.sub_add_cancel (Nat.le_trans (Nat.succ_le_succ (Nat.zero_le _)) hleft)).symm⟩
    rw [readLoop, if_pos hch]
    show c :: (readLoop left c ⟨cs, true⟩).2 = _
    rw [ih (Ne.symm hc) (Nat.le_of_succ_le_succ hleft) hcs, List.length_cons, Nat.add_sub_add_right,
      List.getLastD_cons, List.cons_append]

/-- `reserve` comes back. -/
def Reservable (room len : ℕ) : Prop := len ≤ maxSize ∧ len ≤ room

instance (room len : ℕ) : Decidable (Reservable room len) := inferInstanceAs (Decidable (_ ∧ _))

theorem Reservable.mono {room m n : ℕ} (h : Reservable room n) (hle : m ≤ n) :
    Reservable room m := ⟨hle.trans h.1, hle.trans h.2⟩

/-- Whatever the task asks for. -/
theorem Room.reservable (room : Room) : Reservable room.chars MAX_MSG_SIZE :=
  ⟨by decide, room.enough⟩

theorem readData_eq {room : ℕ} {s : Str} {len : ℕ} (hlen : Reservable room len) :
    readData room ⟨s, true⟩ len = .ok (readLoop len 0 ⟨s, true⟩) := by
  rw [readData, if_neg (by simp), if_neg (Nat.not_lt.mpr hlen.1), if_neg (Nat.not_lt.mpr hlen.2)]

/-- Otherwise it throws. -/
theorem reservable_of_ok {room : ℕ} {s s' : InStream} {len : ℕ} {chunk : StreamDataChunk}
    (hread : readData room s len = .ok (s', chunk)) : Reservable room len := by
  unfold readData at hread
  split_ifs at hread with hgood hmax hroom
  exact ⟨Nat.not_lt.mp hmax, Nat.not_lt.mp hroom⟩

/-- `readData(len)` returns what there is of the line, `len` characters at most. -/
def ReadsExactly (room : ℕ) (s : Str) (len : ℕ) : Prop :=
  ∃ s' chunk, readData room ⟨s, true⟩ len = .ok (s', chunk) ∧ IsLongest newline len s chunk

/-- **The end of the stream.**  What `readData` returns is the longest part of the line if and only
if there is memory for what is asked for, and the stream has as many characters, or an end of
line. -/
theorem readsExactly_iff (room : ℕ) (s : Str) (len : ℕ) :
    ReadsExactly room s len ↔ Reservable room len ∧ (len ≤ s.length ∨ newline ∈ s) := by
  constructor
  · rintro ⟨s', chunk, hread, hlongest⟩
    have hlen := reservable_of_ok hread
    refine ⟨hlen, ?_⟩
    by_contra hshort
    obtain ⟨hlt, hmem⟩ := not_or.mp hshort
    have hchunk : chunk = s ++ List.replicate (len - s.length) (s.getLastD 0) := by
      rw [readData_eq hlen] at hread
      rw [← readLoop_of_short (by decide) (Nat.le_of_not_le hlt) hmem, Except.ok.inj hread]
    -- the chunk is longer than the stream
    have hle := hlongest.isPrefix.length_le
    rw [hchunk, List.length_append, List.length_replicate] at hle
    omega
  · rintro ⟨hlen, henough⟩
    refine ⟨⟨s.drop (upTo newline len s).length, true⟩, upTo newline len s, ?_,
      isLongest_upTo len s⟩
    rw [readData_eq hlen, readLoop_of_enough (by decide) henough]

/-- Five characters of `ab`. -/
theorem not_readsExactly_short :
    (∃ s', readData 128 ⟨[97, 98], true⟩ 5 = .ok (s', [97, 98, 98, 98, 98])) ∧
      ¬ReadsExactly 128 [97, 98] 5 := by
  refine ⟨⟨_, rfl⟩, ?_⟩
  rintro ⟨s', chunk, hread, hlongest⟩
  cases hread
  exact absurd hlongest.isPrefix.length_le (by decide)

/-! ### `readLineFromStream` -/

/-- A call reads one line, and returns the beginning of it. -/
theorem readLineFromStream_line {room : ℕ} (l : TypedLine) (rest : Str) {n : ℕ} (hn : 1 ≤ n)
    (hmax : Reservable room n) :
    readLineFromStream room ⟨l.chars ++ newline :: rest, true⟩ n
      = .ok (⟨rest, true⟩, l.chars.take n) := by
  have hmem : newline ∈ l.chars ++ newline :: rest :=
    List.mem_append_right _ List.mem_cons_self
  rw [readLineFromStream, readData_eq hmax, readLoop_of_enough (by decide) (Or.inr hmem),
    l.upTo_append, ok_bind]
  rcases Nat.lt_or_ge l.chars.length n with hlt | hle
  · -- the newline is in the chunk
    have htake : (l.chars ++ [newline]).take n = l.chars ++ [newline] := by
      apply List.take_of_length_le
      rw [List.length_append, List.length_singleton]
      omega
    have hdrop : (l.chars ++ newline :: rest).drop (l.chars ++ [newline]).length = rest := by
      rw [List.append_cons l.chars newline rest]
      exact List.drop_left
    rw [htake, hdrop, List.take_of_length_le hlt.le]
    simp only [List.getLast?_concat, List.dropLast_concat]
    rfl
  · have htake : (l.chars ++ [newline]).take n = l.chars.take n := List.take_append_of_le_length hle
    have hlen : (l.chars.take n).length = n := List.length_take_of_le hle
    have hne : l.chars.take n ≠ [] := by
      intro hnil
      rw [hnil] at hlen
      exact absurd hlen (Nat.ne_of_lt hn)
    have hlast : (l.chars.take n).getLast hne ≠ newline :=
      ne_of_mem_of_not_mem (List.mem_of_mem_take (List.getLast_mem hne)) l.not_mem
    have hdrop : (l.chars ++ newline :: rest).drop n = l.chars.drop n ++ newline :: rest :=
      List.drop_append_of_le_length hle
    have hignore : InStream.ignore ⟨l.chars.drop n ++ newline :: rest, true⟩ newline
        = ⟨rest, true⟩ := by
      rw [InStream.ignore, if_pos rfl]
      simp only [Line.dropWhile_append
        ⟨l.chars.drop n, fun h => l.not_mem (List.mem_of_mem_drop h)⟩]
    rw [htake, hlen, hdrop]
    simp only [List.getLast?_eq_some_getLast hne]
    rw [if_pos hlast, ignoreTillChar, hignore]
    rfl

theorem readLineFromStream_before {room : ℕ} (l : TypedLine) (lines : List TypedLine) {n : ℕ}
    (hn : 1 ≤ n) (hmax : Reservable room n) :
    readLineFromStream room (before (l :: lines)) n = .ok (before lines, l.chars.take n) := by
  rw [before, textOf_cons]
  exact readLineFromStream_line l (textOf lines) hn hmax

/-- Calls with the limits `limits`, one after the other: the one number `k` reads line number
`k`. -/
def InStep (room : ℕ) (lines : List TypedLine) (limits : List ℕ) : Prop :=
  ∀ k l n, lines[k]? = some l → limits[k]? = some n →
    ∃ s chunks, exec (readLineFromStream room) (before lines) (limits.take k) = .ok (s, chunks) ∧
      readLineFromStream room s n = .ok (before (lines.drop (k + 1)), l.chars.take n)

/-- **Lines are read in step**, where there is memory for them. -/
theorem lines_inStep (room : ℕ) (lines : List TypedLine) (limits : List ℕ)
    (hlimits : ∀ n ∈ limits, 1 ≤ n ∧ Reservable room n) : InStep room lines limits := by
  intro k l n hl hn
  induction k generalizing lines limits with
  | zero =>
    rcases lines with _ | ⟨l', lines⟩
    · cases hl
    rcases limits with _ | ⟨n', limits⟩
    · cases hn
    cases hl
    cases hn
    obtain ⟨h1, hmax⟩ := hlimits n List.mem_cons_self
    exact ⟨_, _, rfl, readLineFromStream_before l lines h1 hmax⟩
  | succ k ih =>
    rcases lines with _ | ⟨l', lines⟩
    · cases hl
    rcases limits with _ | ⟨n', limits⟩
    · cases hn
    obtain ⟨⟨h1, hmax⟩, hrest⟩ := List.forall_mem_cons.mp hlimits
    obtain ⟨s, chunks, hrun, hread⟩ := ih lines limits hrest hl hn
    refine ⟨s, l'.chars.take n' :: chunks, ?_, hread⟩
    exact exec_cons_eq_ok.mpr
      ⟨_, _, chunks, readLineFromStream_before l' lines h1 hmax, hrun, rfl⟩

theorem inStep_two_lines : (∀ n ∈ [1, 40], 1 ≤ n ∧ Reservable 128 n) ∧
    InStep 128 [⟨[97, 98], by decide⟩, ⟨[], by decide⟩] [1, 40] :=
  ⟨by decide, lines_inStep _ _ _ (by decide)⟩

/-- A limit of `2 ^ 62`, which a vector may have but no memory has, and one of `2 ^ 63`, which no
vector can have. -/
theorem not_inStep_limit :
    (readLineFromStream 140737488355328 (before [⟨[97], by decide⟩]) 4611686018427387904
        = .error .badAlloc ∧
      ¬InStep 140737488355328 [⟨[97], by decide⟩] [4611686018427387904]) ∧
    readLineFromStream 140737488355328 (before [⟨[97], by decide⟩]) 9223372036854775808
        = .error .lengthError ∧
      ¬InStep 140737488355328 [⟨[97], by decide⟩] [9223372036854775808] := by
  have hfails : ∀ n e, readLineFromStream 140737488355328 (before [⟨[97], by decide⟩]) n
      = .error e → ¬InStep 140737488355328 [⟨[97], by decide⟩] [n] := by
    intro n e hread h
    obtain ⟨s, chunks, hrun, hline⟩ := h 0 _ _ rfl rfl
    cases hrun
    rw [hread] at hline
    cases hline
  have hroom : readLineFromStream 140737488355328 (before [⟨[97], by decide⟩]) 4611686018427387904
      = .error .badAlloc := by
    rw [readLineFromStream, readData, if_neg (by decide), if_neg (by decide), if_pos (by decide)]
    rfl
  have hmax : readLineFromStream 140737488355328 (before [⟨[97], by decide⟩]) 9223372036854775808
      = .error .lengthError := by
    rw [readLineFromStream, readData, if_neg (by decide), if_pos (by decide)]
    rfl
  exact ⟨⟨hroom, hfails _ _ hroom⟩, hmax, hfails _ _ hmax⟩

end Lab1.MessageStore
