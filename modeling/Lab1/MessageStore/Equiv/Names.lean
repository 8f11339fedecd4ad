import Lab1.MessageStore.Equiv.Lines
import Mathlib.Data.List.TakeWhile

/-!
# Names

A first and a last name are typed on one line, with a space between them.  The line is read with a
limit of `MAX_USR_NAME + MAX_USR_LAST` characters, which has no room for the space: the last
character of the last name is lost where both names are as long as they may be (`parsedBack_iff`).
-/

namespace Lab1.MessageStore

open ClientUiTask

/-- A first or last name that may be typed. -/
structure TypedName (max : ℕ) where
  chars : Str
  pos : 1 ≤ chars.length
  length_le : chars.length ≤ max
  clean : ∀ c ∈ chars, c ≠ space ∧ c ≠ newline ∧ c ≠ nul

/-- Both names with a space between them. -/
def nameLine {m n : ℕ} (first : TypedName m) (last : TypedName n) : TypedLine where
  chars := first.chars ++ space :: last.chars
  not_mem hmem := by
    rcases List.mem_append.mp hmem with hfirst | hrest
    · exact (first.clean newline hfirst).2.1 rfl
    · rcases List.mem_cons.mp hrest with hspace | hlast
      · exact absurd hspace (by decide)
      · exact (last.clean newline hlast).2.1 rfl

/-- The typed names are those of the user that is returned. -/
def ParsedBack (room : Room) (first : TypedName MAX_USR_NAME) (last : TypedName MAX_USR_LAST)
    (rest : Str) : Prop :=
  ∃ s, (stdReader room).parseUserFromInput ⟨(nameLine first last).chars ++ newline :: rest, true⟩
    (MAX_USR_NAME + MAX_USR_LAST) = .ok (s, ⟨first.chars, last.chars⟩)

/-- Up to the first space, and from there up to a `NUL`. -/
theorem parseUser_append {first last : Str} (hfirst : space ∉ first) (hlast : nul ∉ last) :
    parseUser (first ++ space :: last) = ⟨first, last⟩ := by
  have hspace : InStream.getline ⟨first ++ space :: last, true⟩ space = (⟨last, true⟩, first) := by
    rw [InStream.getline, if_pos rfl]
    simp only [Line.dropWhile_append ⟨first, hfirst⟩, Line.takeWhile_append ⟨first, hfirst⟩]
  have hnul : last.dropWhile (· ≠ nul) = [] := by
    rw [List.dropWhile_eq_nil_iff]
    intro c hc
    exact decide_eq_true (ne_of_mem_of_not_mem hc hlast)
  rw [parseUser, hspace]
  simp only [InStream.getline, hnul]
  rfl

/-- Of the last name there are the characters that the limit leaves. -/
theorem parseUserFromInput_nameLine (room : Room) (first : TypedName MAX_USR_NAME)
    (last : TypedName MAX_USR_LAST) (rest : Str) :
    (stdReader room).parseUserFromInput ⟨(nameLine first last).chars ++ newline :: rest, true⟩
        (MAX_USR_NAME + MAX_USR_LAST)
      = .ok (⟨rest, true⟩, ⟨first.chars, last.chars.take (39 - first.chars.length)⟩) := by
  have hle : first.chars.length ≤ 20 := first.length_le
  have hread : (stdReader room).readLineFromStream
      ⟨(nameLine first last).chars ++ newline :: rest, true⟩ (MAX_USR_NAME + MAX_USR_LAST)
        = .ok (⟨rest, true⟩, (nameLine first last).chars.take 40) :=
    readLineFromStream_line (nameLine first last) rest (by decide)
      (room.reservable.mono (by decide))
  have htake : (nameLine first last).chars.take 40
      = first.chars ++ space :: last.chars.take (39 - first.chars.length) := by
    obtain ⟨k, hk⟩ : ∃ k, 40 - first.chars.length = k + 1 := ⟨39 - first.chars.length, by omega⟩
    have hk' : k = 39 - first.chars.length := by omega
    rw [nameLine, List.take_append, List.take_of_length_le (by omega), hk, List.take_succ_cons, hk']
  have hspace : space ∉ first.chars := fun hmem => (first.clean space hmem).1 rfl
  have hnul : nul ∉ last.chars.take (39 - first.chars.length) := fun hmem =>
    (last.clean nul (List.mem_of_mem_take hmem)).2.2 rfl
  rw [Reader.parseUserFromInput, hread, ok_bind]
  simp only [htake, parseUser_append hspace hnul]
  rfl

/-- **Names are parsed back**, unless both of them have twenty characters. -/
theorem parsedBack_iff (room : Room) (first : TypedName MAX_USR_NAME)
    (last : TypedName MAX_USR_LAST) (rest : Str) :
    ParsedBack room first last rest ↔
      ¬(first.chars.length = MAX_USR_NAME ∧ last.chars.length = MAX_USR_LAST) := by
  have hfirst : first.chars.length ≤ 20 := first.length_le
  have hlast : last.chars.length ≤ 20 := last.length_le
  have hread := parseUserFromInput_nameLine room first last rest
  show _ ↔ ¬(first.chars.length = 20 ∧ last.chars.length = 20)
  constructor
  · rintro ⟨s, hparse⟩
    rw [hread] at hparse
    have htake : last.chars.take (39 - first.chars.length) = last.chars :=
      congrArg (fun p => p.2.m_lastName) (Except.ok.inj hparse)
    have hlen := List.take_eq_self_iff last.chars |>.mp htake
    omega
  · intro hshort
    refine ⟨⟨rest, true⟩, ?_⟩
    rw [hread, List.take_of_length_le (by omega)]

/-- The longest name of the character `c`. -/
def longestName (max : ℕ) (hmax : 1 ≤ max) (c : UInt8) (hc : c ≠ space ∧ c ≠ newline ∧ c ≠ nul) :
    TypedName max where
  chars := List.replicate max c
  pos := by rwa [List.length_replicate]
  length_le := by rw [List.length_replicate]
  clean d hd := by rwa [List.eq_of_mem_replicate hd]

/-- The last name loses a character. -/
theorem not_parsedBack_longest :
    ¬ParsedBack ⟨128, by decide⟩ (longestName MAX_USR_NAME (by decide) 97 (by decide))
      (longestName MAX_USR_LAST (by decide) 98 (by decide)) [] := by
  rintro ⟨s, hparse⟩
  have hpair := Except.ok.inj ((parseUserFromInput_nameLine _ _ _ _).symm.trans hparse)
  have hlast : (List.replicate 20 (98 : UInt8)).take 19 = List.replicate 20 98 :=
    congrArg (fun p => p.2.m_lastName) hpair
  exact absurd hlast (by decide)

end Lab1.MessageStore
