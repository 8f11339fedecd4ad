import Lab1.PhoneOfficer.AgentInterceptionPoints
import Lab1.PhoneOfficer.Equiv.Environment

/-!
# The redirection of `open`

A path that is let through is copied to the local array with the suffix behind it, and the array is
large enough for both up to a length of 1015 (`interposedOpen_of_fits`); a path of 1016 to 1024
characters is let through as well, and does not fit (`interposedOpen_of_not_fits`).  The call of the
real `open` is made without a mode, and whatever it returns, `open` returns `0`.
-/

namespace Lab1.PhoneOfficer

/-! ### The property -/

variable {η : Type*} (libc : Libc η) (realOpen : OpenCall → ℤ)

/-- `open` returns `-1` without a call of the real `open`, or makes the call that it should with the
path and the suffix, and returns what the call returned. -/
def FaithfulRedirect (buffer : Mem) (pathname : Option CStr) (flags : ℤ) (mode : Option UInt32) :
    Prop :=
  ∃ ret calls, interposedOpen libc buffer pathname flags mode = .ok (ret, calls) ∧
    ((ret = -1 ∧ calls = []) ∨ ∃ path, pathname = some path ∧
      calls = [⟨path.chars ++ dotPreload, flags, mode⟩] ∧
      ret = realOpen ⟨path.chars ++ dotPreload, flags, mode⟩)

/-- There is room for the path, the suffix and a NUL. -/
def Fits (path : CStr) : Prop := path.length + dotPreload.length + 1 ≤ MAX_PATH_SZ

/-! ### The array -/

theorem zero_not_mem_append (path : CStr) : 0 ∉ path.chars ++ dotPreload := by
  rw [List.mem_append, not_or]
  exact ⟨path.noNul, by decide⟩

/-- The copy of the path, and its NUL. -/
theorem read_strcpy (buffer : Mem) (path : CStr) :
    (buffer.write 0 (path.chars ++ [0])).read 0 path.length = path.chars ∧
      (buffer.write 0 (path.chars ++ [0])) path.length = 0 := by
  obtain ⟨hchars, hnul⟩ :=
    (Mem.read_append_iff _ 0).mp (buffer.read_write 0 (path.chars ++ [0]))
  rw [Nat.zero_add] at hnul
  exact ⟨hchars, List.singleton_inj.mp hnul⟩

theorem strcat_of_le {cap : ℕ} {dest : Mem} {p : ℕ} {src : List UInt8} (hzero : dest p = 0)
    (h : p + src.length + 1 ≤ cap) : strcat cap dest p src = .ok (dest.write p (src ++ [0])) := by
  rw [strcat, Mem.strlen_of_zero (by omega) hzero]
  simp only [Nat.add_zero]
  rw [require_true h]
  rfl

theorem strcat_of_lt {cap : ℕ} {dest : Mem} {p : ℕ} {src : List UInt8} (hzero : dest p = 0)
    (hp : p < cap) (h : cap < p + src.length + 1) :
    strcat cap dest p src = .error .outOfBounds := by
  rw [strcat, Mem.strlen_of_zero (by omega) hzero]
  simp only [Nat.add_zero]
  rw [require_false (by omega)]
  rfl

/-- What the array holds in the end. -/
theorem cstr_strcat (buffer : Mem) {path : CStr} (h : Fits path) :
    ((buffer.write 0 (path.chars ++ [0])).write path.length (dotPreload ++ [0])).cstr 0 MAX_PATH_SZ
      = some (path.chars ++ dotPreload) := by
  have hfits : path.chars.length + dotPreload.length + 1 ≤ MAX_PATH_SZ := h
  refine Mem.cstr_eq_some_iff.mpr ⟨?_, zero_not_mem_append path, ?_⟩
  · rw [List.length_append]
    exact hfits
  · have hlen : (path.chars ++ dotPreload).length + 1
        = (path.chars ++ (dotPreload ++ [0])).length := by simp [Nat.add_assoc]
    rw [List.append_assoc, hlen]
    refine (Mem.read_append_iff _ 0).mpr ⟨?_, ?_⟩
    · rw [Mem.read_write_of_apart _ _ (Or.inl (by show 0 + path.length ≤ path.length; omega))]
      exact (read_strcpy buffer path).1
    · rw [Nat.zero_add]
      exact Mem.read_write _ _ _

/-! ### The call -/

section

variable {buffer : Mem} {path : CStr} {flags : ℤ} {mode : Option UInt32}

theorem interposedOpen_of_length {r : ℤ × List OpenCall}
    (h : interposedOpen libc buffer (some path) flags mode = .ok r) : path.length ≤ intMax := by
  obtain ⟨len, hlen, _⟩ := bind_eq_ok.mp h
  exact (getStringLength_eq_ok.mp hlen).1

theorem interposedOpen_of_long (hlen : path.length ≤ intMax) (h : MAX_PATH_SZ < path.length) :
    interposedOpen libc buffer (some path) flags mode = .ok (-1, []) := by
  unfold interposedOpen
  show (getStringLength path >>= _) = _
  rw [getStringLength_eq_ok.mpr ⟨hlen, rfl⟩, ok_bind, if_pos h]
  rfl

theorem interposedOpen_of_not_found (hlen : path.length ≤ intMax) (h : openFound libc = false) :
    interposedOpen libc buffer (some path) flags mode = .ok (-1, []) := by
  rcases Nat.lt_or_ge MAX_PATH_SZ path.length with hlong | hshort
  · exact interposedOpen_of_long libc hlen hlong
  · unfold interposedOpen
    show (getStringLength path >>= _) = _
    rw [getStringLength_eq_ok.mpr ⟨hlen, rfl⟩, ok_bind, if_neg (Nat.not_lt.mpr hshort), if_pos h]
    rfl

theorem le_intMax_of_le (h : path.length ≤ MAX_PATH_SZ) : path.length ≤ intMax :=
  Nat.le_trans h (by decide)

/-- What is done with a path that is let through. -/
theorem interposedOpen_of_le (hfound : openFound libc = true) (hle : path.length ≤ MAX_PATH_SZ) :
    interposedOpen libc buffer (some path) flags mode = (do
      let buffer ← strcpy MAX_PATH_SZ buffer path
      let buffer ← strcat MAX_PATH_SZ buffer path.length dotPreload
      match buffer.cstr 0 MAX_PATH_SZ with
      | none => .error .outOfBounds
      | some path => return (0, [⟨path, flags, none⟩])) := by
  have hnot : ¬openFound libc = false := by
    rw [Bool.not_eq_false]
    exact hfound
  unfold interposedOpen
  show (getStringLength path >>= _) = _
  rw [getStringLength_eq_ok.mpr ⟨le_intMax_of_le hle, rfl⟩, ok_bind]
  exact (if_neg (Nat.not_lt.mpr hle)).trans (if_neg hnot)

/-- Where everything fits, the real `open` is called, without a mode. -/
theorem interposedOpen_of_fits (hfound : openFound libc = true) (h : Fits path) :
    interposedOpen libc buffer (some path) flags mode
      = .ok (0, [⟨path.chars ++ dotPreload, flags, none⟩]) := by
  have hfits : path.length + dotPreload.length + 1 ≤ MAX_PATH_SZ := h
  have hcopy : path.length + 1 ≤ MAX_PATH_SZ := by omega
  rw [interposedOpen_of_le libc hfound (Nat.le_of_succ_le hcopy), strcpy, require_true hcopy,
    ok_bind]
  show (strcat MAX_PATH_SZ (buffer.write 0 (path.chars ++ [0])) path.length dotPreload >>= _) = _
  rw [strcat_of_le (read_strcpy buffer path).2 hfits, ok_bind]
  simp only [cstr_strcat buffer h]
  rfl

/-- A path that is let through and does not fit is written over the end of the array. -/
theorem interposedOpen_of_not_fits (hfound : openFound libc = true)
    (hle : path.length ≤ MAX_PATH_SZ) (h : ¬Fits path) :
    interposedOpen libc buffer (some path) flags mode = .error .outOfBounds := by
  have hfits : MAX_PATH_SZ < path.length + dotPreload.length + 1 := Nat.lt_of_not_le h
  rw [interposedOpen_of_le libc hfound hle, strcpy]
  -- the path alone may fill the array already, so that its NUL is behind the end
  rcases Nat.lt_or_ge path.length MAX_PATH_SZ with hlt | hge
  · rw [require_true (Nat.succ_le_of_lt hlt), ok_bind]
    show (strcat MAX_PATH_SZ (buffer.write 0 (path.chars ++ [0])) path.length dotPreload >>= _) = _
    rw [strcat_of_lt (read_strcpy buffer path).2 hlt hfits]
    rfl
  · rw [require_false (by omega)]
    rfl

end

/-- **When the redirection is faithful.** -/
theorem faithfulRedirect_iff {buffer : Mem} {pathname : Option CStr} {flags : ℤ}
    {mode : Option UInt32} :
    FaithfulRedirect libc realOpen buffer pathname flags mode ↔
      ∀ path, pathname = some path → path.length ≤ intMax ∧
        (MAX_PATH_SZ < path.length ∨ openFound libc = false ∨
          (Fits path ∧ mode = none ∧ realOpen ⟨path.chars ++ dotPreload, flags, none⟩ = 0)) := by
  constructor
  · rintro ⟨ret, calls, hcall, hret⟩ path rfl
    refine ⟨interposedOpen_of_length libc hcall, ?_⟩
    rcases Nat.lt_or_ge MAX_PATH_SZ path.length with hlong | hle
    · exact Or.inl hlong
    rcases hfound : openFound libc with _ | _
    · exact Or.inr (Or.inl rfl)
    by_cases hfits : Fits path
    · rw [interposedOpen_of_fits libc hfound hfits] at hcall
      obtain ⟨rfl, rfl⟩ := ok_pair_inj hcall
      rcases hret with ⟨hneg, _⟩ | ⟨_, hpath, hcalls, hreal⟩
      · exact absurd hneg (by decide)
      · cases hpath
        have hmode : none = mode := congrArg OpenCall.mode (List.cons.inj hcalls).1
        subst hmode
        exact Or.inr (Or.inr ⟨hfits, rfl, hreal.symm⟩)
    · rw [interposedOpen_of_not_fits libc hfound hle hfits] at hcall
      cases hcall
  · intro h
    cases pathname with
    | none => exact ⟨-1, [], rfl, Or.inl ⟨rfl, rfl⟩⟩
    | some path =>
      obtain ⟨hlen, hlong | hfound | ⟨hfits, rfl, hreal⟩⟩ := h path rfl
      · exact ⟨-1, [], interposedOpen_of_long libc hlen hlong, Or.inl ⟨rfl, rfl⟩⟩
      · exact ⟨-1, [], interposedOpen_of_not_found libc hlen hfound, Or.inl ⟨rfl, rfl⟩⟩
      · rcases hfound : openFound libc with _ | _
        · exact ⟨-1, [], interposedOpen_of_not_found libc hlen hfound, Or.inl ⟨rfl, rfl⟩⟩
        · exact ⟨0, _, interposedOpen_of_fits libc hfound hfits,
            Or.inr ⟨path, rfl, rfl, hreal.symm⟩⟩

/-- A machine with a real `open`. -/
def openLibc : Libc Unit := { sampleLibc with dlsym := fun _ nm => nm = "open" }

/-- The real `open` returns the descriptor 3, and the caller gets 0. -/
theorem not_faithfulRedirect_three :
    interposedOpen openLibc (fun _ => 0) (some (letter 0x66 (by decide))) 0 none
        = .ok (0, [⟨0x66 :: dotPreload, 0, none⟩]) ∧
      ¬FaithfulRedirect openLibc (fun _ => 3) (fun _ => 0) (some (letter 0x66 (by decide))) 0
        none := by
  have hfits : Fits (letter 0x66 (by decide)) := by
    show 1 + 8 + 1 ≤ 1024
    decide
  have hcall : interposedOpen openLibc (fun _ => 0) (some (letter 0x66 (by decide))) 0 none
      = .ok (0, [⟨0x66 :: dotPreload, 0, none⟩]) := interposedOpen_of_fits openLibc rfl hfits
  refine ⟨hcall, ?_⟩
  rintro ⟨ret, calls, hcall', hret⟩
  obtain ⟨rfl, rfl⟩ := ok_pair_inj (hcall.symm.trans hcall')
  rcases hret with ⟨hneg, _⟩ | ⟨_, _, _, hthree⟩
  · exact absurd hneg (by decide)
  · cases hthree

end Lab1.PhoneOfficer
