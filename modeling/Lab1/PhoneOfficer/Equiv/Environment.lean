import Lab1.PhoneOfficer.PreloadUtils
import Mathlib.Data.List.TakeWhile

/-!
# The environment

What an environment is: a list of entries `key=value`, in which `getenv` looks for an entry that
starts with the key and an equals sign.

`find_entry_in_env` compares the key with whole entries instead (`findEntryInEnv_eq_ok_iff`), so
that it finds no entry that has an equals sign when the key has none.  `insert_entry_to_env` calls
`malloc` through a pointer that it never set, and `update_entry_in_env` either goes on to that call
or copies the key in a loop that has no end (`not_ends_copyString`).  So the lookup is right only
where there is nothing to be found, and the other two do what they should only where they give up
before they change anything.
-/

namespace Lab1.PhoneOfficer

/-! ### The properties -/

/-- The character `=`. -/
def equalsSign : UInt8 := 0x3d

/-- The entry is one for the key. -/
def HasKey (key e : CStr) : Prop := key.chars ++ [equalsSign] <+: e.chars

instance (key e : CStr) : Decidable (HasKey key e) :=
  inferInstanceAs (Decidable (key.chars ++ [equalsSign] <+: e.chars))

/-- The characters before the first equals sign. -/
def keyOf (e : CStr) : List UInt8 := e.chars.takeWhile (· ≠ equalsSign)

/-- Every entry has an equals sign, and no two have the same key. -/
structure WellFormed (env : List CStr) : Prop where
  equals : ∀ e ∈ env, equalsSign ∈ e.chars
  distinct : (env.map keyOf).Nodup

/-- A pointer to the value in the entry for the key. -/
def getenv (env : List CStr) (key : CStr) : Option ℕ+ :=
  (env.find? fun e => HasKey key e).map fun e => e.addr + key.length.succPNat

variable {η : Type*} (libc : Libc η)

/-- `find_entry_in_env` returns what `getenv` does. -/
def AgreesWithGetenv (env : List CStr) (key : CStr) : Prop :=
  findEntryInEnv libc (some env) key = .ok (getenv env key)

/-- The call returns.  If it returns `0`, the strings of the environment are those from before with
the new entry behind them, and if it returns `-1`, the environment is the one from before. -/
def InsertsEntry (environ : Option (List CStr)) (entry : CStr) : Prop :=
  ∃ ret environ', insertEntryToEnv libc environ entry = .ok (ret, environ') ∧
    (ret = 0 → ∃ old new, environ = some old ∧ environ' = some new ∧
      new.map CStr.chars = old.map CStr.chars ++ [entry.chars]) ∧
    (ret = -1 → environ' = environ)

/-- `new` has exactly one entry for the key, which has the given value, and for the other keys it
has the strings of `old`. -/
def IsUpdate (old new : List CStr) (key value : CStr) : Prop :=
  (new.filter fun e => HasKey key e).map CStr.chars = [key.chars ++ equalsSign :: value.chars] ∧
    (new.filter fun e => ¬HasKey key e).map CStr.chars
      = (old.filter fun e => ¬HasKey key e).map CStr.chars

/-- The call terminates without a write outside of what it allocated, and if it returns `0`, the
environment is updated. -/
def UpdatesEntry (m : Mem) (environ : Option (List CStr)) (key value : CStr) : Prop :=
  ∃ fuel ret environ', updateEntryInEnv libc fuel m environ key value = .ok (ret, environ') ∧
    (ret = 0 → ∃ old new, environ = some old ∧ environ' = some new ∧ IsUpdate old new key value)

/-! ### Strings -/

theorem countChars_eq_ok {cs : List UInt8} {len n : ℕ} (hlen : len ≤ intMax) :
    countChars cs len = .ok n ↔ len + cs.length ≤ intMax ∧ n = len + cs.length := by
  induction cs generalizing len with
  | nil =>
    constructor
    · rintro ⟨⟩
      exact ⟨hlen, rfl⟩
    · rintro ⟨_, rfl⟩
      rfl
  | cons c cs ih =>
    rw [countChars, bind_eq_ok, List.length_cons]
    constructor
    · rintro ⟨_, hlt, hrest⟩
      have hlt := require_eq_ok.mp hlt
      obtain ⟨hle, rfl⟩ := (ih hlt).mp hrest
      exact ⟨by omega, by omega⟩
    · rintro ⟨hle, rfl⟩
      refine ⟨(), require_true (by omega), (ih (by omega)).mpr ⟨by omega, by omega⟩⟩

/-- The length of a string is right as long as it is an `int`. -/
theorem getStringLength_eq_ok {str : CStr} {n : ℕ} :
    getStringLength str = .ok n ↔ str.length ≤ intMax ∧ n = str.length := by
  rw [getStringLength, countChars_eq_ok (Nat.zero_le _), Nat.zero_add]
  rfl

/-! ### The lookup -/

/-- The entry is the key itself. -/
def SameString (key e : CStr) : Prop := e.chars = key.chars

instance (key e : CStr) : Decidable (SameString key e) :=
  inferInstanceAs (Decidable (e.chars = key.chars))

/-- The entries that the lookup goes past. -/
def passed (env : List CStr) (key : CStr) : List CStr :=
  env.takeWhile fun e => ¬SameString key e

/-- What the lookup needs: lengths that are `int`s, and `memcmp` if an entry is as long as the
key. -/
structure Searchable (env : List CStr) (key : CStr) : Prop where
  keyLength : key.length ≤ intMax
  lengths : ∀ e ∈ passed env key, e.length ≤ intMax
  memcmp : libcSym libc "memcmp" = true ∨ ∀ e ∈ env, e.length ≠ key.length

/-- Two strings are compared in full, as they are compared only if they are as long as each
other. -/
theorem findLoop_cons_of_length_eq {pmemcmp : Bool} {key e : CStr} (rest : List CStr)
    (heq : key.length = e.length) (hlen : e.length ≤ intMax) :
    findLoop pmemcmp key key.length (e :: rest) = (do
      require .nullPointer (pmemcmp = true)
      if SameString key e then return some (e.addr + key.length.succPNat)
      else findLoop pmemcmp key key.length rest) := by
  rw [findLoop, getStringLength_eq_ok.mpr ⟨hlen, rfl⟩, ok_bind, if_pos heq]
  have he : e.chars.take key.length = e.chars := by rw [heq]; exact List.take_length
  have hkey : key.chars.take key.length = key.chars := List.take_length
  rw [he, hkey]
  rfl

/-- The entry is found. -/
theorem findLoop_cons_of_same {pmemcmp : Bool} {key e : CStr} (rest : List CStr)
    (hkey : key.length ≤ intMax) (hsame : SameString key e) {r : Option ℕ+} :
    findLoop pmemcmp key key.length (e :: rest) = .ok r ↔
      pmemcmp = true ∧ r = some (e.addr + key.length.succPNat) := by
  have heq : key.length = e.length := congrArg List.length hsame.symm
  rw [findLoop_cons_of_length_eq rest heq (heq ▸ hkey), bind_eq_ok, if_pos hsame]
  constructor
  · rintro ⟨_, hmemcmp, hr⟩
    exact ⟨require_eq_ok.mp hmemcmp, (Except.ok.inj hr).symm⟩
  · rintro ⟨hmemcmp, rfl⟩
    exact ⟨(), require_true hmemcmp, rfl⟩

/-- The lookup goes past the entry. -/
theorem findLoop_cons_of_not {pmemcmp : Bool} {key e : CStr} (rest : List CStr)
    (hsame : ¬SameString key e) {r : Option ℕ+} :
    findLoop pmemcmp key key.length (e :: rest) = .ok r ↔
      e.length ≤ intMax ∧ (pmemcmp = true ∨ e.length ≠ key.length) ∧
        findLoop pmemcmp key key.length rest = .ok r := by
  by_cases hlen : e.length ≤ intMax
  · rw [and_iff_right hlen]
    by_cases heq : key.length = e.length
    · rw [findLoop_cons_of_length_eq rest heq hlen, bind_eq_ok, if_neg hsame,
        or_iff_left (not_not_intro heq.symm)]
      constructor
      · rintro ⟨_, hmemcmp, hrest⟩
        exact ⟨require_eq_ok.mp hmemcmp, hrest⟩
      · rintro ⟨hmemcmp, hrest⟩
        exact ⟨(), require_true hmemcmp, hrest⟩
    · rw [findLoop, getStringLength_eq_ok.mpr ⟨hlen, rfl⟩, ok_bind, if_neg heq,
        and_iff_right (Or.inr (Ne.symm heq))]
  · refine iff_of_false (fun h => ?_) fun h => hlen h.1
    rw [findLoop] at h
    obtain ⟨n, hn, _⟩ := bind_eq_ok.mp h
    exact hlen (getStringLength_eq_ok.mp hn).1

theorem passed_cons_of_same {key e : CStr} (rest : List CStr) (h : SameString key e) :
    passed (e :: rest) key = [] := List.takeWhile_cons_of_neg (by simpa using h)

theorem passed_cons_of_not {key e : CStr} (rest : List CStr) (h : ¬SameString key e) :
    passed (e :: rest) key = e :: passed rest key := List.takeWhile_cons_of_pos (by simpa using h)

theorem findLoop_eq_ok {pmemcmp : Bool} {env : List CStr} {key : CStr} {r : Option ℕ+}
    (hkey : key.length ≤ intMax) :
    findLoop pmemcmp key key.length env = .ok r ↔
      (∀ e ∈ passed env key, e.length ≤ intMax) ∧
      (pmemcmp = true ∨ ∀ e ∈ env, e.length ≠ key.length) ∧
      r = (env.find? fun e => SameString key e).map fun e => e.addr + key.length.succPNat := by
  induction env with
  | nil => simp [findLoop, passed, eq_comm]
  | cons e rest ih =>
    by_cases hsame : SameString key e
    · -- nothing behind the entry is looked at
      rw [findLoop_cons_of_same rest hkey hsame, passed_cons_of_same rest hsame,
        List.find?_cons_of_pos (by simpa using hsame), Option.map_some]
      constructor
      · rintro ⟨hmemcmp, rfl⟩
        exact ⟨List.forall_mem_nil _, Or.inl hmemcmp, rfl⟩
      · rintro ⟨_, hmemcmp, rfl⟩
        have heq : e.length = key.length := congrArg List.length hsame
        exact ⟨hmemcmp.resolve_right fun h => h e List.mem_cons_self heq, rfl⟩
    · rw [findLoop_cons_of_not rest hsame, ih, passed_cons_of_not rest hsame,
        List.find?_cons_of_neg (by simpa using hsame), List.forall_mem_cons, List.forall_mem_cons]
      constructor
      · rintro ⟨hlen, hmemcmp, hall, hmemcmp', hr⟩
        exact ⟨⟨hlen, hall⟩, or_and_left.mpr ⟨hmemcmp, hmemcmp'⟩, hr⟩
      · rintro ⟨⟨hlen, hall⟩, hmemcmp, hr⟩
        obtain ⟨hmemcmp, hmemcmp'⟩ := or_and_left.mp hmemcmp
        exact ⟨hlen, hmemcmp, hall, hmemcmp', hr⟩

/-- **What the lookup finds.**  It is an entry that is the key itself, and the pointer returned is
the one behind its terminator. -/
theorem findEntryInEnv_eq_ok_iff {env : List CStr} {key : CStr} {r : Option ℕ+} :
    findEntryInEnv libc (some env) key = .ok r ↔ Searchable libc env key ∧
      r = (env.find? fun e => SameString key e).map fun e => e.addr + key.length.succPNat := by
  unfold findEntryInEnv
  rw [bind_eq_ok]
  constructor
  · rintro ⟨n, hn, hloop⟩
    obtain ⟨hkey, rfl⟩ := getStringLength_eq_ok.mp hn
    obtain ⟨hall, hmemcmp, hr⟩ := (findLoop_eq_ok hkey).mp hloop
    exact ⟨⟨hkey, hall, hmemcmp⟩, hr⟩
  · rintro ⟨⟨hkey, hall, hmemcmp⟩, hr⟩
    exact ⟨_, getStringLength_eq_ok.mpr ⟨hkey, rfl⟩, (findLoop_eq_ok hkey).mpr ⟨hall, hmemcmp, hr⟩⟩

/-! ### The lookup and `getenv` -/

theorem getenv_eq_none_iff {env : List CStr} {key : CStr} :
    getenv env key = none ↔ ∀ e ∈ env, ¬HasKey key e := by
  rw [getenv, Option.map_eq_none_iff, List.find?_eq_none]
  simp

/-- A key without an equals sign is not an entry that has one. -/
theorem not_sameString {key e : CStr} (hkey : equalsSign ∉ key.chars) (he : equalsSign ∈ e.chars) :
    ¬SameString key e := fun h => hkey (h ▸ he)

theorem passed_eq_self {env : List CStr} {key : CStr} (h : ∀ e ∈ env, ¬SameString key e) :
    passed env key = env := List.takeWhile_eq_self_iff.mpr fun e he => by simpa using h e he

/-- **Where the lookup agrees with `getenv`.** -/
theorem agreesWithGetenv_iff {env : List CStr} {key : CStr} (henv : WellFormed env)
    (hkey : equalsSign ∉ key.chars) :
    AgreesWithGetenv libc env key ↔ (∀ e ∈ env, ¬HasKey key e) ∧ key.length ≤ intMax ∧
      (∀ e ∈ env, e.length ≤ intMax) ∧
      (libcSym libc "memcmp" = true ∨ ∀ e ∈ env, e.length ≠ key.length) := by
  have hnone : ∀ e ∈ env, ¬SameString key e := fun e he => not_sameString hkey (henv.equals e he)
  have hfind : env.find? (fun e => SameString key e) = none :=
    List.find?_eq_none.mpr fun e he => by simpa using hnone e he
  rw [AgreesWithGetenv, findEntryInEnv_eq_ok_iff, hfind, Option.map_none, getenv_eq_none_iff]
  constructor
  · rintro ⟨⟨hlen, hall, hmemcmp⟩, habsent⟩
    rw [passed_eq_self hnone] at hall
    exact ⟨habsent, hlen, hall, hmemcmp⟩
  · rintro ⟨habsent, hlen, hall, hmemcmp⟩
    refine ⟨⟨hlen, ?_, hmemcmp⟩, habsent⟩
    rwa [passed_eq_self hnone]

/-! ### Sample environments -/

/-- A machine with the C library and with memory. -/
def sampleLibc : Libc Unit where
  rtldNext := ()
  dlopen lib := if lib = LIBC_NAME then some () else none
  dlsym _ nm := nm = "memcmp" || nm = "malloc" || nm = "strdup"
  malloc _ := some 8192
  strdup i := some (16384 + i.succPNat)
  allocated _ := false

/-- `A=1` -/
def sampleEntry : CStr := ⟨4096, [0x41, 0x3d, 0x31], by decide⟩

/-- The string of the one character. -/
def letter (c : UInt8) (h : c ≠ 0) : CStr := ⟨2048, [c], by simpa using h.symm⟩

theorem wellFormed_sample : WellFormed [sampleEntry] :=
  ⟨by decide, by decide⟩

/-- The key `B`, which is not there, is not found. -/
theorem agreesWithGetenv_absent :
    AgreesWithGetenv sampleLibc [sampleEntry] (letter 0x42 (by decide)) :=
  (agreesWithGetenv_iff sampleLibc wellFormed_sample (by decide)).mpr
    ⟨by decide, by decide, by decide, Or.inl rfl⟩

/-- With `A=1` in the environment, `A` has a value and is not found. -/
theorem not_agreesWithGetenv_present :
    findEntryInEnv sampleLibc (some [sampleEntry]) (letter 0x41 (by decide)) = .ok none ∧
      getenv [sampleEntry] (letter 0x41 (by decide)) = some 4098 ∧
      ¬AgreesWithGetenv sampleLibc [sampleEntry] (letter 0x41 (by decide)) :=
  ⟨rfl, rfl, by rintro ⟨⟩⟩

/-! ### The insertion -/

theorem insertWith_false (pstrdup : Bool) (env : List CStr) (entry : CStr) :
    ∃ f, insertWith libc false pstrdup env entry = .error f := by
  unfold insertWith
  by_cases hlen : env.length + 2 ≤ intMax
  · exact ⟨.nullPointer, by rw [require_true hlen]; rfl⟩
  · exact ⟨.outOfBounds, by rw [require_false hlen]; rfl⟩

/-- The insertion returns only where it gives up at once. -/
theorem insertEntryToEnv_eq_ok_iff {environ : Option (List CStr)} {entry : CStr}
    {r : ℤ × Option (List CStr)} :
    insertEntryToEnv libc environ entry = .ok r ↔
      (environ = none ∨ libcSym libc "malloc" = false) ∧ r = (-1, environ) := by
  unfold insertEntryToEnv
  cases environ with
  | none =>
    constructor
    · rintro ⟨⟩
      exact ⟨Or.inl rfl, rfl⟩
    · rintro ⟨_, rfl⟩
      rfl
  | some env =>
    cases hsym : libcSym libc "malloc" with
    | false =>
      constructor
      · rintro ⟨⟩
        exact ⟨Or.inr rfl, rfl⟩
      · rintro ⟨_, rfl⟩
        rfl
    | true =>
      obtain ⟨f, hf⟩ := insertWith_false libc (libcSym libc "strdup") env entry
      simp [hf]

/-- **When an insertion does what it should.** -/
theorem insertsEntry_iff {environ : Option (List CStr)} {entry : CStr} :
    InsertsEntry libc environ entry ↔ environ = none ∨ libcSym libc "malloc" = false := by
  constructor
  · rintro ⟨ret, environ', hcall, _⟩
    exact ((insertEntryToEnv_eq_ok_iff libc).mp hcall).1
  · intro h
    exact ⟨-1, environ, (insertEntryToEnv_eq_ok_iff libc).mpr ⟨h, rfl⟩,
      fun hzero => absurd hzero (by decide), fun _ => rfl⟩

/-- On a machine that has everything, `B` is not inserted beside `A=1`. -/
theorem not_insertsEntry_sample :
    insertEntryToEnv sampleLibc (some [sampleEntry]) (letter 0x42 (by decide))
        = .error .nullPointer ∧
      ¬InsertsEntry sampleLibc (some [sampleEntry]) (letter 0x42 (by decide)) := by
  refine ⟨rfl, ?_⟩
  rintro ⟨ret, environ', hcall, _⟩
  cases hcall

/-! ### The update -/

/-- Nothing in the condition of the loop changes, and a pointer to a string is not null. -/
theorem not_ends_copyString (entryLen : ℕ) (str : CStr) (i fuel : ℕ) (st : Mem × ℕ)
    (r : Empty ⊕ Mem × ℕ) : copyString entryLen str i fuel st ≠ .ok r := by
  intro h
  refine not_ends (fun _ => True) ?_ ?_ trivial ⟨fuel, h⟩
  · intro _ _
    have hpos := str.addr.pos
    exact decide_eq_true (by omega)
  · intro s r _ hbody
    obtain ⟨st', _, hr⟩ := bind_eq_ok.mp hbody
    exact ⟨st', (Except.ok.inj hr).symm, trivial⟩

theorem buildEntry_ne_ok (fuel entryLen : ℕ) (key value : CStr) (m : Mem) (r : Mem × ℕ) :
    buildEntry fuel entryLen key value m ≠ .ok r := by
  intro h
  obtain ⟨x, hx, _⟩ := bind_eq_ok.mp h
  exact not_ends_copyString entryLen key 0 fuel (m, 0) x hx

/-- The update gives up before it changes anything: there is no `malloc`, or an entry which is the
key itself is found and there is no memory for a new one. -/
def GivesUp (env : List CStr) (key value : CStr) : Prop :=
  libcSym libc "malloc" = false ∨
    ((∃ e ∈ env, SameString key e) ∧ key.length + value.length + 2 ≤ intMax ∧
      libc.malloc (key.length + value.length + 2) = none)

section

variable {fuel : ℕ} {m : Mem} {env : List CStr} {key value : CStr} {r : ℤ × Option (List CStr)}

/-- An entry that is not found is inserted. -/
theorem update_absent_eq_ok_iff (hsearch : Searchable libc env key)
    (habsent : ¬∃ e ∈ env, SameString key e) :
    updateEntryInEnv libc fuel m (some env) key value = .ok r ↔
      libcSym libc "malloc" = false ∧ r = (-1, some env) := by
  have hfind : env.find? (fun e => SameString key e) = none := by
    rw [List.find?_eq_none]
    simpa using habsent
  rw [updateEntryInEnv, (findEntryInEnv_eq_ok_iff libc).mpr ⟨hsearch, rfl⟩, ok_bind, hfind]
  constructor
  · intro h
    obtain ⟨_, hinsert, hret⟩ := bind_eq_ok.mp h
    obtain ⟨hsym, rfl⟩ := (insertEntryToEnv_eq_ok_iff libc).mp hinsert
    exact ⟨hsym.resolve_left nofun, (Except.ok.inj hret).symm⟩
  · rintro ⟨hsym, rfl⟩
    exact bind_eq_ok.mpr ⟨_, (insertEntryToEnv_eq_ok_iff libc).mpr ⟨Or.inr hsym, rfl⟩, rfl⟩

/-- The length of a new entry is an `int`. -/
theorem entryLen_eq_ok {β : Type} {f : ℕ → ℕ → Except Fault β} {b : β} :
    (do
      let keyLen ← getStringLength key
      let valueLen ← getStringLength value
      require .outOfBounds (keyLen + valueLen + 2 ≤ intMax)
      f keyLen valueLen) = .ok b ↔
      key.length + value.length + 2 ≤ intMax ∧ f key.length value.length = .ok b := by
  constructor
  · intro h
    obtain ⟨keyLen, hkey, h⟩ := bind_eq_ok.mp h
    obtain ⟨valueLen, hvalue, h⟩ := bind_eq_ok.mp h
    obtain ⟨_, hfits, h⟩ := bind_eq_ok.mp h
    obtain ⟨_, rfl⟩ := getStringLength_eq_ok.mp hkey
    obtain ⟨_, rfl⟩ := getStringLength_eq_ok.mp hvalue
    exact ⟨require_eq_ok.mp hfits, h⟩
  · rintro ⟨hfits, h⟩
    have hkey : key.length ≤ intMax := by omega
    have hvalue : value.length ≤ intMax := by omega
    rw [getStringLength_eq_ok.mpr ⟨hkey, rfl⟩, ok_bind, getStringLength_eq_ok.mpr ⟨hvalue, rfl⟩,
      ok_bind, require_true hfits, ok_bind, h]

/-- For an entry that is found, a new one is built, unless there is no memory for it. -/
theorem update_found_eq_ok_iff (hsearch : Searchable libc env key)
    (hfound : ∃ e ∈ env, SameString key e) :
    updateEntryInEnv libc fuel m (some env) key value = .ok r ↔
      (libcSym libc "malloc" = false ∨ (key.length + value.length + 2 ≤ intMax ∧
        libc.malloc (key.length + value.length + 2) = none)) ∧ r = (-1, some env) := by
  obtain ⟨e, hfind⟩ : ∃ e, env.find? (fun e => SameString key e) = some e := by
    rw [← Option.isSome_iff_exists, List.find?_isSome]
    simpa using hfound
  rw [updateEntryInEnv, (findEntryInEnv_eq_ok_iff libc).mpr ⟨hsearch, rfl⟩, ok_bind, hfind,
    Option.map_some]
  cases hsym : libcSym libc "malloc" with
  | false =>
    constructor
    · intro h
      exact ⟨Or.inl rfl, (Except.ok.inj h).symm⟩
    · rintro ⟨_, rfl⟩
      rfl
  | true =>
    simp only [if_true]
    rw [entryLen_eq_ok, or_iff_right (by decide), and_assoc]
    refine and_congr_right fun _ => ?_
    cases hmalloc : libc.malloc (key.length + value.length + 2) with
    | none =>
      constructor
      · intro h
        exact ⟨rfl, (Except.ok.inj h).symm⟩
      · rintro ⟨_, rfl⟩
        rfl
    | some p =>
      refine iff_of_false (fun h => ?_) (fun h => nomatch h.1)
      obtain ⟨x, hbuild, _⟩ := bind_eq_ok.mp h
      exact buildEntry_ne_ok _ _ _ _ _ _ hbuild

/-- The update returns only where it gives up. -/
theorem updateEntryInEnv_eq_ok_iff :
    updateEntryInEnv libc fuel m (some env) key value = .ok r ↔
      Searchable libc env key ∧ GivesUp libc env key value ∧ r = (-1, some env) := by
  by_cases hsearch : Searchable libc env key
  · rw [and_iff_right hsearch, GivesUp]
    by_cases hsame : ∃ e ∈ env, SameString key e
    · rw [update_found_eq_ok_iff libc hsearch hsame, and_iff_right hsame]
    · rw [update_absent_eq_ok_iff libc hsearch hsame, or_iff_left fun h => hsame h.1]
  · refine iff_of_false (fun h => ?_) fun h => hsearch h.1
    obtain ⟨_, hfind, _⟩ := bind_eq_ok.mp h
    exact hsearch ((findEntryInEnv_eq_ok_iff libc).mp hfind).1

end

/-- **When an update does what it should.** -/
theorem updatesEntry_iff {m : Mem} {environ : Option (List CStr)} {key value : CStr} :
    UpdatesEntry libc m environ key value ↔
      ∃ env, environ = some env ∧ Searchable libc env key ∧ GivesUp libc env key value := by
  constructor
  · rintro ⟨fuel, ret, environ', hcall, _⟩
    cases environ with
    | none =>
      obtain ⟨_, hfind, _⟩ := bind_eq_ok.mp hcall
      obtain ⟨_, _, hfind⟩ := bind_eq_ok.mp hfind
      cases hfind
    | some env =>
      obtain ⟨hsearch, hgives, _⟩ := (updateEntryInEnv_eq_ok_iff libc).mp hcall
      exact ⟨env, rfl, hsearch, hgives⟩
  · rintro ⟨env, rfl, hsearch, hgives⟩
    exact ⟨0, -1, some env, (updateEntryInEnv_eq_ok_iff libc).mpr ⟨hsearch, hgives, rfl⟩,
      fun hzero => absurd hzero (by decide)⟩

/-- On a machine that has everything, `A=1` is not updated to `A=2`. -/
theorem not_updatesEntry_sample :
    (∀ fuel, updateEntryInEnv sampleLibc fuel (fun _ => 0) (some [sampleEntry])
        (letter 0x41 (by decide)) (letter 0x32 (by decide)) = .error .nullPointer) ∧
      ¬UpdatesEntry sampleLibc (fun _ => 0) (some [sampleEntry]) (letter 0x41 (by decide))
        (letter 0x32 (by decide)) := by
  have hfault : ∀ fuel, updateEntryInEnv sampleLibc fuel (fun _ => 0) (some [sampleEntry])
      (letter 0x41 (by decide)) (letter 0x32 (by decide)) = .error .nullPointer := fun _ => rfl
  refine ⟨hfault, ?_⟩
  rintro ⟨fuel, ret, environ', hcall, _⟩
  rw [hfault] at hcall
  cases hcall

end Lab1.PhoneOfficer
