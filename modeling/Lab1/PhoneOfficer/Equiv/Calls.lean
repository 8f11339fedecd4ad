import Lab1.PhoneOfficer.Equiv.Environment

/-!
# What preloaded code makes of the environment

A process in which the utilities are preloaded calls them any number of times, in any order, on the
one `environ`; the C library may behave differently in each call.

A call that comes back has left `environ` alone, so that all of them work on the environment of the
start: the insertions and the updates have returned `-1`, and a lookup has found what stood there
from the beginning (`exec_apply_eq_ok_iff`).  In an environment of `key=value` strings this is
nothing at all (`reply_find`).
-/

namespace Lab1.PhoneOfficer

/-- A call of one of the functions on the environment, with the C library at that moment; `m` is
what a new entry of an update holds before. -/
inductive EnvCall (η : Type*) where
  | insert (libc : Libc η) (entry : CStr)
  | find (libc : Libc η) (entryKey : CStr)
  | update (libc : Libc η) (m : Mem) (entryKey entryValue : CStr)

/-- What a call returns. -/
inductive EnvReply where
  | status (ret : ℤ)
  | pointer (value : Option ℕ+)
  deriving DecidableEq

namespace EnvCall

variable {η : Type*}

/-- `environ` after the call, and what the call returns. -/
def apply (fuel : ℕ) (environ : Option (List CStr)) :
    EnvCall η → Except Fault (Option (List CStr) × EnvReply)
  | .insert libc entry => do
    let (ret, environ) ← insertEntryToEnv libc environ entry
    return (environ, .status ret)
  | .find libc entryKey => do
    let value ← findEntryInEnv libc environ entryKey
    return (environ, .pointer value)
  | .update libc m entryKey entryValue => do
    let (ret, environ) ← updateEntryInEnv libc fuel m environ entryKey entryValue
    return (environ, .status ret)

/-- The calls that come back. -/
def ComesBack (environ : Option (List CStr)) : EnvCall η → Prop
  | .insert libc _ => environ = none ∨ libcSym libc "malloc" = false
  | .find libc entryKey => ∃ env, environ = some env ∧ Searchable libc env entryKey
  | .update libc _ entryKey entryValue =>
    ∃ env, environ = some env ∧ Searchable libc env entryKey ∧
      GivesUp libc env entryKey entryValue

/-- What they return. -/
def reply (environ : Option (List CStr)) : EnvCall η → EnvReply
  | .insert _ _ => .status (-1)
  | .find _ entryKey =>
    .pointer (((environ.getD []).find? fun e => SameString entryKey e).map fun e =>
      e.addr + entryKey.length.succPNat)
  | .update _ _ _ _ => .status (-1)

/-! ### One call -/

variable {fuel : ℕ} {environ environ' : Option (List CStr)} {r : EnvReply}

theorem apply_insert_eq_ok_iff {libc : Libc η} {entry : CStr} :
    (insert libc entry).apply fuel environ = .ok (environ', r) ↔
      (insert libc entry).ComesBack environ ∧ environ' = environ ∧ r = .status (-1) := by
  rw [apply, bind_eq_ok]
  constructor
  · rintro ⟨_, hcall, hr⟩
    obtain ⟨hback, rfl⟩ := (insertEntryToEnv_eq_ok_iff libc).mp hcall
    obtain ⟨rfl, rfl⟩ := ok_pair_inj hr
    exact ⟨hback, rfl, rfl⟩
  · rintro ⟨hback, rfl, rfl⟩
    exact ⟨_, (insertEntryToEnv_eq_ok_iff libc).mpr ⟨hback, rfl⟩, rfl⟩

/-- The two other functions follow `environ` without a test. -/
theorem findEntryInEnv_none (libc : Libc η) (entryKey : CStr) (value : Option ℕ+) :
    findEntryInEnv libc none entryKey ≠ .ok value := by
  intro h
  obtain ⟨_, _, hfind⟩ := bind_eq_ok.mp h
  cases hfind

theorem apply_find_eq_ok_iff {libc : Libc η} {entryKey : CStr} :
    (find libc entryKey).apply fuel environ = .ok (environ', r) ↔
      (find libc entryKey).ComesBack environ ∧ environ' = environ ∧
        r = (find libc entryKey).reply environ := by
  rw [apply, bind_eq_ok]
  constructor
  · rintro ⟨value, hcall, hr⟩
    obtain ⟨rfl, rfl⟩ := ok_pair_inj hr
    cases environ with
    | none => exact absurd hcall (findEntryInEnv_none libc entryKey value)
    | some env =>
      obtain ⟨hsearch, rfl⟩ := (findEntryInEnv_eq_ok_iff libc).mp hcall
      exact ⟨⟨env, rfl, hsearch⟩, rfl, rfl⟩
  · rintro ⟨⟨env, rfl, hsearch⟩, rfl, rfl⟩
    exact ⟨_, (findEntryInEnv_eq_ok_iff libc).mpr ⟨hsearch, rfl⟩, rfl⟩

theorem apply_update_eq_ok_iff {libc : Libc η} {m : Mem} {entryKey entryValue : CStr} :
    (update libc m entryKey entryValue).apply fuel environ = .ok (environ', r) ↔
      (update libc m entryKey entryValue).ComesBack environ ∧ environ' = environ ∧
        r = .status (-1) := by
  rw [apply, bind_eq_ok]
  constructor
  · rintro ⟨⟨ret, environ''⟩, hcall, hr⟩
    obtain ⟨rfl, rfl⟩ := ok_pair_inj hr
    cases environ with
    | none =>
      -- the lookup comes first
      obtain ⟨value, hfind, _⟩ := bind_eq_ok.mp hcall
      exact absurd hfind (findEntryInEnv_none libc entryKey value)
    | some env =>
      obtain ⟨hsearch, hgives, hret⟩ := (updateEntryInEnv_eq_ok_iff libc).mp hcall
      obtain ⟨rfl, rfl⟩ := Prod.mk.inj hret
      exact ⟨⟨env, rfl, hsearch, hgives⟩, rfl, rfl⟩
  · rintro ⟨⟨env, rfl, hsearch, hgives⟩, rfl, rfl⟩
    exact ⟨_, (updateEntryInEnv_eq_ok_iff libc).mpr ⟨hsearch, hgives, rfl⟩, rfl⟩

/-- **What a call comes to.** -/
theorem apply_eq_ok_iff {call : EnvCall η} :
    call.apply fuel environ = .ok (environ', r) ↔
      call.ComesBack environ ∧ environ' = environ ∧ r = call.reply environ := by
  cases call with
  | insert libc entry => exact apply_insert_eq_ok_iff
  | find libc entryKey => exact apply_find_eq_ok_iff
  | update libc m entryKey entryValue => exact apply_update_eq_ok_iff

/-! ### All calls -/

/-- **What a process comes to.**  However many turns the loops are given, the calls all come back
exactly if each of them does on the environment of the start; `environ` is then what it was. -/
theorem exec_apply_eq_ok_iff (fuel : ℕ) (environ environ' : Option (List CStr))
    (calls : List (EnvCall η)) (replies : List EnvReply) :
    exec (fun env (call : EnvCall η) => call.apply fuel env) environ calls
        = .ok (environ', replies) ↔
      (∀ call ∈ calls, call.ComesBack environ) ∧ environ' = environ ∧
        replies = calls.map (EnvCall.reply environ) :=
  exec_eq_ok_iff_of_fixed fun _ _ _ => apply_eq_ok_iff

/-- Keys are found in no environment that is one. -/
theorem reply_find {env : List CStr} {entryKey : CStr} (henv : WellFormed env)
    (hkey : equalsSign ∉ entryKey.chars) (libc : Libc η) :
    (find libc entryKey).reply (some env) = .pointer none := by
  have hfind : env.find? (fun e => SameString entryKey e) = none :=
    List.find?_eq_none.mpr fun e he => by
      simpa using not_sameString hkey (henv.equals e he)
  show EnvReply.pointer ((env.find? fun e => SameString entryKey e).map _) = _
  rw [hfind]
  rfl

end EnvCall

end Lab1.PhoneOfficer
