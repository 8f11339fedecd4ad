import Lab1.Ibm.FileManipulator
import Mathlib.Tactic.SplitIfs

/-!
# Where a command is found

The lookup should find a command in whichever module of a directory it is.  But of each directory it
sees one module only, the one that was loaded last, and none at all if a load fails; a directory
without modules even ends the search, as `py_mod` has no value there.

What the files hold says where the search passes over a directory (`PassesOver`), and what the
module that is listed last binds the command to (`LastBinds`): the file binds it itself, or a file
of the same name that was loaded before.  `cmdLookup_eq_some_iff` and `cmdLookup_eq_none_iff` are
the search in these terms, and `findsCommand_iff` says when it is right.
-/

namespace Lab1.Ibm

variable {V F O : Type*} (py : Python V F O)

/-! ### The modules of a directory -/

/-- The module that a file is to the search, with what it holds. -/
def moduleOf (contents : Contents V) (dirPath fileNm : Str) : Option (Str × Code V) :=
  let (modName, fileExt) := splitext (basename fileNm)
  let path := dirPath ++ '/' :: fileNm
  if lower fileExt = dotPy then some (modName, contents.source path)
  else if lower fileExt = dotPyc then some (modName, contents.compiled path)
  else none

/-- The modules of a directory, in the order in which they are listed. -/
def modulesOf (dir : Str × Contents V) : List (Str × Code V) :=
  (dir.2.listdir.getD []).filterMap (moduleOf dir.2 dir.1)

/-! ### The property -/

section Spec

variable (isClass : V → Prop) (isInstance : O → V → Prop) (command : Str) (fileMng : F)

/-- A module of the directory that can be loaded defines the command as this class. -/
def Defines (dir : Str × Contents V) (v : V) : Prop :=
  isClass v ∧ ∃ name names, (name, Code.binds names) ∈ modulesOf dir ∧ names command = some v

/-- A module of the directory that can be loaded defines the command. -/
def HasCommand (dir : Str × Contents V) : Prop := ∃ v, Defines isClass command dir v

/-- The lookup gives an instance of the class that the first directory with one has, and `None` if
no directory has one. -/
structure FindsCommand (dirs : List (Str × Contents V)) (sys : Modules V) : Prop where
  found : ∀ pre dir post, dirs = pre ++ dir :: post →
    (∀ d ∈ pre, ¬HasCommand isClass command d) → HasCommand isClass command dir →
      ∃ o v, (cmdLookup py command fileMng dirs ⟨sys, []⟩).1 = .ok (some o) ∧
        Defines isClass command dir v ∧ isInstance o v
  notFound : (∀ d ∈ dirs, ¬HasCommand isClass command d) →
    (cmdLookup py command fileMng dirs ⟨sys, []⟩).1 = .ok none

end Spec

/-! ### What the files hold -/

/-- What stops the load of a file. -/
def Code.failure : Code V → Option Raised
  | .unreadable => some .exception
  | .raises raised => some raised
  | .binds _ => none

/-- The first failure of a load in the directory. -/
def firstFailure (dir : Str × Contents V) : Option Raised :=
  (modulesOf dir).findSome? fun m => m.2.failure

/-- A load fails, with an exception that is caught. -/
def GivesUp (dir : Str × Contents V) : Prop :=
  ∃ e, firstFailure dir = some e ∧ e.isException = true

/-- There are modules, and all of them can be loaded. -/
def AllLoad (dir : Str × Contents V) : Prop := modulesOf dir ≠ [] ∧ firstFailure dir = none

/-- The files up to the first that cannot be loaded. -/
def reached : List (Str × Code V) → List (Str × Code V)
  | [] => []
  | m :: ms => if m.2.failure = none then m :: reached ms else [m]

/-- The files of these directories that the search comes to, the last one first. -/
def filesOf (dirs : List (Str × Contents V)) : List (Str × Code V) :=
  (dirs.flatMap fun dir => reached (modulesOf dir)).reverse

section Search

variable (sys : Modules V) (command : Str) (fileMng : F)

/-- What the command is bound to in the module with this name, after these files, the last one
first: by the last file with the name that binds it, if in no file behind that one something is
raised.  In the beginning it is what `sys.modules` or a new module says. -/
def boundBy (name : Str) : List (Str × Code V) → Option V
  | [] => (sys name).getD py.newModule command
  | (name', code) :: files =>
    if name' = name then
      match code with
      | .unreadable => boundBy name files
      | .raises _ => py.newModule command
      | .binds names => (names command).or (boundBy name files)
    else boundBy name files

/-- All modules of the directory can be loaded, and in the one that is listed last the command is
bound to this; `files` are those before the directory. -/
def LastBinds (files : List (Str × Code V)) (dir : Str × Contents V) (v : V) : Prop :=
  AllLoad dir ∧ ∃ name code, (modulesOf dir).getLast? = some (name, code) ∧
    boundBy py sys command name ((modulesOf dir).reverse ++ files) = some v

/-- The search goes on behind the directory: it is given up, or all modules can be loaded and the
one listed last has no such attribute, or one of which a call gives `None`. -/
def PassesOver (files : List (Str × Code V)) (dir : Str × Contents V) : Prop :=
  GivesUp dir ∨ AllLoad dir ∧
    ∀ v, LastBinds py sys command files dir v → py.call v fileMng = .ok none

/-- The search goes on behind each of the directories. -/
def PassesAll (files : List (Str × Code V)) (dirs : List (Str × Contents V)) : Prop :=
  ∀ pre dir post, dirs = pre ++ dir :: post →
    PassesOver py sys command fileMng (filesOf pre ++ files) dir

/-- Behind directories that the search passes over there is one whose last module has the attribute,
and a call of this gives the object. -/
def Gives (files : List (Str × Code V)) (dirs : List (Str × Contents V)) (o : O) : Prop :=
  ∃ pre dir post v, dirs = pre ++ dir :: post ∧ PassesAll py sys command fileMng files pre ∧
    LastBinds py sys command (filesOf pre ++ files) dir v ∧ py.call v fileMng = .ok (some o)

variable (isClass : V → Prop) (isInstance : O → V → Prop)

/-- The class is one of the first directory that has the command. -/
def FirstDefines (dirs : List (Str × Contents V)) (v : V) : Prop :=
  ∃ pre dir post, dirs = pre ++ dir :: post ∧ (∀ d ∈ pre, ¬HasCommand isClass command d) ∧
    Defines isClass command dir v

/-- No directory has the command, and all of them are passed over; or the modules listed last lead
to an instance of a class of the first directory that has it. -/
def LastModulesAnswer (dirs : List (Str × Contents V)) : Prop :=
  (∀ d ∈ dirs, ¬HasCommand isClass command d) ∧ PassesAll py sys command fileMng [] dirs ∨
    ∃ o v, Gives py sys command fileMng [] dirs o ∧ FirstDefines command isClass dirs v ∧
      isInstance o v

end Search

/-! ### One directory -/

/-- Load a file, with the module that was loaded last. -/
def loaded (st : Option (Namespace V) × Modules V) (m : Str × Code V) :
    Option (Namespace V) × Modules V :=
  match execCode py st.2 m.1 m.2 with
  | (.ok module, sys) => (some module, sys)
  | (.error _, sys) => (st.1, sys)

/-- The loop over the modules alone. -/
def loadModules : List (Str × Code V) → Option (Namespace V) × Modules V →
    Except Raised (Option (Namespace V)) × Modules V
  | [], (none, sys) => (.error .unboundLocalError, sys)
  | [], (some pyMod, sys) => (.ok (some pyMod), sys)
  | m :: ms, (_, sys) =>
    match execCode py sys m.1 m.2 with
    | (.ok pyMod, sys) => loadModules ms (some pyMod, sys)
    | (.error e, sys) => if e.isException then (.ok none, sys) else (.error e, sys)

theorem loadFiles_eq (contents : Contents V) (dirPath : Str) (files : List Str)
    (pyMod : Option (Namespace V)) (st : Loads V) :
    Prod.map id Loads.sys (loadFiles py contents dirPath files pyMod st)
      = loadModules py (files.filterMap (moduleOf contents dirPath)) (pyMod, st.sys) := by
  induction files generalizing pyMod st with
  | nil => rcases pyMod with _ | pyMod <;> rfl
  | cons fileNm files ih =>
    rw [List.filterMap_cons]
    generalize files.filterMap (moduleOf contents dirPath) = ms at ih ⊢
    -- source or compiled, what is done with what comes out of the load is the same
    have hfails : ∀ (m : Str × Code V) (e : Raised) (st' : Loads V),
        execCode py st.sys m.1 m.2 = (.error e, st'.sys) →
          Prod.map (id : Except Raised (Option (Namespace V)) → _) Loads.sys
            (if e.isException then (.ok none, st') else (.error e, st'))
          = loadModules py (m :: ms) (pyMod, st.sys) := by
      intro m e st' hexec
      rw [loadModules, hexec]
      dsimp only
      split_ifs <;> rfl
    have hloads : ∀ (m : Str × Code V) (pyMod' : Namespace V) (st' : Loads V),
        execCode py st.sys m.1 m.2 = (.ok pyMod', st'.sys) →
          Prod.map id Loads.sys (loadFiles py contents dirPath files (some pyMod') st')
            = loadModules py (m :: ms) (pyMod, st.sys) := by
      intro m pyMod' st' hexec
      rw [loadModules, hexec]
      exact ih (some pyMod') st'
    unfold loadFiles moduleOf
    dsimp only
    split_ifs
    · rcases hload : loadSource py contents st (splitext (basename fileNm)).1
        (dirPath ++ '/' :: fileNm) with ⟨e | pyMod', st'⟩
      · exact hfails (_, contents.source _) e st' (congrArg (Prod.map id Loads.sys) hload)
      · exact hloads (_, contents.source _) pyMod' st' (congrArg (Prod.map id Loads.sys) hload)
    · rcases hload : loadCompiled py contents st (splitext (basename fileNm)).1
        (dirPath ++ '/' :: fileNm) with ⟨e | pyMod', st'⟩
      · exact hfails (_, contents.compiled _) e st' (congrArg (Prod.map id Loads.sys) hload)
      · exact hloads (_, contents.compiled _) pyMod' st' (congrArg (Prod.map id Loads.sys) hload)
    · exact ih pyMod st

/-- **What comes out of the modules of a directory.** -/
theorem loadModules_eq (ms : List (Str × Code V)) (st : Option (Namespace V) × Modules V) :
    loadModules py ms st
      = (match ms.findSome? fun m => m.2.failure with
          | some e => if e.isException then .ok none else .error e
          | none =>
            match ((reached ms).foldl (loaded py) st).1 with
            | some pyMod => .ok (some pyMod)
            | none => .error .unboundLocalError,
        ((reached ms).foldl (loaded py) st).2) := by
  induction ms generalizing st with
  | nil => obtain ⟨_ | pyMod, sys⟩ := st <;> rfl
  | cons m ms ih =>
    obtain ⟨name, code⟩ := m
    obtain ⟨pyMod, sys⟩ := st
    cases code with
    | unreadable => rfl
    | raises raised => cases raised <;> rfl
    | binds names => exact ih _

theorem reached_of_loads {ms : List (Str × Code V)}
    (h : ms.findSome? (fun m => m.2.failure) = none) : reached ms = ms := by
  induction ms with
  | nil => rfl
  | cons m ms ih =>
    rw [List.findSome?_eq_none_iff] at h ih
    rw [reached, if_pos (h m List.mem_cons_self),
      ih fun m' hm' => h m' (List.mem_cons_of_mem m hm')]

section Directory

variable {py} {sys₀ sys : Modules V} {command : Str} {files : List (Str × Code V)}
  {dir : Str × Contents V} {st : Loads V}

theorem loadModuleFromDir_eq (py : Python V F O) (st : Loads V) (h : modulesOf dir ≠ []) :
    Prod.map id Loads.sys (loadModuleFromDir py dir.2 dir.1 st)
      = loadModules py (modulesOf dir) (none, st.sys) := by
  unfold loadModuleFromDir
  cases hlist : dir.2.listdir with
  | none => exact absurd (by rw [modulesOf, hlist]; rfl) h
  | some fileNms =>
    rw [modulesOf, hlist]
    exact loadFiles_eq py dir.2 dir.1 fileNms none st

theorem ne_nil_of_givesUp (h : GivesUp dir) : modulesOf dir ≠ [] := by
  obtain ⟨e, he, _⟩ := h
  intro hnil
  rw [firstFailure, hnil] at he
  cases he

/-! ### What a name is bound to -/

/-- In the modules of `sys` the command is bound to what the files say. -/
def Knows (py : Python V F O) (sys₀ : Modules V) (command : Str) (files : List (Str × Code V))
    (sys : Modules V) : Prop :=
  ∀ name, (sys name).getD py.newModule command = boundBy py sys₀ command name files

theorem knows_start : Knows py sys command [] sys := fun _ => rfl

/-- The module that a file was loaded into knows what the file, and those before it, bind. -/
theorem Knows.execCode (h : Knows py sys₀ command files sys) (name : Str) (names : Namespace V) :
    (names command).or ((sys name).getD py.newModule command)
      = boundBy py sys₀ command name ((name, .binds names) :: files) := by
  rw [boundBy, if_pos rfl, h name]

/-- **The load of a file.** -/
theorem Knows.loaded {pyMod : Option (Namespace V)} (h : Knows py sys₀ command files sys)
    (m : Str × Code V) :
    Knows py sys₀ command (m :: files) (loaded py (pyMod, sys) m).2 := by
  obtain ⟨name, code⟩ := m
  intro name'
  cases code with
  | unreadable =>
    rw [boundBy]
    split_ifs
    · exact h name'
    · exact h name'
  | raises raised =>
    show (Function.update sys name none name').getD py.newModule command = _
    rw [boundBy]
    split_ifs with heq
    · rw [heq, Function.update_self]
      rfl
    · rw [Function.update_of_ne (Ne.symm heq)]
      exact h name'
  | binds names =>
    show (Function.update sys name (some fun attr =>
      (names attr).or ((sys name).getD py.newModule attr)) name').getD py.newModule command = _
    rcases eq_or_ne name name' with rfl | hne
    · rw [Function.update_self]
      exact h.execCode name names
    · rw [Function.update_of_ne hne.symm, boundBy, if_neg hne]
      exact h name'

theorem Knows.foldl (ms : List (Str × Code V)) {st : Option (Namespace V) × Modules V}
    (h : Knows py sys₀ command files st.2) :
    Knows py sys₀ command (ms.reverse ++ files) (ms.foldl (Ibm.loaded py) st).2 := by
  induction ms generalizing st files with
  | nil => exact h
  | cons m ms ih =>
    rw [List.foldl_cons, List.reverse_cons, List.append_assoc]
    exact ih (h.loaded m)

/-! ### What comes out of a directory -/

theorem load_of_givesUp (hknows : Knows py sys₀ command files st.sys) (h : GivesUp dir) :
    ∃ st', loadModuleFromDir py dir.2 dir.1 st = (.ok none, st') ∧
      Knows py sys₀ command (filesOf [dir] ++ files) st'.sys := by
  have heq := loadModuleFromDir_eq py st (ne_nil_of_givesUp h)
  obtain ⟨e, he, hcaught⟩ := h
  rw [firstFailure] at he
  rw [loadModules_eq, he] at heq
  dsimp only at heq
  rw [if_pos hcaught] at heq
  rcases hload : loadModuleFromDir py dir.2 dir.1 st with ⟨result, st'⟩
  rw [hload] at heq
  obtain ⟨hresult, hsys⟩ := Prod.mk.inj heq
  refine ⟨st', congrArg (·, st') hresult, ?_⟩
  rw [hsys, filesOf, List.flatMap_singleton]
  exact Knows.foldl (reached (modulesOf dir)) hknows

theorem load_of_allLoad (hknows : Knows py sys₀ command files st.sys) (h : AllLoad dir) :
    ∃ pyMod st', loadModuleFromDir py dir.2 dir.1 st = (.ok (some pyMod), st') ∧
      Knows py sys₀ command (filesOf [dir] ++ files) st'.sys ∧
      ∀ v, LastBinds py sys₀ command files dir v ↔ pyMod command = some v := by
  have heq := loadModuleFromDir_eq py st h.1
  have hfail : (modulesOf dir).findSome? (fun m => m.2.failure) = none := h.2
  have hreached := reached_of_loads hfail
  rw [loadModules_eq, hfail, hreached] at heq
  -- the module that is listed last
  obtain ⟨ms, m, hms⟩ : ∃ ms m, modulesOf dir = ms ++ [m] :=
    ⟨_, _, (List.dropLast_concat_getLast h.1).symm⟩
  obtain ⟨name, code⟩ := m
  have hcode : code.failure = none :=
    List.findSome?_eq_none_iff.mp hfail (name, code) (by rw [hms]; simp)
  cases code with
  | unreadable => cases hcode
  | raises raised => cases hcode
  | binds names =>
    have hbefore : Knows py sys₀ command (ms.reverse ++ files)
        (ms.foldl (Ibm.loaded py) (none, st.sys)).2 := Knows.foldl ms hknows
    have hlast : (modulesOf dir).foldl (Ibm.loaded py) (none, st.sys)
        = Ibm.loaded py (ms.foldl (Ibm.loaded py) (none, st.sys)) (name, .binds names) := by
      rw [hms, List.foldl_append]
      rfl
    generalize ms.foldl (Ibm.loaded py) (none, st.sys) = st₁ at hbefore hlast
    have hmodule : (Ibm.loaded py st₁ (name, .binds names)).1
        = some fun attr => (names attr).or ((st₁.2 name).getD py.newModule attr) := rfl
    rw [hlast, hmodule] at heq
    dsimp only at heq
    rcases hload : loadModuleFromDir py dir.2 dir.1 st with ⟨result, st'⟩
    rw [hload] at heq
    obtain ⟨hresult, hsys⟩ := Prod.mk.inj heq
    refine ⟨_, st', congrArg (·, st') hresult, ?_, fun v => ?_⟩
    · rw [hsys, filesOf, List.flatMap_singleton, hreached, ← hlast]
      exact Knows.foldl (modulesOf dir) hknows
    · have hget : (modulesOf dir).getLast? = some (name, .binds names) := by
        rw [hms, List.getLast?_concat]
      have hbound : boundBy py sys₀ command name ((modulesOf dir).reverse ++ files)
          = (names command).or ((st₁.2 name).getD py.newModule command) := by
        rw [hms, List.reverse_append]
        exact (hbefore.execCode name names).symm
      rw [← hbound, LastBinds]
      constructor
      · rintro ⟨-, name', code', hget', hv⟩
        rw [hget, Option.some.injEq, Prod.mk.injEq] at hget'
        obtain ⟨rfl, -⟩ := hget'
        exact hv
      · exact fun hv => ⟨h, name, .binds names, hget, hv⟩

/-- Otherwise the search is over. -/
theorem load_eq_error (py : Python V F O) (st : Loads V) (hup : ¬GivesUp dir)
    (hall : ¬AllLoad dir) :
    ∃ e st', loadModuleFromDir py dir.2 dir.1 st = (.error e, st') := by
  have hresult : ∃ e, (loadModuleFromDir py dir.2 dir.1 st).1 = .error e := by
    by_cases hms : modulesOf dir = []
    · -- `listdir` raises, or `py_mod` has no value when it is returned
      unfold loadModuleFromDir
      cases hlist : dir.2.listdir with
      | none => exact ⟨_, rfl⟩
      | some fileNms =>
        have hfiles : fileNms.filterMap (moduleOf dir.2 dir.1) = [] := by
          rw [modulesOf, hlist] at hms
          exact hms
        have heq := loadFiles_eq py dir.2 dir.1 fileNms none st
        rw [hfiles] at heq
        exact ⟨_, congrArg Prod.fst heq⟩
    · have heq := loadModuleFromDir_eq py st hms
      rw [loadModules_eq] at heq
      cases hfail : (modulesOf dir).findSome? fun m => m.2.failure with
      | none => exact absurd ⟨hms, hfail⟩ hall
      | some e =>
        have hcaught : ¬e.isException = true := fun he => hup ⟨e, hfail, he⟩
        rw [hfail] at heq
        dsimp only at heq
        rw [if_neg hcaught] at heq
        exact ⟨e, congrArg Prod.fst heq⟩
  obtain ⟨e, he⟩ := hresult
  exact ⟨e, _, Prod.ext he rfl⟩

end Directory

/-! ### The search -/

section Search

variable {py} {command : Str} {fileMng : F} {dir : Str × Contents V}
  {dirs : List (Str × Contents V)} {files : List (Str × Code V)} {sys : Modules V} {st : Loads V}
  {o : O}

theorem filesOf_cons (dir : Str × Contents V) (dirs : List (Str × Contents V))
    (files : List (Str × Code V)) :
    filesOf (dir :: dirs) ++ files = filesOf dirs ++ (filesOf [dir] ++ files) := by
  rw [filesOf, List.flatMap_cons, List.reverse_append, filesOf, filesOf, List.flatMap_singleton,
    List.append_assoc]

theorem passesAll_nil : PassesAll py sys command fileMng files [] := by
  intro pre d post hnil
  exact absurd hnil.symm (List.append_ne_nil_of_right_ne_nil _ (List.cons_ne_nil _ _))

theorem passesAll_cons : PassesAll py sys command fileMng files (dir :: dirs) ↔
    PassesOver py sys command fileMng files dir ∧
      PassesAll py sys command fileMng (filesOf [dir] ++ files) dirs := by
  constructor
  · intro h
    refine ⟨h [] dir dirs rfl, fun pre d post hdirs => ?_⟩
    rw [← filesOf_cons]
    exact h (dir :: pre) d post (congrArg (dir :: ·) hdirs)
  · rintro ⟨hfirst, hrest⟩ pre d post hdirs
    rcases pre with _ | ⟨d', pre⟩
    · obtain ⟨rfl, -⟩ := List.cons.inj hdirs
      exact hfirst
    · obtain ⟨rfl, htail⟩ := List.cons.inj hdirs
      rw [filesOf_cons]
      exact hrest pre d post htail

theorem not_gives_nil : ¬Gives py sys command fileMng files [] o := by
  rintro ⟨pre, d, post, v, hnil, -⟩
  exact absurd hnil.symm (List.append_ne_nil_of_right_ne_nil _ (List.cons_ne_nil _ _))

theorem gives_cons : Gives py sys command fileMng files (dir :: dirs) o ↔
    (∃ v, LastBinds py sys command files dir v ∧ py.call v fileMng = .ok (some o)) ∨
      PassesOver py sys command fileMng files dir ∧
        Gives py sys command fileMng (filesOf [dir] ++ files) dirs o := by
  constructor
  · rintro ⟨_ | ⟨d', pre⟩, d, post, v, hdirs, hpass, hlast, hcall⟩
    · obtain ⟨rfl, -⟩ := List.cons.inj hdirs
      exact Or.inl ⟨v, hlast, hcall⟩
    · obtain ⟨rfl, htail⟩ := List.cons.inj hdirs
      rw [passesAll_cons] at hpass
      rw [filesOf_cons] at hlast
      exact Or.inr ⟨hpass.1, pre, d, post, v, htail, hpass.2, hlast, hcall⟩
  · rintro (⟨v, hlast, hcall⟩ | ⟨hfirst, pre, d, post, v, rfl, hpass, hlast, hcall⟩)
    · exact ⟨[], dir, dirs, v, rfl, passesAll_nil, hlast, hcall⟩
    · refine ⟨dir :: pre, d, post, v, rfl, passesAll_cons.mpr ⟨hfirst, hpass⟩, ?_, hcall⟩
      rw [filesOf_cons]
      exact hlast

/-- **One directory of the search.**  It has the answer there, goes on, or raises. -/
theorem cmdLookup_cons (hknows : Knows py sys command files st.sys) :
    (∃ v o, LastBinds py sys command files dir v ∧ py.call v fileMng = .ok (some o) ∧
        (cmdLookup py command fileMng (dir :: dirs) st).1 = .ok (some o)) ∨
      (PassesOver py sys command fileMng files dir ∧ ∃ st',
        Knows py sys command (filesOf [dir] ++ files) st'.sys ∧
        cmdLookup py command fileMng (dir :: dirs) st = cmdLookup py command fileMng dirs st') ∨
      (¬PassesOver py sys command fileMng files dir ∧
        (∀ v o, LastBinds py sys command files dir v → py.call v fileMng ≠ .ok (some o)) ∧
        ∃ e, (cmdLookup py command fileMng (dir :: dirs) st).1 = .error e) := by
  obtain ⟨path, contents⟩ := dir
  by_cases hup : GivesUp (path, contents)
  · obtain ⟨st', hload, hknows'⟩ := load_of_givesUp hknows hup
    refine Or.inr (Or.inl ⟨Or.inl hup, st', hknows', ?_⟩)
    dsimp only at hload
    rw [cmdLookup, hload]
  by_cases hall : AllLoad (path, contents)
  · obtain ⟨pyMod, st', hload, hknows', hlast⟩ := load_of_allLoad hknows hall
    dsimp only at hload
    cases hattr : pyMod command with
    | none =>
      refine Or.inr (Or.inl ⟨Or.inr ⟨hall, fun v hv => ?_⟩, st', hknows', ?_⟩)
      · rw [hlast, hattr] at hv
        cases hv
      · rw [cmdLookup, hload]
        dsimp only
        rw [hattr]
    | some attr =>
      have honly : ∀ v, LastBinds py sys command files (path, contents) v → v = attr := by
        intro v hv
        rw [hlast, hattr] at hv
        exact (Option.some.inj hv).symm
      cases hcall : py.call attr fileMng with
      | error e =>
        refine Or.inr (Or.inr ⟨?_, fun v o hv hgives => ?_, e, ?_⟩)
        · rintro (hgives | ⟨-, hnone⟩)
          · exact hup hgives
          · have hcall' := hnone attr ((hlast attr).mpr hattr)
            rw [hcall] at hcall'
            cases hcall'
        · rw [honly v hv, hcall] at hgives
          cases hgives
        · rw [cmdLookup, hload]
          dsimp only
          rw [hattr]
          dsimp only
          rw [hcall]
      | ok result =>
        cases result with
        | none =>
          refine Or.inr (Or.inl ⟨Or.inr ⟨hall, fun v hv => ?_⟩, st', hknows', ?_⟩)
          · rw [honly v hv, hcall]
          · rw [cmdLookup, hload]
            dsimp only
            rw [hattr]
            dsimp only
            rw [hcall]
        | some o =>
          refine Or.inl ⟨attr, o, (hlast attr).mpr hattr, hcall, ?_⟩
          rw [cmdLookup, hload]
          dsimp only
          rw [hattr]
          dsimp only
          rw [hcall]
  · obtain ⟨e, st', hload⟩ := load_eq_error py st hup hall
    dsimp only at hload
    refine Or.inr (Or.inr ⟨?_, fun v o hv => absurd hv.1 hall, e, ?_⟩)
    · rintro (hgives | ⟨hloads, -⟩)
      · exact hup hgives
      · exact hall hloads
    · rw [cmdLookup, hload]

theorem not_passesOver {v : V} (hlast : LastBinds py sys command files dir v)
    (hcall : py.call v fileMng = .ok (some o)) :
    ¬PassesOver py sys command fileMng files dir := by
  rintro (⟨e, he, -⟩ | ⟨-, hnone⟩)
  · rw [hlast.1.2] at he
    cases he
  · rw [hnone v hlast] at hcall
    cases hcall

theorem LastBinds.unique {v w : V} (hv : LastBinds py sys command files dir v)
    (hw : LastBinds py sys command files dir w) : v = w := by
  obtain ⟨-, name, code, hget, hv⟩ := hv
  obtain ⟨-, name', code', hget', hw⟩ := hw
  rw [hget, Option.some.injEq, Prod.mk.injEq] at hget'
  obtain ⟨rfl, -⟩ := hget'
  exact Option.some.inj (hv.symm.trans hw)

/-- **When the lookup gives an object.** -/
theorem cmdLookup_eq_some_iff (hknows : Knows py sys command files st.sys) :
    (cmdLookup py command fileMng dirs st).1 = .ok (some o) ↔
      Gives py sys command fileMng files dirs o := by
  induction dirs generalizing st files with
  | nil => exact iff_of_false (by rintro ⟨⟩) not_gives_nil
  | cons dir dirs ih =>
    rw [gives_cons]
    rcases cmdLookup_cons hknows with ⟨v, o', hlast, hcall, hok⟩ | ⟨hpass, st', hknows', hok⟩ |
      ⟨hnot, hno, e, hok⟩
    · rw [hok]
      constructor
      · intro ho
        obtain rfl : o' = o := Option.some.inj (Except.ok.inj ho)
        exact Or.inl ⟨v, hlast, hcall⟩
      · rintro (⟨v', hlast', hcall'⟩ | ⟨hpass, -⟩)
        · rw [hlast'.unique hlast, hcall] at hcall'
          exact hcall'
        · exact absurd hpass (not_passesOver hlast hcall)
    · rw [hok, ih hknows']
      refine ⟨fun hgives => Or.inr ⟨hpass, hgives⟩, ?_⟩
      rintro (⟨v, hlast, hcall⟩ | ⟨-, hgives⟩)
      · exact absurd hpass (not_passesOver hlast hcall)
      · exact hgives
    · rw [hok]
      refine iff_of_false (by rintro ⟨⟩) ?_
      rintro (⟨v, hlast, hcall⟩ | ⟨hpass, -⟩)
      · exact hno v o hlast hcall
      · exact hnot hpass

/-- **When the lookup comes to its end.** -/
theorem cmdLookup_eq_none_iff (hknows : Knows py sys command files st.sys) :
    (cmdLookup py command fileMng dirs st).1 = .ok none ↔
      PassesAll py sys command fileMng files dirs := by
  induction dirs generalizing st files with
  | nil => exact iff_of_true rfl passesAll_nil
  | cons dir dirs ih =>
    rw [passesAll_cons]
    rcases cmdLookup_cons hknows with ⟨v, o', hlast, hcall, hok⟩ | ⟨hpass, st', hknows', hok⟩ |
      ⟨hnot, -, e, hok⟩
    · rw [hok]
      exact iff_of_false (by rintro ⟨⟩) fun h => not_passesOver hlast hcall h.1
    · rw [hok, ih hknows']
      exact (and_iff_right hpass).symm
    · rw [hok]
      exact iff_of_false (by rintro ⟨⟩) fun h => hnot h.1

end Search

/-! ### The equivalence -/

section Equivalence

variable {isClass : V → Prop} {command : Str} {dirs : List (Str × Contents V)}

/-- There is a first directory with the command, if there is one at all. -/
theorem exists_first (h : ∃ d ∈ dirs, HasCommand isClass command d) :
    ∃ pre dir post, dirs = pre ++ dir :: post ∧ (∀ d ∈ pre, ¬HasCommand isClass command d) ∧
      HasCommand isClass command dir := by
  induction dirs with
  | nil =>
    obtain ⟨d, hd, -⟩ := h
    cases hd
  | cons d dirs ih =>
    by_cases hd : HasCommand isClass command d
    · exact ⟨[], d, dirs, rfl, fun _ hmem => (List.not_mem_nil hmem).elim, hd⟩
    · obtain ⟨d', hd', hcommand⟩ := h
      rcases List.mem_cons.mp hd' with rfl | hd'
      · exact absurd hcommand hd
      · obtain ⟨pre, dir, post, rfl, hpre, hdir⟩ := ih ⟨d', hd', hcommand⟩
        refine ⟨d :: pre, dir, post, rfl, fun d'' hmem => ?_, hdir⟩
        rcases List.mem_cons.mp hmem with rfl | hmem
        · exact hd
        · exact hpre d'' hmem

theorem first_unique {pre pre' post post' : List (Str × Contents V)} {dir dir' : Str × Contents V}
    (heq : pre ++ dir :: post = pre' ++ dir' :: post')
    (hpre : ∀ d ∈ pre, ¬HasCommand isClass command d) (hdir : HasCommand isClass command dir)
    (hpre' : ∀ d ∈ pre', ¬HasCommand isClass command d)
    (hdir' : HasCommand isClass command dir') : dir = dir' := by
  induction pre generalizing pre' with
  | nil =>
    rcases pre' with _ | ⟨d', pre'⟩
    · exact (List.cons.inj heq).1
    · obtain ⟨rfl, -⟩ := List.cons.inj heq
      exact absurd hdir (hpre' dir List.mem_cons_self)
  | cons d pre ih =>
    rcases pre' with _ | ⟨d', pre'⟩
    · obtain ⟨rfl, -⟩ := List.cons.inj heq
      exact absurd hdir' (hpre d List.mem_cons_self)
    · obtain ⟨-, heq⟩ := List.cons.inj heq
      exact ih heq (fun d hd => hpre d (List.mem_cons_of_mem _ hd))
        fun d hd => hpre' d (List.mem_cons_of_mem _ hd)

end Equivalence

/-- **The lookup finds the commands exactly when what the last modules of the directories bind is
right for all of them.** -/
theorem findsCommand_iff (isClass : V → Prop) (isInstance : O → V → Prop) (command : Str)
    (fileMng : F) (dirs : List (Str × Contents V)) (sys : Modules V) :
    FindsCommand py isClass isInstance command fileMng dirs sys ↔
      LastModulesAnswer py sys command fileMng isClass isInstance dirs := by
  have hknows : Knows py sys command [] (⟨sys, []⟩ : Loads V).sys := knows_start
  constructor
  · intro h
    by_cases hsome : ∃ d ∈ dirs, HasCommand isClass command d
    · obtain ⟨pre, dir, post, hdirs, hpre, hdir⟩ := exists_first hsome
      obtain ⟨o, v, ho, hdefines, hinstance⟩ := h.found pre dir post hdirs hpre hdir
      exact Or.inr ⟨o, v, (cmdLookup_eq_some_iff hknows).mp ho,
        ⟨pre, dir, post, hdirs, hpre, hdefines⟩, hinstance⟩
    · have hno : ∀ d ∈ dirs, ¬HasCommand isClass command d :=
        fun d hd hcommand => hsome ⟨d, hd, hcommand⟩
      exact Or.inl ⟨hno, (cmdLookup_eq_none_iff hknows).mp (h.notFound hno)⟩
  · rintro (⟨hno, hpass⟩ | ⟨o, v, hgives, ⟨pre, dir, post, hdirs, hpre, hdefines⟩, hinstance⟩)
    · constructor
      · intro pre dir post hdirs _ hdir
        exact absurd hdir (hno dir (by rw [hdirs]; simp))
      · exact fun _ => (cmdLookup_eq_none_iff hknows).mpr hpass
    · constructor
      · intro pre' dir' post' hdirs' hpre' hdir'
        obtain rfl := first_unique (hdirs.symm.trans hdirs') hpre ⟨v, hdefines⟩ hpre' hdir'
        exact ⟨o, v, (cmdLookup_eq_some_iff hknows).mpr hgives, hdefines, hinstance⟩
      · intro hno
        exact absurd ⟨v, hdefines⟩ (hno dir (by rw [hdirs]; simp))

/-- Two files, of which the first defines the command `Sort`. -/
def twoModules : Contents Unit where
  listdir := some [['A', '.', 'p', 'y'], ['B', '.', 'p', 'y']]
  source path := .binds fun name =>
    if path = ['.', '/', 'A', '.', 'p', 'y'] ∧ name = ['S', 'o', 'r', 't'] then some () else none
  compiled _ := .unreadable

/-- A call gives an instance. -/
def onlyClasses : Python Unit Unit Unit where
  newModule _ := none
  call _ _ := .ok (some ())

/-- The two files are in the current directory. -/
theorem not_findsCommand_twoModules :
    ¬FindsCommand onlyClasses (fun _ => True) (fun _ _ => True) ['S', 'o', 'r', 't'] ()
      ((mPathList [] ['.']).map fun path => (path, twoModules)) fun _ => none := by
  intro h
  have hdir : HasCommand (fun _ => True) ['S', 'o', 'r', 't'] (['.'], twoModules) :=
    ⟨(), trivial, ['A'], _, List.mem_cons_self, rfl⟩
  obtain ⟨o, v, ho, _⟩ := h.found [] (['.'], twoModules) [] rfl (fun d hd => by cases hd) hdir
  have hnone : (cmdLookup onlyClasses ['S', 'o', 'r', 't'] ()
      ((mPathList [] ['.']).map fun path => (path, twoModules)) ⟨fun _ => none, []⟩).1
      = .ok none := rfl
  rw [hnone] at ho
  cases ho

end Lab1.Ibm
