import Lab1.Inotify.Equiv.EventWalk

/-!
# Which directories are watched

Of a buffer only the first event is looked at, and whatever directory its descriptor stands for, the
new directory is taken to be in the watch point (`dirToAdd_eq`).  So the calls of
`addPath2WatchList` are the right ones as long as every directory is reported first in its buffer
and was created in the watch point itself (`addsCreated_iff`).  The next buffer is read when the
walk through the one before has come to its end (`watchesCreated_iff`).
-/

namespace Lab1.Inotify

/-! ### The property -/

/-- The event says that a directory was created. -/
def InotifyEvent.isDirCreate (e : InotifyEvent) : Bool :=
  decide (e.mask &&& IN_ISDIR ≠ 0 ∧ e.mask &&& IN_CREATE ≠ 0)

/-- The directory of a descriptor: the path of the last watch that got it. -/
def dirOf (watches : List Watch) (wd : UInt32) : Option Path :=
  (watches.reverse.find? fun w => w.wp = (wd.toNat : ℤ)).map Watch.path

/-- The directories that should be watched, one for each creation. -/
def createdDirs (watches : List Watch) (b : EventBuffer) : List (Option Path) :=
  (b.events.filter InotifyEvent.isDirCreate).map fun e =>
    (dirOf watches e.wd).map (· ++ slash :: e.cname)

/-- The calls made for a buffer are the ones that should be made. -/
def AddsCreated (s_watchPointPath : Path) (watches : List Watch) (b : EventBuffer) : Prop :=
  ∃ dir, dirToAdd s_watchPointPath b.eventBuffer = .ok dir ∧
    dir.toList.map some = createdDirs watches b

/-- No system call fails in the turn. -/
def Turn.Succeeds (t : Turn) : Prop := t.read ≠ none ∧ 0 ≤ t.wp

/-- Over a whole run: the program comes to each buffer, unless a system call failed before, and
makes the calls that it should for it. -/
def WatchesCreated (s_watchPointPath : Path) (wpFd : ℤ) (turns : List Turn) : Prop :=
  ∀ pre t post b, turns = pre ++ t :: post → t.read = some b → (∀ u ∈ pre, u.Succeeds) →
    ∃ fuel watches outs, listen2Events s_watchPointPath wpFd fuel pre = .ok (watches, outs) ∧
      AddsCreated s_watchPointPath watches b

/-- Directories are created in the watch point only, and the first event of a buffer is the only one
that says so. -/
structure FirstInWatchPoint (s_watchPointPath : Path) (watches : List Watch) (b : EventBuffer) :
    Prop where
  inWatchPoint : ∀ e, b.events.head? = some e → e.isDirCreate = true →
    dirOf watches e.wd = some s_watchPointPath
  first : ∀ e ∈ b.events.tail, e.isDirCreate = false

/-- From one event to the next as the walk goes, there are no bytes left in the end. -/
def WalkEnds (b : EventBuffer) : Prop :=
  ∃ ss st, (walkGrammar b.eventBuffer).Path ss ⟨b.bytesRead, 0, []⟩ st ∧ ¬0 < st.bytesRead

/-- The directory of the first event, if it says that one was created, as one of the watch point. -/
def firstDir (s_watchPointPath : Path) (b : EventBuffer) : Option Path :=
  (b.events.head?.filter InotifyEvent.isDirCreate).map fun e => s_watchPointPath ++ slash :: e.cname

/-- The watches after some turns. -/
def watchesAfter (s_watchPointPath : Path) (wpFd : ℤ) (turns : List Turn) : List Watch :=
  ⟨s_watchPointPath, wpFd⟩ :: turns.flatMap fun t =>
    (t.read.bind (firstDir s_watchPointPath)).toList.map (⟨·, t.wp⟩)

/-- The walk through every buffer but the last comes to its end, and new directories are told by the
first event of a buffer, and are in the watch point. -/
def FirstTellsAll (s_watchPointPath : Path) (wpFd : ℤ) (turns : List Turn) : Prop :=
  ∀ pre t post b, turns = pre ++ t :: post → t.read = some b → (∀ u ∈ pre, u.Succeeds) →
    (∀ u ∈ pre, ∀ b', u.read = some b' → WalkEnds b') ∧
      FirstInWatchPoint s_watchPointPath (watchesAfter s_watchPointPath wpFd pre) b

/-! ### One buffer -/

variable {s_watchPointPath : Path} {watches : List Watch} {b : EventBuffer} {e : InotifyEvent}
  {es : List InotifyEvent}

theorem InotifyEvent.name_ne_nil (h : e.isDirCreate = true) : e.name ≠ [] :=
  e.named (of_decide_eq_true h).2

/-- What is called for a buffer. -/
theorem dirToAdd_eq (h : b.events = e :: es) : dirToAdd s_watchPointPath b.eventBuffer
    = .ok (if e.isDirCreate then some (s_watchPointPath ++ slash :: e.cname) else none) := by
  have hpacked := b.packed
  rw [h] at hpacked
  have hat := hpacked.cons.1
  have hmask := hat.mask
  rw [Nat.zero_add] at hmask
  unfold dirToAdd
  rw [hmask]
  by_cases hdir : e.mask &&& IN_ISDIR ≠ 0 ∧ e.mask &&& IN_CREATE ≠ 0
  · have hcreate : e.isDirCreate = true := decide_eq_true hdir
    have hname := hat.cstr (InotifyEvent.name_ne_nil hcreate)
    rw [Nat.zero_add] at hname
    simp only [if_pos hdir, hname, hcreate, if_true]
  · have hnot : e.isDirCreate = false := decide_eq_false hdir
    simp only [if_neg hdir, hnot, Bool.false_eq_true, if_false]

theorem createdDirs_of_pos (h : b.events = e :: es) (he : e.isDirCreate = true) :
    createdDirs watches b = (dirOf watches e.wd).map (· ++ slash :: e.cname) ::
      (es.filter InotifyEvent.isDirCreate).map fun e =>
        (dirOf watches e.wd).map (· ++ slash :: e.cname) := by
  rw [createdDirs, h, List.filter_cons_of_pos he, List.map_cons]

theorem createdDirs_of_neg (h : b.events = e :: es) (he : ¬e.isDirCreate = true) :
    createdDirs watches b = (es.filter InotifyEvent.isDirCreate).map fun e =>
      (dirOf watches e.wd).map (· ++ slash :: e.cname) := by
  rw [createdDirs, h, List.filter_cons_of_neg he]

/-- No event behind the first is one for a new directory. -/
theorem filter_eq_nil_iff : es.filter InotifyEvent.isDirCreate = [] ↔
    ∀ e ∈ es, e.isDirCreate = false := by
  rw [List.filter_eq_nil_iff]
  simp

/-- For one buffer, the calls are right if and only if the first event tells everything. -/
theorem addsCreated_iff :
    AddsCreated s_watchPointPath watches b ↔ FirstInWatchPoint s_watchPointPath watches b := by
  obtain ⟨e, es, h⟩ := List.exists_cons_of_ne_nil b.nonempty
  have hadds : AddsCreated s_watchPointPath watches b ↔
      (if e.isDirCreate then some (s_watchPointPath ++ slash :: e.cname) else none).toList.map some
        = createdDirs watches b := by
    rw [AddsCreated, dirToAdd_eq h]
    constructor
    · rintro ⟨dir, hdir, heq⟩
      rwa [← Except.ok.inj hdir] at heq
    · intro heq
      exact ⟨_, rfl, heq⟩
  rw [hadds]
  by_cases he : e.isDirCreate = true
  · rw [if_pos he, createdDirs_of_pos h he, Option.toList_some, List.map_singleton,
      List.cons_eq_cons, eq_comm, Option.map_eq_some_iff, eq_comm (a := []), List.map_eq_nil_iff,
      filter_eq_nil_iff]
    constructor
    · rintro ⟨⟨dir, hdir, heq⟩, hrest⟩
      refine ⟨fun e' he' _ => ?_, ?_⟩
      · rw [h] at he'
        cases he'
        rw [hdir, List.append_cancel_right heq]
      · rw [h]
        exact hrest
    · rintro ⟨hwatch, hrest⟩
      rw [h] at hrest
      exact ⟨⟨_, hwatch e (by rw [h]; rfl) he, rfl⟩, hrest⟩
  · rw [if_neg he, createdDirs_of_neg h he, Option.toList_none, List.map_nil, eq_comm,
      List.map_eq_nil_iff, filter_eq_nil_iff]
    constructor
    · intro hrest
      refine ⟨fun e' he' hcreate => ?_, ?_⟩
      · rw [h] at he'
        cases he'
        exact absurd hcreate he
      · rw [h]
        exact hrest
    · rintro ⟨_, hrest⟩
      rwa [h] at hrest

/-! ### Runs -/

theorem dirToAdd_buffer (b : EventBuffer) :
    dirToAdd s_watchPointPath b.eventBuffer = .ok (firstDir s_watchPointPath b) := by
  obtain ⟨e, es, h⟩ := List.exists_cons_of_ne_nil b.nonempty
  rw [dirToAdd_eq h, firstDir, h]
  cases he : e.isDirCreate <;> simp [he]

theorem walkEnds_iff : WalkEnds b ↔ ∃ fuel r, walkEvents fuel b = .ok r := by
  have hreads := (reads_walk b.eventBuffer).ends_inr_iff ⟨b.bytesRead, 0, []⟩
  constructor
  · rintro ⟨ss, st, hpath, hend⟩
    obtain ⟨st', ⟨fuel, hrun⟩, _⟩ := (hreads st).mpr ⟨⟨ss, hpath⟩, hend⟩
    exact ⟨fuel, _, hrun⟩
  · rintro ⟨fuel, ⟨⟨⟩⟩ | st, hrun⟩
    obtain ⟨⟨ss, hpath⟩, hend⟩ := (hreads st).mp ⟨st, ⟨fuel, hrun⟩, rfl⟩
    exact ⟨ss, st, hpath, hend⟩

/-- A turn that the program gets through. -/
theorem listenTurn_cases {fuel : ℕ} {watches' : List Watch} {t : Turn}
    (h : listenTurn s_watchPointPath fuel watches t = .ok (watches', ())) :
    ∃ b r, t.read = some b ∧ walkEvents fuel b = .ok r ∧
      watches' = watches ++ (firstDir s_watchPointPath b).toList.map (⟨·, t.wp⟩) := by
  unfold listenTurn at h
  cases hread : t.read with
  | none =>
    rw [hread] at h
    cases h
  | some b =>
    simp only [hread, dirToAdd_buffer] at h
    split_ifs at h
    cases hwalk : walkEvents fuel b with
    | error f =>
      rw [hwalk] at h
      cases h
    | ok r =>
      rw [hwalk] at h
      exact ⟨b, r, rfl, hwalk, (ok_pair_inj h).1.symm⟩

/-- Where no system call fails, only the walk can stop the program. -/
theorem listenTurn_of_succeeds {fuel : ℕ} {t : Turn} (ht : t.Succeeds)
    (hwalk : ∀ b, t.read = some b → ∃ r, walkEvents fuel b = .ok r) :
    ∃ watches', listenTurn s_watchPointPath fuel watches t = .ok (watches', ()) := by
  obtain ⟨hread, hwp⟩ := ht
  obtain ⟨b, hb⟩ := Option.ne_none_iff_exists'.mp hread
  obtain ⟨r, hr⟩ := hwalk b hb
  have hok : ¬((firstDir s_watchPointPath b).isSome = true ∧ t.wp < 0) :=
    fun h => absurd h.2 (Int.not_lt.mpr hwp)
  refine ⟨watches ++ (firstDir s_watchPointPath b).toList.map (⟨·, t.wp⟩), ?_⟩
  unfold listenTurn
  simp only [hb, dirToAdd_buffer, if_neg hok, hr]

section Run

variable {wpFd : ℤ} {fuel : ℕ} {turns : List Turn} {outs : List Unit}

theorem watches_of_run
    (h : listen2Events s_watchPointPath wpFd fuel turns = .ok (watches, outs)) :
    watches = watchesAfter s_watchPointPath wpFd turns := by
  refine exec_invariant (fun pre watches => watches = watchesAfter s_watchPointPath wpFd pre)
    ?_ rfl h
  rintro pre _ t watches' ⟨⟩ rfl hturn
  obtain ⟨b, _, hread, _, rfl⟩ := listenTurn_cases hturn
  simp only [watchesAfter, List.flatMap_append, List.flatMap_singleton, hread, Option.bind_some,
    List.cons_append]

/-- The walks through all buffers that were read came to their ends. -/
theorem walkEnds_of_run
    (h : listen2Events s_watchPointPath wpFd fuel turns = .ok (watches, outs)) {t : Turn}
    (ht : t ∈ turns) (hread : t.read = some b) : WalkEnds b := by
  obtain ⟨watches', ⟨watches'', ⟨⟩⟩, hturn⟩ := exists_step_of_mem h ht
  obtain ⟨b', r, hread', hwalk, _⟩ := listenTurn_cases hturn
  obtain rfl := Option.some.inj (hread.symm.trans hread')
  exact walkEnds_iff.mpr ⟨fuel, r, hwalk⟩

/-- There is fuel enough for all walks of a run. -/
theorem exists_fuel (h : ∀ t ∈ turns, ∀ b, t.read = some b → WalkEnds b) :
    ∃ fuel, ∀ t ∈ turns, ∀ b, t.read = some b → ∃ r, walkEvents fuel b = .ok r := by
  induction turns with
  | nil => exact ⟨0, nofun⟩
  | cons t turns ih =>
    obtain ⟨n, hn⟩ := ih fun u hu => h u (List.mem_cons_of_mem t hu)
    obtain ⟨m, hm⟩ : ∃ m, ∀ b, t.read = some b → ∃ r, walkEvents m b = .ok r := by
      cases hread : t.read with
      | none => exact ⟨0, nofun⟩
      | some b =>
        obtain ⟨m, r, hwalk⟩ := walkEnds_iff.mp (h t List.mem_cons_self b hread)
        exact ⟨m, fun b' hb' => Option.some.inj hb' ▸ ⟨r, hwalk⟩⟩
    refine ⟨max m n, fun u hu b hread => ?_⟩
    rcases List.mem_cons.mp hu with rfl | hu
    · obtain ⟨r, hwalk⟩ := hm b hread
      exact ⟨r, whileLoop_mono hwalk (Nat.le_max_left m n)⟩
    · obtain ⟨r, hwalk⟩ := hn u hu b hread
      exact ⟨r, whileLoop_mono hwalk (Nat.le_max_right m n)⟩

theorem exists_run (hsucc : ∀ t ∈ turns, t.Succeeds)
    (hwalks : ∀ t ∈ turns, ∀ b, t.read = some b → WalkEnds b) :
    ∃ fuel watches outs, listen2Events s_watchPointPath wpFd fuel turns = .ok (watches, outs) := by
  obtain ⟨fuel, hfuel⟩ := exists_fuel hwalks
  have hrun : ∃ watches outs, exec (listenTurn s_watchPointPath fuel) [⟨s_watchPointPath, wpFd⟩]
      turns = .ok (watches, outs) ∧ True := by
    refine exec_progress (fun _ _ _ => True) ?_ trivial
    intro pre t post _ watches hturns _
    have hmem : t ∈ turns := hturns ▸ List.mem_append_right _ List.mem_cons_self
    obtain ⟨watches', hturn⟩ := listenTurn_of_succeeds (hsucc t hmem) (hfuel t hmem)
    exact ⟨watches', (), hturn, trivial⟩
  obtain ⟨watches, outs, hrun, _⟩ := hrun
  exact ⟨fuel, watches, outs, hrun⟩

theorem watchesCreated_of_first (h : FirstTellsAll s_watchPointPath wpFd turns) :
    WatchesCreated s_watchPointPath wpFd turns := by
  intro pre t post b hturns hread hsucc
  obtain ⟨hwalks, hfirst⟩ := h pre t post b hturns hread hsucc
  obtain ⟨fuel, watches, outs, hrun⟩ := exists_run hsucc hwalks
  refine ⟨fuel, watches, outs, hrun, addsCreated_iff.mpr ?_⟩
  rw [watches_of_run hrun]
  exact hfirst

/-- **Which runs watch every new directory.** -/
theorem watchesCreated_iff : WatchesCreated s_watchPointPath wpFd turns ↔
    FirstTellsAll s_watchPointPath wpFd turns := by
  refine ⟨fun h pre t post b hturns hread hsucc => ?_, watchesCreated_of_first⟩
  obtain ⟨fuel, watches, outs, hrun, hadds⟩ := h pre t post b hturns hread hsucc
  have hfirst := addsCreated_iff.mp hadds
  rw [watches_of_run hrun] at hfirst
  exact ⟨fun u hu b' hread' => walkEnds_of_run hrun hu hread', hfirst⟩

end Run

/-- As long as its descriptor is not given out again, the watch point is what it stands for. -/
theorem dirOf_wpFd {wpFd : UInt32} {turns : List Turn}
    (hwp : ∀ t ∈ turns, t.wp ≠ (wpFd.toNat : ℤ)) :
    dirOf (watchesAfter s_watchPointPath wpFd.toNat turns) wpFd = some s_watchPointPath := by
  have hnone : (turns.flatMap fun t => (t.read.bind (firstDir s_watchPointPath)).toList.map
      (⟨·, t.wp⟩ : Path → Watch)).reverse.find? (fun w => w.wp = (wpFd.toNat : ℤ)) = none := by
    rw [List.find?_eq_none]
    intro w hw
    obtain ⟨t, ht, hw⟩ := List.mem_flatMap.mp (List.mem_reverse.mp hw)
    obtain ⟨dir, _, rfl⟩ := List.mem_map.mp hw
    simpa using hwp t ht
  rw [dirOf, watchesAfter, List.reverse_cons, List.find?_append, hnone, Option.none_or,
    List.find?_cons_of_pos (by simp)]
  rfl

/-- One level of directories: where every buffer has one event, of a new directory in the watch
point, all of them are watched. -/
theorem watchesCreated_of_oneLevel {wpFd : UInt32} {turns : List Turn}
    (hwp : ∀ t ∈ turns, t.wp ≠ (wpFd.toNat : ℤ))
    (hone : ∀ t ∈ turns, ∀ b, t.read = some b →
      ∃ e, b.events = [e] ∧ e.isDirCreate = true ∧ e.wd = wpFd) :
    WatchesCreated s_watchPointPath wpFd.toNat turns := by
  refine watchesCreated_of_first fun pre t post b hturns hread _ => ⟨fun u hu b' hread' => ?_, ?_⟩
  · obtain ⟨e, hevents, hcreate, _⟩ :=
      hone u (hturns ▸ List.mem_append_left _ hu) b' hread'
    obtain ⟨fuel, st, hwalk, _⟩ :=
      (walksInOrder_one hevents).mpr (InotifyEvent.name_ne_nil hcreate)
    exact walkEnds_iff.mpr ⟨fuel, _, hwalk⟩
  · obtain ⟨e, hevents, _, hwd⟩ :=
      hone t (hturns ▸ List.mem_append_right _ List.mem_cons_self) b hread
    have hpre : ∀ u ∈ pre, u.wp ≠ (wpFd.toNat : ℤ) :=
      fun u hu => hwp u (hturns ▸ List.mem_append_left _ hu)
    refine ⟨fun e' he' _ => ?_, fun e' he' => ?_⟩
    · rw [hevents] at he'
      obtain rfl := Option.some.inj he'
      rw [hwd]
      exact dirOf_wpFd hpre
    · rw [hevents] at he'
      cases he'

/-! ### A buffer with two new directories -/

/-- The directory whose name is the letter `c`. -/
def newDir (c : UInt8) : InotifyEvent where
  wd := 1
  mask := IN_ISDIR ||| IN_CREATE
  cookie := 0
  name := [c, 0]
  terminated _ := List.mem_cons_of_mem _ List.mem_cons_self
  named _ := List.cons_ne_nil _ _

/-- `a` and `b` -/
def twoDirs : EventBuffer := bufferOf [newDir 0x61, newDir 0x62] (List.cons_ne_nil _ _) (by decide)

/-- The directory whose name is the letter `c`, in a buffer of its own. -/
def oneDir (c : UInt8) : EventBuffer :=
  bufferOf [newDir c] (List.cons_ne_nil _ _) (show 18 ≤ EVENT_BUFFER_SZ by decide)

/-- `a` and `b`, one after the other. -/
theorem watchesCreated_oneDirEach :
    WatchesCreated [0x77] 1 [⟨some (oneDir 0x61), 2⟩, ⟨some (oneDir 0x62), 3⟩] := by
  have hwp : ∀ t ∈ [⟨some (oneDir 0x61), 2⟩, (⟨some (oneDir 0x62), 3⟩ : Turn)],
      t.wp ≠ ((1 : UInt32).toNat : ℤ) := by simp
  refine watchesCreated_of_oneLevel hwp ?_
  intro t ht b hread
  rcases List.mem_pair.mp ht with rfl | rfl
  · cases hread
    exact ⟨newDir 0x61, rfl, by decide, rfl⟩
  · cases hread
    exact ⟨newDir 0x62, rfl, by decide, rfl⟩

/-- The second of two new directories in one buffer is not watched; in two buffers, both are. -/
theorem not_watchesCreated_twoDirs :
    WatchesCreated [0x77] 1 [⟨some (oneDir 0x61), 2⟩, ⟨some (oneDir 0x62), 3⟩] ∧
      dirToAdd [0x77] twoDirs.eventBuffer = .ok (some [0x77, slash, 0x61]) ∧
      ¬WatchesCreated [0x77] 1 [⟨some twoDirs, 2⟩] := by
  have hdir : dirToAdd [0x77] twoDirs.eventBuffer = .ok (some [0x77, slash, 0x61]) :=
    dirToAdd_eq (b := twoDirs) rfl
  refine ⟨watchesCreated_oneDirEach, hdir, fun h => ?_⟩
  obtain ⟨_, _, _, hrun, dir, hdir', heq⟩ := h [] ⟨some twoDirs, 2⟩ [] twoDirs rfl rfl (by simp)
  obtain rfl := watches_of_run hrun
  rw [hdir] at hdir'
  obtain rfl := Except.ok.inj hdir'
  exact absurd (congrArg List.length heq) (by decide)

end Lab1.Inotify
