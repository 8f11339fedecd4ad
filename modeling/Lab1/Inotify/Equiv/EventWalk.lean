import Lab1.Inotify.InotifyTest
import Lab1.Library.Walk

/-!
# The walk through the events

Where an event stands, its fields are read (`EventAt`).  The walk goes on behind the first event at
the offset that is the number of bytes left (`path_cons`).  This is the next event only if what is
left is as long as what was passed, and after a second event there is none that could come next: so
the walk is right for one event, and for two of the same size (`walksInOrder_iff`).
-/

namespace Lab1.Inotify

/-! ### The property -/

/-- Where the events start. -/
def EventBuffer.offsets (b : EventBuffer) : List ℕ :=
  walk InotifyEvent.size (fun _ p => p) b.events 0

/-- The walk ends, it has come to each event once and in order, and all that was read of an event,
up to the NUL behind the name, is among the bytes that `read` returned. -/
def WalksInOrder (b : EventBuffer) : Prop :=
  ∃ fuel st, walkEvents fuel b = .ok (.inr st) ∧ st.shown.map Shown.pos = b.offsets ∧
    ∀ s ∈ st.shown, s.pos + EVENT_SIZE + s.name.length + 1 ≤ b.bytesRead

/-- There is one event, with a name, or there are two whose names have the same length. -/
def OneOrTwins (b : EventBuffer) : Prop :=
  ∃ e, e.name ≠ [] ∧
    (b.events = [e] ∨ ∃ e', b.events = [e', e] ∧ e'.name.length = e.name.length)

/-! ### An event in memory -/

theorem InotifyEvent.length_bytes (e : InotifyEvent) : e.bytes.length = e.size := by
  simp only [bytes, size, List.length_append, length_wordBytes, EVENT_SIZE]
  omega

/-- The name without what is behind its first NUL. -/
def InotifyEvent.cname (e : InotifyEvent) : List UInt8 := e.name.takeWhile (· ≠ 0)

theorem InotifyEvent.exists_name_eq (e : InotifyEvent) (h : e.name ≠ []) :
    0 ∉ e.cname ∧ ∃ rest, e.name = e.cname ++ 0 :: rest := by
  obtain ⟨chars, rest, hname, hchars⟩ := List.eq_append_cons_of_mem (e.terminated h)
  have hcname : e.cname = chars := by
    rw [cname, hname, List.takeWhile_append_of_pos, List.takeWhile_cons_of_neg, List.append_nil]
    · simp
    · intro c hc
      exact decide_eq_true (ne_of_mem_of_not_mem hc hchars)
  rw [hcname]
  exact ⟨hchars, rest, hname⟩

/-- The event stands at `p`, inside of the array. -/
structure EventAt (m : Mem) (p : ℕ) (e : InotifyEvent) : Prop where
  holds : m.read p e.bytes.length = e.bytes
  fits : p + e.size ≤ EVENT_BUFFER_SZ

section EventAt

variable {m : Mem} {p : ℕ} {e : InotifyEvent}

/-- The five parts of an event. -/
theorem EventAt.parts (h : EventAt m p e) :
    m.read p 4 = wordBytes e.wd.toNat ∧ m.read (p + 4) 4 = wordBytes e.mask.toNat ∧
      m.read (p + 8) 4 = wordBytes e.cookie.toNat ∧
      m.read (p + 12) 4 = wordBytes e.name.length ∧ m.read (p + 16) e.name.length = e.name := by
  obtain ⟨hwd, h⟩ := (m.read_append_iff p).mp h.holds
  obtain ⟨hmask, h⟩ := (m.read_append_iff _).mp h
  obtain ⟨hcookie, h⟩ := (m.read_append_iff _).mp h
  obtain ⟨hlen, hname⟩ := (m.read_append_iff _).mp h
  exact ⟨hwd, hmask, hcookie, hlen, hname⟩

theorem EventAt.length_lt (h : EventAt m p e) : e.name.length < 4294967296 := by
  have hfits := h.fits
  have hmax : EVENT_BUFFER_SZ = 278528 := rfl
  unfold InotifyEvent.size at hfits
  omega

theorem EventAt.mask (h : EventAt m p e) : UInt32.ofNat (m.word (p + 4)) = e.mask := by
  rw [Mem.word_of_read e.mask.toNat_lt h.parts.2.1, UInt32.ofNat_toNat]

theorem EventAt.len (h : EventAt m p e) : m.word (p + 12) = e.name.length :=
  Mem.word_of_read h.length_lt h.parts.2.2.2.1

theorem EventAt.fullEventSz (h : EventAt m p e) : fullEventSz e.name.length = e.size := by
  have hfits := h.fits
  have hmax : EVENT_BUFFER_SZ = 278528 := rfl
  have hsize : EVENT_SIZE + e.name.length = e.size := rfl
  unfold Inotify.fullEventSz
  rw [hsize]
  exact Int.bmod_eq_of_le (by omega) (by omega)

/-- The name is found where it is. -/
theorem EventAt.cstr (h : EventAt m p e) (hname : e.name ≠ []) :
    m.cstr (p + EVENT_SIZE) (EVENT_BUFFER_SZ - (p + EVENT_SIZE)) = some e.cname := by
  obtain ⟨hcname, rest, heq⟩ := e.exists_name_eq hname
  have hfits := h.fits
  have hread := h.parts.2.2.2.2
  have hlen := congrArg List.length heq
  rw [List.length_append, List.length_cons] at hlen
  unfold InotifyEvent.size at hfits
  refine Mem.cstr_eq_some_iff.mpr ⟨by omega, hcname, ?_⟩
  have htake := m.take_read (p + 16) (k := e.cname.length + 1) (n := e.name.length) (by omega)
  rw [hread, heq, List.append_cons, List.take_left' (by simp)] at htake
  exact htake.symm

/-- Some events, one behind the other from `p` on, inside of the array. -/
structure Packed (m : Mem) (p : ℕ) (es : List InotifyEvent) : Prop where
  holds : m.read p (es.flatMap InotifyEvent.bytes).length = es.flatMap InotifyEvent.bytes
  fits : p + (es.flatMap InotifyEvent.bytes).length ≤ EVENT_BUFFER_SZ

theorem Packed.cons {es : List InotifyEvent} (h : Packed m p (e :: es)) :
    EventAt m p e ∧ Packed m (p + e.size) es := by
  have hfits := h.fits
  rw [List.flatMap_cons, List.length_append, e.length_bytes] at hfits
  obtain ⟨hfirst, hrest⟩ := (m.read_append_iff p).mp h.holds
  rw [e.length_bytes] at hrest
  exact ⟨⟨hfirst, by omega⟩, ⟨hrest, by omega⟩⟩

theorem EventBuffer.packed (b : EventBuffer) : Packed b.eventBuffer 0 b.events :=
  ⟨b.holds, by rw [Nat.zero_add]; exact b.fits⟩

theorem printEvent_eq_ok {s : Shown} : printEvent m p = .ok s ↔
    p + EVENT_SIZE ≤ EVENT_BUFFER_SZ ∧
      ∃ name, m.cstr (p + EVENT_SIZE) (EVENT_BUFFER_SZ - (p + EVENT_SIZE)) = some name ∧
        s = ⟨p, m.word p, m.word (p + 4), m.word (p + 8), m.word (p + 12), name⟩ := by
  rw [printEvent, bind_eq_ok]
  constructor
  · rintro ⟨_, hreq, hshow⟩
    refine ⟨require_eq_ok.mp hreq, ?_⟩
    cases hname : m.cstr (p + EVENT_SIZE) (EVENT_BUFFER_SZ - (p + EVENT_SIZE)) with
    | none =>
      rw [hname] at hshow
      cases hshow
    | some name =>
      rw [hname] at hshow
      exact ⟨name, rfl, (Except.ok.inj hshow).symm⟩
  · rintro ⟨hreq, name, hname, rfl⟩
    refine ⟨(), require_eq_ok.mpr hreq, ?_⟩
    rw [hname]
    rfl

end EventAt

/-! ### The walk -/

/-- What the loop reads, with the whole state as the place. -/
def walkGrammar (m : Mem) : Grammar WalkState Shown where
  More st := 0 < st.bytesRead
  Item st s := 0 ≤ st.pevent ∧ printEvent m st.pevent.toNat = .ok s ∧
    st.bytesRead - fullEventSz s.len ≤ intMax
  next st s :=
    ⟨st.bytesRead - fullEventSz s.len, st.bytesRead - fullEventSz s.len, st.shown ++ [s]⟩
  Stop _ := False

theorem walkBody_eq_ok {m : Mem} {st : WalkState} {r : Empty ⊕ WalkState} :
    walkBody m st = .ok r ↔
      ∃ s, (walkGrammar m).Item st s ∧ r = .inr ((walkGrammar m).next st s) := by
  rw [walkBody, bind_eq_ok]
  constructor
  · rintro ⟨_, hpos, h⟩
    obtain ⟨s, hs, h⟩ := bind_eq_ok.mp h
    obtain ⟨_, hmax, h⟩ := bind_eq_ok.mp h
    exact ⟨s, ⟨require_eq_ok.mp hpos, hs, require_eq_ok.mp hmax⟩, (Except.ok.inj h).symm⟩
  · rintro ⟨s, ⟨hpos, hs, hmax⟩, rfl⟩
    refine ⟨(), require_eq_ok.mpr hpos, bind_eq_ok.mpr ⟨s, hs, ?_⟩⟩
    exact bind_eq_ok.mpr ⟨(), require_eq_ok.mpr hmax, rfl⟩

theorem reads_walk (m : Mem) : Reads (walkGrammar m) id moreBytes (walkBody m) := by
  refine Reads.of_cases (fun st => decide_eq_true_iff) ?_ (fun _ => False.elim) ?_
  · intro st r hr
    obtain ⟨s, hs, rfl⟩ := walkBody_eq_ok.mp hr
    exact Or.inr ⟨s, _, rfl, hs, rfl⟩
  · intro st s hs
    exact ⟨_, walkBody_eq_ok.mpr ⟨s, hs, rfl⟩, rfl⟩

/-- Every event that the walk comes to is added to the list. -/
theorem shown_of_path {m : Mem} {ss : List Shown} {st st' : WalkState}
    (h : (walkGrammar m).Path ss st st') : st'.shown = st.shown ++ ss := by
  induction ss generalizing st with
  | nil =>
    obtain rfl : st = st' := h
    exact (List.append_nil _).symm
  | cons s ss ih =>
    obtain ⟨_, _, hrest⟩ := h
    rw [ih hrest]
    show st.shown ++ [s] ++ ss = _
    rw [List.append_assoc]
    rfl

/-- The property in terms of the events that the walk comes to. -/
theorem walksInOrder_iff_path {b : EventBuffer} : WalksInOrder b ↔
    ∃ ss st, (walkGrammar b.eventBuffer).Path ss ⟨b.bytesRead, 0, []⟩ st ∧ ¬0 < st.bytesRead ∧
      ss.map Shown.pos = b.offsets ∧
      ∀ s ∈ ss, s.pos + EVENT_SIZE + s.name.length + 1 ≤ b.bytesRead := by
  have hreads := (reads_walk b.eventBuffer).ends_inr_iff ⟨b.bytesRead, 0, []⟩
  constructor
  · rintro ⟨fuel, st, hrun, hpos, hinside⟩
    obtain ⟨⟨ss, hpath⟩, hend⟩ := (hreads st).mp ⟨st, ⟨fuel, hrun⟩, rfl⟩
    rw [shown_of_path hpath] at hpos hinside
    exact ⟨ss, st, hpath, hend, hpos, hinside⟩
  · rintro ⟨ss, st, hpath, hend, hpos, hinside⟩
    obtain ⟨st', ⟨fuel, hrun⟩, hst⟩ := (hreads st).mpr ⟨⟨ss, hpath⟩, hend⟩
    obtain rfl : st' = st := hst
    have hshown : st'.shown = ss := shown_of_path hpath
    rw [← hshown] at hpos hinside
    exact ⟨fuel, st', hrun, hpos, hinside⟩

/-- A turn at an event, and where the walk goes on. -/
theorem path_cons {m : Mem} {p : ℕ} {e : InotifyEvent} (h : EventAt m p e) {s : Shown}
    {ss : List Shown} {n : ℤ} {shown : List Shown} {st : WalkState} :
    (walkGrammar m).Path (s :: ss) ⟨n, p, shown⟩ st ↔
      0 < n ∧ printEvent m p = .ok s ∧ n - e.size ≤ intMax ∧
        (walkGrammar m).Path ss ⟨n - e.size, n - e.size, shown ++ [s]⟩ st := by
  have hsize : ∀ s, printEvent m p = .ok s → fullEventSz s.len = e.size := by
    intro s hs
    obtain ⟨_, name, _, rfl⟩ := printEvent_eq_ok.mp hs
    show fullEventSz (m.word (p + 12)) = _
    rw [h.len, h.fullEventSz]
  constructor
  · rintro ⟨hmore, ⟨_, hs, hmax⟩, hrest⟩
    have hs : printEvent m p = .ok s := hs
    rw [hsize s hs] at hmax
    refine ⟨hmore, hs, hmax, ?_⟩
    rw [← hsize s hs]
    exact hrest
  · rintro ⟨hmore, hs, hmax, hrest⟩
    rw [← hsize s hs] at hmax hrest
    exact ⟨hmore, ⟨Int.natCast_nonneg p, hs, hmax⟩, hrest⟩

/-- What the first event of a walk says about the state. -/
theorem pos_of_path {m : Mem} {s : Shown} {ss : List Shown} {st st' : WalkState}
    (h : (walkGrammar m).Path (s :: ss) st st') : 0 ≤ st.pevent ∧ s.pos = st.pevent.toNat := by
  obtain ⟨_, ⟨hpos, hs, _⟩, _⟩ := h
  obtain ⟨_, name, _, rfl⟩ := printEvent_eq_ok.mp hs
  exact ⟨hpos, rfl⟩

/-- An event with a name is shown, and nothing behind it is read. -/
theorem EventAt.print {m : Mem} {p : ℕ} {e : InotifyEvent} (h : EventAt m p e)
    (hname : e.name ≠ []) :
    ∃ s, printEvent m p = .ok s ∧ s.pos = p ∧
      s.pos + EVENT_SIZE + s.name.length + 1 ≤ p + e.size := by
  have hfits := h.fits
  have hsize : e.size = EVENT_SIZE + e.name.length := rfl
  obtain ⟨_, rest, heq⟩ := e.exists_name_eq hname
  have hlen := congrArg List.length heq
  rw [List.length_append, List.length_cons] at hlen
  refine ⟨_, printEvent_eq_ok.mpr ⟨by omega, e.cname, h.cstr hname, rfl⟩, rfl, ?_⟩
  show p + EVENT_SIZE + e.cname.length + 1 ≤ p + e.size
  omega

/-! ### Which buffers are walked through -/

section Buffer

variable {b : EventBuffer} {e e₁ e₂ e₃ : InotifyEvent} {rest : List InotifyEvent}

/-- With a single event the walk is over after one turn. -/
theorem walksInOrder_one (h : b.events = [e]) : WalksInOrder b ↔ e.name ≠ [] := by
  have hpacked := b.packed
  have hread : b.bytesRead = e.size := by
    rw [EventBuffer.bytesRead, h, List.flatMap_singleton, e.length_bytes]
  have hoffsets : b.offsets = [0] := by
    rw [EventBuffer.offsets, h]
    rfl
  rw [h] at hpacked
  obtain ⟨hat, _⟩ := hpacked.cons
  have hfits := hat.fits
  have hmax : EVENT_BUFFER_SZ = 278528 := rfl
  have hsize : e.size = EVENT_SIZE + e.name.length := rfl
  have hevent : EVENT_SIZE = 16 := rfl
  have hint : intMax = 2147483647 := rfl
  rw [walksInOrder_iff_path, hoffsets, hread]
  constructor
  · rintro ⟨ss, st, _, _, hpos, hinside⟩ hnil
    obtain ⟨s, rfl, hs⟩ := List.map_eq_singleton_iff.mp hpos
    have hle := hinside s List.mem_cons_self
    rw [hnil, List.length_nil] at hsize
    omega
  · intro hname
    obtain ⟨s, hs, hpos, hinside⟩ := hat.print hname
    refine ⟨[s], _, (path_cons hat).mpr ⟨by omega, hs, by omega, rfl⟩, ?_, ?_, ?_⟩
    · show ¬0 < (e.size : ℤ) - e.size
      omega
    · rw [List.map_singleton, hpos]
    · rw [Nat.zero_add] at hinside
      exact List.forall_mem_singleton.mpr hinside

/-- With two events the second is found if it is as long as the first. -/
theorem walksInOrder_two (h : b.events = [e₁, e₂]) :
    WalksInOrder b ↔ e₁.name.length = e₂.name.length ∧ e₂.name ≠ [] := by
  have hpacked := b.packed
  have hread : b.bytesRead = e₁.size + e₂.size := by
    rw [EventBuffer.bytesRead, h, List.flatMap_cons, List.flatMap_singleton, List.length_append,
      e₁.length_bytes, e₂.length_bytes]
  have hoffsets : b.offsets = [0, e₁.size] := by
    rw [EventBuffer.offsets, h]
    show [0, 0 + e₁.size] = _
    rw [Nat.zero_add]
  rw [h] at hpacked
  obtain ⟨hat₁, hpacked⟩ := hpacked.cons
  obtain ⟨hat₂, _⟩ := hpacked.cons
  rw [Nat.zero_add] at hat₂
  have hfits := hat₂.fits
  have hmax : EVENT_BUFFER_SZ = 278528 := rfl
  have hsize₁ : e₁.size = EVENT_SIZE + e₁.name.length := rfl
  have hsize₂ : e₂.size = EVENT_SIZE + e₂.name.length := rfl
  have hevent : EVENT_SIZE = 16 := rfl
  have hint : intMax = 2147483647 := rfl
  rw [walksInOrder_iff_path, hoffsets, hread]
  constructor
  · rintro ⟨ss, st, hpath, _, hpos, hinside⟩
    obtain ⟨s₁, ss, rfl, _, hpos⟩ := List.map_eq_cons_iff.mp hpos
    obtain ⟨s₂, rfl, hs₂⟩ := List.map_eq_singleton_iff.mp hpos
    obtain ⟨_, _, _, hpath⟩ := (path_cons hat₁).mp hpath
    -- the walk goes on at the number of bytes left
    obtain ⟨_, hnext⟩ := pos_of_path hpath
    have hnext : s₂.pos = ((e₁.size + e₂.size : ℕ) - (e₁.size : ℤ)).toNat := hnext
    have hle := hinside s₂ (List.mem_cons_of_mem _ List.mem_cons_self)
    refine ⟨by omega, fun hnil => ?_⟩
    rw [hnil, List.length_nil] at hsize₂
    omega
  · rintro ⟨hsame, hname⟩
    have hname₁ : e₁.name ≠ [] := by
      rw [← List.length_pos_iff, hsame, List.length_pos_iff]
      exact hname
    obtain ⟨s₁, hs₁, hpos₁, hinside₁⟩ := hat₁.print hname₁
    obtain ⟨s₂, hs₂, hpos₂, hinside₂⟩ := hat₂.print hname
    have hleft : ((e₁.size + e₂.size : ℕ) : ℤ) - e₁.size = e₁.size := by omega
    refine ⟨[s₁, s₂], ⟨(e₁.size : ℤ) - e₂.size, (e₁.size : ℤ) - e₂.size, [s₁, s₂]⟩,
      (path_cons hat₁).mpr ⟨by omega, hs₁, by omega, ?_⟩, ?_, ?_, ?_⟩
    · rw [hleft]
      exact (path_cons hat₂).mpr ⟨by omega, hs₂, by omega, rfl⟩
    · show ¬0 < (e₁.size : ℤ) - e₂.size
      omega
    · rw [List.map_cons, List.map_singleton, hpos₁, hpos₂]
    · rw [List.forall_mem_cons, List.forall_mem_singleton]
      omega

/-- Behind a second event, the walk has no way to a third. -/
theorem not_walksInOrder_three (h : b.events = e₁ :: e₂ :: e₃ :: rest) : ¬WalksInOrder b := by
  have hpacked := b.packed
  have hoffsets : b.offsets = 0 :: e₁.size :: (e₁.size + e₂.size) ::
      walk InotifyEvent.size (fun _ p => p) rest (e₁.size + e₂.size + e₃.size) := by
    rw [EventBuffer.offsets, h]
    simp only [walk, Nat.zero_add]
  rw [h] at hpacked
  obtain ⟨hat₁, hpacked⟩ := hpacked.cons
  obtain ⟨hat₂, _⟩ := hpacked.cons
  rw [Nat.zero_add] at hat₂
  have hsize₂ : e₂.size = EVENT_SIZE + e₂.name.length := rfl
  have hevent : EVENT_SIZE = 16 := rfl
  rw [walksInOrder_iff_path, hoffsets]
  rintro ⟨ss, st, hpath, _, hpos, _⟩
  obtain ⟨s₁, ss, rfl, _, hpos⟩ := List.map_eq_cons_iff.mp hpos
  obtain ⟨s₂, ss, rfl, hs₂, hpos⟩ := List.map_eq_cons_iff.mp hpos
  obtain ⟨s₃, ss, rfl, hs₃, _⟩ := List.map_eq_cons_iff.mp hpos
  obtain ⟨_, _, _, hpath⟩ := (path_cons hat₁).mp hpath
  obtain ⟨hnn₂, hnext₂⟩ := pos_of_path hpath
  have hnext₂ : s₂.pos = ((b.bytesRead : ℤ) - e₁.size).toNat := hnext₂
  have hnn₂ : 0 ≤ (b.bytesRead : ℤ) - e₁.size := hnn₂
  have hleft : (b.bytesRead : ℤ) - e₁.size = e₁.size := by omega
  rw [hleft] at hpath
  obtain ⟨_, _, _, hpath⟩ := (path_cons hat₂).mp hpath
  obtain ⟨hnn₃, hnext₃⟩ := pos_of_path hpath
  have hnext₃ : s₃.pos = ((e₁.size : ℤ) - e₂.size).toNat := hnext₃
  omega

end Buffer

/-- **Which walks are right.** -/
theorem walksInOrder_iff (b : EventBuffer) : WalksInOrder b ↔ OneOrTwins b := by
  unfold OneOrTwins
  match hevents : b.events with
  | [] => exact absurd hevents b.nonempty
  | [e] =>
    rw [walksInOrder_one hevents]
    constructor
    · intro hname
      exact ⟨e, hname, Or.inl rfl⟩
    · rintro ⟨e', hname, heq | ⟨_, heq, _⟩⟩
      · cases heq
        exact hname
      · cases heq
  | [e₁, e₂] =>
    rw [walksInOrder_two hevents]
    constructor
    · rintro ⟨hsame, hname⟩
      exact ⟨e₂, hname, Or.inr ⟨e₁, rfl, hsame⟩⟩
    · rintro ⟨e', hname, heq | ⟨_, heq, hsame⟩⟩
      · cases heq
      · cases heq
        exact ⟨hsame, hname⟩
  | e₁ :: e₂ :: e₃ :: rest =>
    refine iff_of_false (not_walksInOrder_three hevents) ?_
    rintro ⟨e', _, heq | ⟨_, heq, _⟩⟩
    · cases heq
    · cases heq

/-! ### Two files of different names -/

/-- A buffer with zeros behind the events. -/
def bufferOf (events : List InotifyEvent) (nonempty : events ≠ [])
    (fits : (events.flatMap InotifyEvent.bytes).length ≤ EVENT_BUFFER_SZ) : EventBuffer where
  eventBuffer := Mem.ofList (events.flatMap InotifyEvent.bytes)
  events := events
  nonempty := nonempty
  fits := fits
  holds := by rw [Mem.read_ofList (Nat.le_refl _), List.take_length]

/-- The name is `n` times the letter `a`, with NULs up to `n + pad`. -/
def newFile (n pad : ℕ) (h : 0 < pad) : InotifyEvent where
  wd := 1
  mask := IN_CREATE
  cookie := 0
  name := List.replicate n 0x61 ++ List.replicate pad 0
  terminated _ := List.mem_append_right _ (List.mem_replicate.mpr ⟨h.ne', rfl⟩)
  named _ hnil := h.ne' (List.replicate_eq_nil_iff _ |>.mp (List.append_eq_nil_iff.mp hnil).2)

def twoFiles : EventBuffer :=
  bufferOf [newFile 1 15 (by decide), newFile 20 12 (by decide)] (List.cons_ne_nil _ _) (by decide)

/-- The second event starts at 32, and the walk goes on at 48. -/
theorem not_walksInOrder_twoFiles : twoFiles.offsets = [0, 32] ∧ twoFiles.bytesRead - 32 = 48 ∧
    ¬WalksInOrder twoFiles := by
  refine ⟨by decide, by decide, fun h => ?_⟩
  have hsame := (walksInOrder_two rfl).mp h
  exact absurd hsame.1 (by decide)

end Lab1.Inotify
