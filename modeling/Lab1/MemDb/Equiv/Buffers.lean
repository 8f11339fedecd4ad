import Lab1.MemDb.Equiv.Builds

/-!
# `BufferSz` as a value

What construction, `init`, copy construction and assignment should give is a `BufferSz` that holds
the given bytes and no others.  With assertions, construction and `init` never get past their first
one, and the assignment of an empty buffer does not get past `assert(... && sz)`.  Without them,
nothing ever sets `sz` in `init`, and `memcpy` is not called in the assignment.  The copy
constructor copies nothing in either build.

`behavesAsValue_iff` says what has to be there before for the result to be right all the same.
-/

namespace Lab1.MemDb

/-! ### The property -/

/-- The bytes the object should hold afterwards. -/
def BufferOp.value (old : BufferSz) : BufferOp → List UInt8
  | .construct src n => src.read 0 n
  | .init src n => src.read 0 n
  | .copy x => x.bytes
  | .assign x => x.bytes
  | .assignSelf => old.bytes

/-- The operation succeeds, and the object holds the bytes it should. -/
def BehavesAsValue (b : Build) (old : BufferSz) (op : BufferOp) : Prop :=
  ∃ r, op.run b old = .ok r ∧ r.sz = (op.value old).length ∧ r.bytes = op.value old

/-- The memory starts with a text that ends within the array. -/
def HasNul (src : Mem) : Prop := ∃ i < bufferCap, src i = 0

/-- Where the operation does what it should: the assignment with assertions if there is anything to
copy, the others if the memory holds the right number, or the right bytes, before. -/
def BufferOp.Lucky (b : Build) (old : BufferSz) : BufferOp → Prop
  | .construct src n => b = .ndebug ∧ old.sz = n ∧ (n = 0 → HasNul src)
  | .init src n => b = .ndebug ∧ old.sz = n ∧ (n = 0 → HasNul src)
  | .copy x => old.bytes = x.bytes
  | .assign x =>
    match b with
    | .debug => x.sz ≠ 0
    | .ndebug => old.buff.read 0 x.sz = x.bytes
  | .assignSelf => True

/-! ### Construction -/

theorem strcpyBuff_isOk_iff {dst src : Mem} : (∃ m, strcpyBuff dst src = .ok m) ↔ HasNul src := by
  unfold strcpyBuff HasNul
  cases hfind : (List.range bufferCap).find? fun i => src i = 0 with
  | some len =>
    refine iff_of_true ⟨_, rfl⟩ ⟨len, ?_, ?_⟩
    · exact List.mem_range.mp (List.mem_of_find?_eq_some hfind)
    · simpa using List.find?_some hfind
  | none =>
    refine iff_of_false nofun ?_
    rintro ⟨i, hlt, hzero⟩
    exact List.find?_eq_none.mp hfind i (List.mem_range.mpr hlt) (by simpa using hzero)

namespace BufferSz

/-- No `unsigned int` is below zero. -/
theorem init_debug (s : BufferSz) (src : Mem) (n : ℕ) :
    s.init .debug src n = .error .assertFailed := rfl

theorem init_ndebug_of_pos (s : BufferSz) (src : Mem) {n : ℕ} (hn : n ≠ 0) :
    s.init .ndebug src n = (do
      require .outOfBounds (s.sz ≤ bufferCap)
      return { s with buff := s.buff.write 0 (src.read 0 s.sz) }) := if_pos hn

theorem init_ndebug_zero (s : BufferSz) (src : Mem) :
    s.init .ndebug src 0 = (do
      let buff ← strcpyBuff s.buff src
      return { s with buff }) := by
  unfold init
  simp only [Build.assert, ok_bind]
  rw [if_neg (fun hne => hne rfl)]

/-- Nothing in `init` sets `sz`. -/
theorem sz_of_init {b : Build} {s r : BufferSz} {src : Mem} {n : ℕ} (h : s.init b src n = .ok r) :
    r.sz = s.sz := by
  cases b with
  | debug => cases h
  | ndebug =>
    rcases Nat.eq_zero_or_pos n with rfl | hn
    · rw [init_ndebug_zero] at h
      obtain ⟨buff, _, hr⟩ := bind_eq_ok.mp h
      rw [← Except.ok.inj hr]
    · rw [init_ndebug_of_pos s src (by omega)] at h
      obtain ⟨_, _, hr⟩ := bind_eq_ok.mp h
      rw [← Except.ok.inj hr]

/-- With the right number there before, `init` copies the right bytes. -/
theorem init_value_iff {s : BufferSz} {src : Mem} (hcap : s.sz ≤ bufferCap) :
    (∃ r, s.init .ndebug src s.sz = .ok r ∧ r.bytes = src.read 0 s.sz) ↔
      (s.sz = 0 → HasNul src) := by
  obtain ⟨n, buff⟩ := s
  rcases Nat.eq_zero_or_pos n with rfl | hn
  · rw [init_ndebug_zero]
    constructor
    · rintro ⟨r, hinit, _⟩ _
      obtain ⟨m, hcopy, _⟩ := bind_eq_ok.mp hinit
      exact strcpyBuff_isOk_iff.mp ⟨m, hcopy⟩
    · intro h
      obtain ⟨m, hcopy⟩ := strcpyBuff_isOk_iff.mpr (h rfl)
      exact ⟨⟨0, m⟩, bind_eq_ok.mpr ⟨m, hcopy, rfl⟩, rfl⟩
  · have hpos : n ≠ 0 := by omega
    refine iff_of_true ⟨⟨n, buff.write 0 (src.read 0 n)⟩, ?_, ?_⟩ fun hzero => absurd hzero hpos
    · rw [init_ndebug_of_pos _ src hpos, require_true hcap]
      rfl
    · have hread := Mem.read_write buff 0 (src.read 0 n)
      rwa [Mem.length_read] at hread

end BufferSz

/-- `init` with the length `m`, where `n` bytes should be there afterwards. -/
theorem exists_init_iff {b : Build} {old : BufferSz} {src : Mem} {m n : ℕ} (hcap : n ≤ bufferCap)
    (hm : old.sz = n → m = n) :
    (∃ r, old.init b src m = .ok r ∧ r.sz = (src.read 0 n).length ∧ r.bytes = src.read 0 n) ↔
      b = .ndebug ∧ old.sz = n ∧ (n = 0 → HasNul src) := by
  rw [Mem.length_read]
  cases b with
  | debug =>
    refine iff_of_false ?_ (fun h => absurd h.1 (by decide))
    rintro ⟨r, hinit, _⟩
    rw [BufferSz.init_debug] at hinit
    cases hinit
  | ndebug =>
    constructor
    · rintro ⟨r, hinit, hsz, hbytes⟩
      have hold : old.sz = n := (BufferSz.sz_of_init hinit).symm.trans hsz
      obtain rfl := hm hold
      subst hold
      exact ⟨rfl, rfl, (BufferSz.init_value_iff hcap).mp ⟨r, hinit, hbytes⟩⟩
    · rintro ⟨_, hold, hnul⟩
      obtain rfl := hm hold
      subst hold
      obtain ⟨r, hinit, hbytes⟩ := (BufferSz.init_value_iff hcap).mpr hnul
      exact ⟨r, hinit, BufferSz.sz_of_init hinit, hbytes⟩

/-! ### Assignment -/

theorem exists_assign_iff {b : Build} {old x : BufferSz} (hcap : x.sz ≤ bufferCap) :
    (∃ r, old.assign b x = .ok r ∧ r.sz = x.bytes.length ∧ r.bytes = x.bytes) ↔
      (BufferOp.assign x).Lucky b old := by
  rw [BufferSz.length_bytes]
  cases b with
  | debug =>
    constructor
    · rintro ⟨r, hassign, _⟩
      exact (BufferSz.assign_debug_eq_ok.mp hassign).1
    · intro hne
      refine ⟨_, BufferSz.assign_debug_eq_ok.mpr ⟨hne, hcap, rfl⟩, rfl, ?_⟩
      have hread := Mem.read_write old.buff 0 x.bytes
      rwa [BufferSz.length_bytes] at hread
  | ndebug =>
    constructor
    · rintro ⟨r, hassign, _, hbytes⟩
      obtain rfl := Except.ok.inj hassign
      exact hbytes
    · intro hbytes
      exact ⟨⟨x.sz, old.buff⟩, rfl, rfl, hbytes⟩

/-! ### All operations -/

/-- The bytes of a `BufferSz` determine its `sz`. -/
theorem BufferSz.sz_eq_of_bytes {x y : BufferSz} (h : x.bytes = y.bytes) : x.sz = y.sz := by
  rw [← x.length_bytes, ← y.length_bytes, h]

/-- **Where a `BufferSz` behaves as a value.** -/
theorem behavesAsValue_iff {b : Build} {old : BufferSz} {op : BufferOp}
    (hcap : (op.value old).length ≤ bufferCap) : BehavesAsValue b old op ↔ op.Lucky b old := by
  cases op with
  | construct src n =>
    rw [BufferOp.value, Mem.length_read] at hcap
    exact exists_init_iff hcap fun h => h
  | init src n =>
    rw [BufferOp.value, Mem.length_read] at hcap
    exact exists_init_iff hcap fun _ => rfl
  | copy x =>
    constructor
    · rintro ⟨r, hcopy, _, hbytes⟩
      obtain rfl := Except.ok.inj hcopy
      exact hbytes
    · intro hbytes
      exact ⟨old, rfl, (BufferSz.sz_eq_of_bytes hbytes).trans x.length_bytes.symm, hbytes⟩
  | assign x =>
    rw [BufferOp.value, BufferSz.length_bytes] at hcap
    exact exists_assign_iff hcap
  | assignSelf => exact iff_of_true ⟨old, rfl, old.length_bytes.symm, rfl⟩ trivial

/-- With assertions, one name can be assigned over another. -/
theorem behavesAsValue_assign : BehavesAsValue .debug ⟨3, Mem.ofList [0x63, 0x6f, 0x6c]⟩
    (.assign ⟨2, Mem.ofList [0x69, 0x64]⟩) :=
  (behavesAsValue_iff (by decide)).mpr (show 2 ≠ 0 by decide)

/-- A buffer cannot be built from the text `a` and its length, here where three bytes stood. -/
theorem not_behavesAsValue_construct :
    BufferOp.run .debug ⟨3, Mem.ofList []⟩ (.construct (Mem.ofList [0x61]) 1)
        = .error .assertFailed ∧
      BufferOp.run .ndebug ⟨3, Mem.ofList []⟩ (.construct (Mem.ofList [0x61]) 1)
        = .ok ⟨3, (Mem.ofList []).write 0 [0x61, 0x00, 0x00]⟩ ∧
      ∀ b, ¬BehavesAsValue b ⟨3, Mem.ofList []⟩ (.construct (Mem.ofList [0x61]) 1) := by
  refine ⟨rfl, rfl, ?_⟩
  rintro b ⟨r, hrun, hsz, _⟩
  have hold : r.sz = 3 := BufferSz.sz_of_init hrun
  exact absurd (hold.symm.trans hsz) (by decide)

end Lab1.MemDb
