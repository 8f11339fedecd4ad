import Lab1.Library.Follow
import Lab1.MemDb.Builds
import Lab1.MemDb.Equiv.FindEntry

/-!
# What the assertions do

The functions of a build with assertions are those of the other modules (`newIn_debug`,
`addEntryIn_debug`, `findEntryIn_debug`).  `addEntry` and `findEntry` go the same way without their
assertions, as long as the assertions hold.  The constructor, whose chunk is never allocated then,
and the copy of a `BufferSz`, which never happens, do not.

`sameInBothBuilds_iff` says which runs do not depend on the assertions.
-/

namespace Lab1.MemDb

open ArrayLayout

/-! ### The property -/

/-- After every part of a run that gets through with all assertions evaluated, the same calls give
the same state and the same results when the assertions are compiled out. -/
def SameInBothBuilds (p : Program) (ops : List ProgramOp) : Prop :=
  ∀ pre, pre <+: ops → ∀ q outs, exec (Program.step .debug) p pre = .ok (q, outs) →
    exec (Program.step .ndebug) p pre = .ok (q, outs)

/-- The operation is not a construction, and if it is an assignment, it is one of an object to
itself or the bytes it should copy are there already. -/
def Harmless (p : Program) : ProgramOp → Prop
  | .construct .. => False
  | .addEntry _ => True
  | .findEntry _ => True
  | .assign dst src => dst = src ∨ (p.vars dst).buff.read 0 (p.vars src).sz = (p.vars src).bytes

/-! ### A build with assertions -/

theorem newIn_debug (alloc : MemAllocator) (shm : Chunk) (uninit : Pointer) (head : LayoutHeader)
    (sz : ℕ) : newIn .debug alloc shm uninit head sz = new alloc shm head sz := by
  unfold newIn new
  simp only [Build.assert]
  by_cases hpos : 0 < (alloc.allocChunk (u32 (sz + sizeofArrayLayoutData))).2.1
  · rw [require_true hpos, require_true hpos, ok_bind, ok_bind, ok_bind]
    rfl
  · rw [require_false hpos, error_bind, error_bind]

/-- The assertion of `bitOn` refuses `invLocation` before it is used as a slot. -/
theorem BitMap.bitOnIn_debug_ne {m m' : BitMap} {val : ℕ}
    (h : m.bitOnIn .debug (UInt32.ofNat val) = .ok m') : val ≠ invLocation := by
  rintro rfl
  have hfalse : ¬(minBit ≤ (UInt32.ofNat invLocation).toNat ∧
      (UInt32.ofNat invLocation).toNat ≤ maxBit) := by decide
  unfold BitMap.bitOnIn Build.assert at h
  rw [require_false hfalse, error_bind] at h
  cases h

theorem addEntryIn_debug (l : ArrayLayout) (row : Mem) :
    l.addEntryIn .debug row = l.addEntry row := by
  unfold addEntryIn addEntry
  refine bind_congr fun _ => bind_congr fun p => ?_
  obtain ⟨stack, val⟩ := p
  show (l.bitMap.bitOnIn .debug (UInt32.ofNat val) >>= _) =
    (l.bitMap.bitOnIn .debug (UInt32.ofNat val) >>= _)
  rcases hbit : l.bitMap.bitOnIn .debug (UInt32.ofNat val) with e | m
  · rfl
  · rw [ok_bind, ok_bind, require_true (Or.inl (BitMap.bitOnIn_debug_ne hbit)), ok_bind]

theorem findLoopIn_debug (l : ArrayLayout) (comp : Comparable) (idxs : List ℕ) (mf : ℕ)
    (res : List Result) : findLoopIn .debug l comp idxs mf res = findLoop l comp idxs mf res := by
  induction idxs generalizing mf res with
  | nil => rfl
  | cons o idxs ih =>
    rw [findLoopIn, findLoop]
    simp only [ih]
    rfl

theorem findEntryIn_debug (l : ArrayLayout) (comp : Comparable) :
    l.findEntryIn .debug comp = l.findEntry comp := by
  unfold findEntryIn findEntry
  rw [findLoopIn_debug]
  rfl

/-! ### A build without -/

theorem Build.assert_follows (c : Prop) [Decidable c] :
    Follows (Build.ndebug.assert c) (Build.debug.assert c) := fun _ _ => rfl

theorem Stack.popIn_follows (s : Stack) : Follows (s.popIn .ndebug) (s.popIn .debug) :=
  (Build.assert_follows _).bind fun _ => Follows.refl _

theorem BitMap.bitOnIn_follows (m : BitMap) (n : UInt32) :
    Follows (m.bitOnIn .ndebug n) (m.bitOnIn .debug n) :=
  (Build.assert_follows _).bind fun _ => Follows.refl _

theorem BitMap.isOnIn_follows (m : BitMap) (n : UInt32) :
    Follows (m.isOnIn .ndebug n) (m.isOnIn .debug n) :=
  (Build.assert_follows _).bind fun _ => Follows.refl _

theorem addEntryIn_follows (l : ArrayLayout) (row : Mem) :
    Follows (l.addEntryIn .ndebug row) (l.addEntryIn .debug row) := by
  refine (Build.assert_follows _).bind fun _ => ?_
  refine (Stack.popIn_follows _).bind fun _ => ?_
  exact (BitMap.bitOnIn_follows _ _).bind fun _ => Follows.refl _

theorem findLoopIn_follows (l : ArrayLayout) (comp : Comparable) (idxs : List ℕ) (mf : ℕ)
    (res : List Result) :
    Follows (findLoopIn .ndebug l comp idxs mf res) (findLoopIn .debug l comp idxs mf res) := by
  induction idxs generalizing mf res with
  | nil => exact Follows.refl _
  | cons o idxs ih =>
    rw [findLoopIn, findLoopIn]
    refine (BitMap.isOnIn_follows _ _).bind fun on => ?_
    cases on with
    | false => exact ih mf res
    | true =>
      refine (Follows.refl _).bind fun st => ?_
      obtain ⟨found, mf'⟩ := st
      cases found with
      | false => exact ih mf' res
      | true => exact (Follows.refl _).bind fun _ => ih mf' _

theorem findEntryIn_follows (l : ArrayLayout) (comp : Comparable) :
    Follows (l.findEntryIn .ndebug comp) (l.findEntryIn .debug comp) :=
  (Build.assert_follows _).bind fun _ => findLoopIn_follows l comp _ _ _

/-- Without assertions no layout is ever constructed. -/
theorem newIn_ndebug (alloc : MemAllocator) (shm : Chunk) (uninit : Pointer) (head : LayoutHeader)
    (sz : ℕ) : newIn .ndebug alloc shm uninit head sz = .error .nullPointer := by
  unfold newIn
  simp only [Build.assert, ok_bind]
  rw [require_false (Nat.lt_irrefl 0), error_bind]

theorem BufferSz.assign_debug_eq_ok {dst src buff : BufferSz} :
    dst.assign .debug src = .ok buff ↔
      src.sz ≠ 0 ∧ src.sz ≤ bufferCap ∧ buff = ⟨src.sz, dst.buff.write 0 src.bytes⟩ := by
  unfold BufferSz.assign rawCopyBytes Build.assert
  simp only [bind_eq_ok, require_eq_ok]
  constructor
  · rintro ⟨b, ⟨_, hne, _, hle, hcopy⟩, hpure⟩
    obtain rfl := Except.ok.inj hcopy
    exact ⟨hne, hle, (Except.ok.inj hpure).symm⟩
  · rintro ⟨hne, hle, rfl⟩
    exact ⟨_, ⟨(), hne, (), hle, rfl⟩, rfl⟩

theorem BufferSz.assign_ndebug (dst src : BufferSz) :
    dst.assign .ndebug src = .ok ⟨src.sz, dst.buff⟩ := rfl

/-! ### One operation -/

/-- The source looks for an assignment to itself. -/
theorem Program.step_assign_self (b : Build) (p : Program) (dst : ℕ) :
    p.step b (.assign dst dst) = .ok (p, none) := if_pos rfl

theorem Program.step_assign_of_ne (b : Build) (p : Program) {dst src : ℕ} (hne : dst ≠ src) :
    p.step b (.assign dst src) = (do
      let buff ← (p.vars dst).assign b (p.vars src)
      return ({ p with vars := Function.update p.vars dst buff }, none)) := if_neg hne

theorem Program.assign_follows_iff {p : Program} {dst src : ℕ} (hne : dst ≠ src)
    {r : Program × Option LayoutOut} (hstep : p.step .debug (.assign dst src) = .ok r) :
    Follows (p.step .ndebug (.assign dst src)) (p.step .debug (.assign dst src)) ↔
      (p.vars dst).buff.read 0 (p.vars src).sz = (p.vars src).bytes := by
  have hlen : (p.vars src).bytes.length = (p.vars src).sz := BufferSz.length_bytes _
  rw [step_assign_of_ne .debug p hne] at hstep ⊢
  rw [step_assign_of_ne .ndebug p hne, BufferSz.assign_ndebug, ok_bind]
  obtain ⟨buff, hassign, _⟩ := bind_eq_ok.mp hstep
  obtain ⟨_, _, rfl⟩ := BufferSz.assign_debug_eq_ok.mp hassign
  -- the two builds differ in the bytes of the copy only
  rw [hassign, ok_bind, ← hlen, ← Mem.write_eq_self_iff]
  constructor
  · intro h
    have hvars := congrFun (congrArg (fun q => q.1.vars) (Except.ok.inj (h _ rfl))) dst
    simp only [Function.update_self] at hvars
    exact (congrArg BufferSz.buff hvars).symm
  · intro h
    rw [h, hlen]
    exact Follows.refl _

/-- **One operation in both builds.** -/
theorem Program.step_follows_iff {p : Program} {op : ProgramOp} {r : Program × Option LayoutOut}
    (hstep : p.step .debug op = .ok r) :
    Follows (p.step .ndebug op) (p.step .debug op) ↔ Harmless p op := by
  cases op with
  | construct shm uninit head sz =>
    refine iff_of_false (fun h => ?_) (fun h => h)
    have hok := h r hstep
    rw [Program.step, newIn_ndebug, error_bind] at hok
    cases hok
  | addEntry row =>
    refine iff_of_true ?_ trivial
    unfold Program.step
    rcases p.layout with _ | l
    · exact Follows.refl _
    · exact (addEntryIn_follows l row).bind fun _ => Follows.refl _
  | findEntry comp =>
    refine iff_of_true ?_ trivial
    unfold Program.step
    rcases p.layout with _ | l
    · exact Follows.refl _
    · exact (findEntryIn_follows l comp).bind fun _ => Follows.refl _
  | assign dst src =>
    by_cases hself : dst = src
    · subst hself
      refine iff_of_true ?_ (Or.inl rfl)
      rw [step_assign_self, step_assign_self]
      exact Follows.refl _
    · rw [assign_follows_iff hself hstep]
      exact (or_iff_right hself).symm

/-! ### Whole runs -/

/-- **Which runs do not depend on the assertions.**  A run in which all assertions hold gives the
same states and results without them if and only if all its operations are harmless where they are
reached: it constructs no layout, and copies into a `BufferSz` only what is there already. -/
theorem sameInBothBuilds_iff {p q : Program} {ops : List ProgramOp}
    {outs : List (Option LayoutOut)} (hrun : exec (Program.step .debug) p ops = .ok (q, outs)) :
    SameInBothBuilds p ops ↔ ∀ pre op post s outs', ops = pre ++ op :: post →
      exec (Program.step .debug) p pre = .ok (s, outs') → Harmless s op := by
  have hsame : SameInBothBuilds p ops ↔
      FollowsAlong (Program.step .ndebug) (Program.step .debug) p ops := by
    rw [← follows_prefixes_iff]
    exact ⟨fun h pre hpre r => h pre hpre r.1 r.2, fun h pre hpre t outs => h pre hpre (t, outs)⟩
  rw [hsame]
  -- as the run goes through, every operation it reaches returns
  have hreturns : ∀ pre op post s outs', ops = pre ++ op :: post →
      exec (Program.step .debug) p pre = .ok (s, outs') → ∃ r, s.step .debug op = .ok r := by
    rintro pre op post s outs' rfl hpre
    obtain ⟨m, _, _, hm, hrest, _⟩ := exec_append_eq_ok.mp hrun
    obtain ⟨rfl, _⟩ := ok_pair_inj (hpre.symm.trans hm)
    obtain ⟨s', b, _, hstep, _, _⟩ := exec_cons_eq_ok.mp hrest
    exact ⟨_, hstep⟩
  constructor
  · intro h pre op post s outs' hops hpre
    obtain ⟨r, hr⟩ := hreturns pre op post s outs' hops hpre
    exact (Program.step_follows_iff hr).mp (h pre op post s outs' hops hpre)
  · intro h pre op post s outs' hops hpre
    obtain ⟨r, hr⟩ := hreturns pre op post s outs' hops hpre
    exact (Program.step_follows_iff hr).mpr (h pre op post s outs' hops hpre)

/-- A program without a layout, whose variables all hold the name `col`. -/
def namesProgram : Program := ⟨freshAlloc, none, fun _ => ⟨3, Mem.ofList [0x63, 0x6f, 0x6c]⟩⟩

theorem step_namesProgram (dst src : ℕ) :
    namesProgram.step .debug (.assign dst src) = .ok (namesProgram, none) := by
  by_cases hself : dst = src
  · rw [hself, Program.step_assign_self]
  · have hsame : (namesProgram.vars dst).buff.write 0 (namesProgram.vars src).bytes
        = (namesProgram.vars dst).buff := Mem.write_eq_self_iff.mpr rfl
    have hne : (namesProgram.vars src).sz ≠ 0 := show 3 ≠ 0 by decide
    have hle : (namesProgram.vars src).sz ≤ bufferCap := show 3 ≤ bufferCap by decide
    rw [Program.step_assign_of_ne .debug _ hself,
      BufferSz.assign_debug_eq_ok.mpr ⟨hne, hle, rfl⟩, ok_bind, hsame]
    -- the variable gets the value that all of them have
    have hupdate : Function.update namesProgram.vars dst
        ⟨(namesProgram.vars src).sz, (namesProgram.vars dst).buff⟩ = namesProgram.vars :=
      Function.update_eq_self dst _
    rw [hupdate]
    rfl

theorem exec_namesProgram {ops : List ProgramOp} {s : Program} {outs : List (Option LayoutOut)}
    (hops : ∀ op ∈ ops, ∃ dst src, op = .assign dst src)
    (h : exec (Program.step .debug) namesProgram ops = .ok (s, outs)) : s = namesProgram := by
  refine exec_invariant
    (fun pre s => (∀ op ∈ pre, ∃ dst src, op = .assign dst src) → s = namesProgram) ?_
    (fun _ => rfl) h hops
  intro pre s op s' out hI hstep hpre
  obtain ⟨dst, src, rfl⟩ := hpre op (List.mem_append_right _ (List.mem_singleton_self op))
  rw [hI fun a ha => hpre a (List.mem_append_left _ ha), step_namesProgram] at hstep
  exact (ok_pair_inj hstep).1.symm

theorem sameInBothBuilds_names :
    SameInBothBuilds namesProgram [.assign 0 1, .assign 2 2, .assign 1 2] := by
  have hassigns : ∀ op ∈ [ProgramOp.assign 0 1, .assign 2 2, .assign 1 2],
      ∃ dst src, op = .assign dst src := by simp
  have hrun : exec (Program.step .debug) namesProgram [.assign 0 1, .assign 2 2, .assign 1 2]
      = .ok (namesProgram, [none, none, none]) := by
    simp only [exec, step_namesProgram, ok_bind]
    rfl
  refine (sameInBothBuilds_iff hrun).mpr ?_
  intro pre op post s outs' hops hpre
  obtain ⟨dst, src, rfl⟩ := hassigns op (by rw [hops]; simp)
  obtain rfl := exec_namesProgram (fun a ha => hassigns a (by rw [hops]; simp [ha])) hpre
  exact Or.inr rfl

/-- The construction of a layout goes through with the assertions and not without them. -/
theorem not_sameInBothBuilds_construct : ∃ q outs,
    exec (Program.step .debug) namesProgram [.construct zeroChunk 0 (twoInts 0 4) 4096]
        = .ok (q, outs) ∧
      ¬SameInBothBuilds namesProgram [.construct zeroChunk 0 (twoInts 0 4) 4096] := by
  obtain ⟨alloc', l, hnew⟩ := new_isOk freshAlloc zeroChunk (twoInts 0 4) 4096
    (Nat.add_pos_left (by decide) _) (by decide) (twoInts_names 0 4)
  have hstep : namesProgram.step .debug (.construct zeroChunk 0 (twoInts 0 4) 4096)
      = .ok ({ namesProgram with alloc := alloc', layout := some l }, none) := by
    unfold Program.step
    simp only [newIn_debug]
    rw [show namesProgram.alloc = freshAlloc from rfl, hnew]
    rfl
  have hrun := exec_singleton_eq_ok.mpr ⟨_, hstep, rfl⟩
  refine ⟨_, _, hrun, fun h => ?_⟩
  obtain ⟨_, hndebug, _⟩ := exec_singleton_eq_ok.mp (h _ List.prefix_rfl _ _ hrun)
  rw [Program.step, newIn_ndebug, error_bind] at hndebug
  cases hndebug

end Lab1.MemDb
