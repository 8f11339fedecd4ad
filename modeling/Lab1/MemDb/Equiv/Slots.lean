import Lab1.MemDb.Equiv.Layouts

/-!
# The slot bookkeeping of `ArrayLayout`

The constructor pushes the slots `0 … 31`, and `addEntry` uses the number it pops both as the slot
of the row and as a bit number, although bit numbers start at `1`.  Slots are handed out from
the top, and no operation gives one back, so after `k ≤ 31` rows the free slots are `0 … 31 - k` and
the bits of `32 - k … 31` are set (`SlotInv`).  The next row is fine as long as a slot besides
slot `0` is free; the 32nd row gets slot `0` and fails the assertion of `bitOn`.
-/

namespace Lab1.MemDb

open ArrayLayout

/-! ### The property -/

/-- The free list and the bit map describe the same set of slots. -/
structure ExactSlots (l : ArrayLayout) : Prop where
  nodup : l.stack.held.Nodup
  range : ∀ s ∈ l.stack.held, s < maxObjNum
  bits : ∀ s < maxObjNum, s ∉ l.stack.held ↔ l.bitMap.bit (UInt32.ofNat s) = true

/-- The bookkeeping is exact in every state that the run reaches, and no step of the run fails
an assertion. -/
structure ExactRun (l₀ : ArrayLayout) (ops : List LayoutOp) : Prop where
  reached : ∀ pre post l outs, ops = pre ++ post → exec ArrayLayout.step l₀ pre = .ok (l, outs) →
    ExactSlots l
  noAssert : ∀ pre op post l outs, ops = pre ++ op :: post →
    exec ArrayLayout.step l₀ pre = .ok (l, outs) → l.step op ≠ .error .assertFailed

def LayoutOp.isAdd : LayoutOp → Bool
  | .addEntry _ => true
  | _ => false

/-- The number of `addEntry` calls. -/
def adds (ops : List LayoutOp) : ℕ := ops.countP LayoutOp.isAdd

/-! ### The invariant -/

/-- The state of the slots when `k` of them are taken. -/
structure SlotInv (k : ℕ) (l : ArrayLayout) : Prop where
  stack_sz : l.stack.sz = maxObjNum
  capacity : l.stack.capacity + k = maxObjNum
  pstack : ∀ i < maxObjNum, l.stack.pstack i = i
  le : k ≤ 31
  bits : ∀ i, l.bitMap.bits.toNat.testBit i = decide (31 - k ≤ i ∧ i < 31)

theorem ArrayLayout.Built.slotInv {alloc alloc' : MemAllocator} {shm : Chunk}
    {head : LayoutHeader} {sz : ℕ} {l : ArrayLayout} (h : Built alloc shm head sz alloc' l) :
    SlotInv 0 l where
  stack_sz := h.stack_sz
  capacity := h.stack_capacity
  pstack := h.pstack
  le := by norm_num
  bits i := by
    have hzero : (BitMap.init).bits.toNat = 0 := rfl
    rw [h.bitMap, hzero, Nat.zero_testBit]
    symm
    rw [decide_eq_false_iff_not]
    omega

/-- The slots on the free list. -/
theorem SlotInv.held_eq {k : ℕ} {l : ArrayLayout} (h : SlotInv k l) :
    l.stack.held = List.range l.stack.capacity := by
  have hcap := h.capacity
  conv_rhs => rw [← List.map_id (List.range l.stack.capacity)]
  apply List.map_congr_left
  intro i hi
  rw [List.mem_range] at hi
  exact h.pstack i (by omega)

theorem SlotInv.exactSlots {k : ℕ} {l : ArrayLayout} (h : SlotInv k l) : ExactSlots l where
  nodup := by rw [h.held_eq]; exact List.nodup_range
  range s hs := by
    have hcap := h.capacity
    rw [h.held_eq, List.mem_range] at hs
    omega
  bits s hs := by
    have hcap := h.capacity
    have hmax : maxObjNum = 32 := rfl
    have hle := h.le
    rw [h.held_eq, List.mem_range]
    rcases Nat.eq_zero_or_pos s with rfl | hpos
    · -- slot `0` stays free, and the bit its number selects is never set
      rw [BitMap.bit_zero, h.bits, decide_eq_true_eq]
      omega
    · have hp : BitMap.pos s = s - 1 := Nat.mod_eq_of_lt (by omega)
      rw [BitMap.bit_ofNat _ hpos (by omega), h.bits, hp, decide_eq_true_eq]
      omega

/-! ### One step -/

/-- While two slots are free, `addEntry` takes the top one. -/
theorem SlotInv.pop_eq {k : ℕ} {l : ArrayLayout} (h : SlotInv k l) :
    l.stack.pop = .ok ({ l.stack with capacity := 31 - k }, 31 - k) := by
  have hcap := h.capacity
  have hmax : maxObjNum = 32 := rfl
  have hle := h.le
  have hc : l.stack.capacity - 1 = 31 - k := by omega
  rw [Stack.pop_eq (by omega) (by rw [h.stack_sz]; omega) (by omega), hc,
    h.pstack _ (by omega)]

theorem SlotInv.bitOn_eq {k : ℕ} {l : ArrayLayout} (hk : k < 31) :
    ∃ b, l.bitMap.bitOn (UInt32.ofNat (31 - k)) = .ok b := by
  have hmin : minBit ≤ 31 - k := by show 1 ≤ _; omega
  have hmax : 31 - k ≤ maxBit := by show _ ≤ 49; omega
  exact ⟨_, (BitMap.bitOn_eq_ok (by omega)).mpr ⟨⟨hmin, hmax⟩, rfl⟩⟩

/-- Slot `0` has no bit number. -/
theorem SlotInv.addEntry_full {l : ArrayLayout} (h : SlotInv 31 l) (row : Mem) :
    l.addEntry row = .error .assertFailed := by
  have hsz : 0 < l.stack.getSz := by rw [Stack.getSz, h.stack_sz]; decide
  have hbit : l.bitMap.bitOn (UInt32.ofNat 0) = .error .assertFailed := by
    unfold BitMap.bitOn
    rw [require_false (by decide), error_bind]
  unfold addEntry
  rw [require_true hsz, ok_bind, h.pop_eq, ok_bind]
  simp only [Nat.sub_self, hbit, error_bind]

theorem SlotInv.addEntry_isOk {k : ℕ} {l : ArrayLayout} (h : SlotInv k l) (hk : k < 31)
    (row : Mem) : ∃ l', l.addEntry row = .ok (l', 0) := by
  obtain ⟨b, hb⟩ := SlotInv.bitOn_eq (l := l) hk
  have hsz : 0 < l.stack.getSz := by rw [Stack.getSz, h.stack_sz]; decide
  exact ⟨_, addEntry_eq_ok.mpr ⟨hsz, _, _, b, h.pop_eq, hb, rfl, rfl⟩⟩

theorem SlotInv.addEntry {k : ℕ} {l l' : ArrayLayout} {row : Mem} {sts : ℤ} (h : SlotInv k l)
    (hadd : l.addEntry row = .ok (l', sts)) : k < 31 ∧ SlotInv (k + 1) l' := by
  have hcap := h.capacity
  have hmax : maxObjNum = 32 := rfl
  have hle := h.le
  have hk : k < 31 := by
    -- with slot `0` alone on the free list the call would have failed
    by_contra hge
    have hk : k = 31 := by omega
    subst hk
    rw [h.addEntry_full row] at hadd
    cases hadd
  refine ⟨hk, ?_⟩
  obtain ⟨_, stack, val, b, hpop, hbit, _, rfl⟩ := addEntry_eq_ok.mp hadd
  rw [h.pop_eq] at hpop
  cases hpop
  refine ⟨h.stack_sz, ?_, h.pstack, hk, fun i => ?_⟩
  · show 31 - k + (k + 1) = maxObjNum
    omega
  · -- slot `31 - k` sets bit `30 - k`, just below those which are set
    have hp : BitMap.pos (31 - k) = 30 - k := by
      show (31 - k - 1) % 32 = 30 - k
      omega
    rw [BitMap.testBit_bitOn (by omega) hbit, h.bits, hp, Bool.eq_iff_iff]
    simp only [Bool.or_eq_true, decide_eq_true_eq]
    omega

/-! ### The other operations -/

theorem compareRow_ne_assertFailed (data : Mem) (vpdata n : ℕ) (cs : List Cond) (mf : ℕ) :
    compareRow data vpdata n cs mf ≠ .error .assertFailed := by
  induction cs generalizing mf with
  | nil => simp [compareRow]
  | cons c cs ih =>
    rw [compareRow]
    rcases c.colDef with _ | d
    · simp
    · apply bind_ne_error (require_ne_error (by decide))
      intro _ _
      split_ifs
      · exact pure_ne_error _ _
      · exact ih _
      · exact ih _

theorem findLoop_ne_assertFailed (l : ArrayLayout) (comp : Comparable) {idxs : List ℕ}
    (hidxs : ∀ o ∈ idxs, 1 ≤ o ∧ o ≤ maxBit) (mf : ℕ) (res : List Result) :
    findLoop l comp idxs mf res ≠ .error .assertFailed := by
  induction idxs generalizing mf res with
  | nil => simp [findLoop]
  | cons o idxs ih =>
    rw [List.forall_mem_cons] at hidxs
    have ih := ih hidxs.2
    -- the assertion of `isOn` is the only one here
    rw [findLoop, BitMap.isOn_eq _ hidxs.1.1 hidxs.1.2, ok_bind]
    split_ifs
    · apply bind_ne_error (compareRow_ne_assertFailed _ _ _ _ _)
      rintro ⟨found, mf'⟩ _
      rcases found with _ | _
      · exact ih _ _
      · apply bind_ne_error (require_ne_error (by decide))
        intro _ _
        exact ih _ _
    · exact ih _ _

theorem mem_objIndices {o : ℕ} : o ∈ objIndices ↔ 1 ≤ o ∧ o < maxBit := by
  rw [objIndices, List.mem_range'_1]
  have hmax : maxBit = 49 := rfl
  omega

/-- Each object of a search has a bit. -/
theorem objIndices_le : ∀ o ∈ objIndices, 1 ≤ o ∧ o ≤ maxBit := by
  intro o ho
  have h := mem_objIndices.mp ho
  exact ⟨h.1, h.2.le⟩

theorem findEntry_ne_assertFailed {l : ArrayLayout} (hsz : 0 < l.stack.getSz)
    (comp : Comparable) : l.findEntry comp ≠ .error .assertFailed := by
  unfold findEntry
  rw [require_true hsz, ok_bind]
  exact findLoop_ne_assertFailed l comp objIndices_le 0 []

theorem updateRow_ne_assertFailed (cs : List Cond) (bs : List BufferSz) (st : Mem × ℕ × ℕ) :
    updateRow cs bs st ≠ .error .assertFailed := by
  induction cs generalizing bs st with
  | nil => simp [updateRow]
  | cons c cs ih =>
    obtain ⟨data, vpdata, upd⟩ := st
    rcases bs with _ | ⟨b, bs⟩
    · simp [updateRow]
    · rw [updateRow]
      rcases c.colDef with _ | d
      · simp
      · apply bind_ne_error (require_ne_error (by decide))
        intro _ _
        exact ih _ _

theorem foldlM_ne_error {σ α : Type} {f : σ → α → Except Fault σ} {e : Fault}
    (hf : ∀ s a, f s a ≠ .error e) (as : List α) (s : σ) : as.foldlM f s ≠ .error e := by
  induction as generalizing s with
  | nil => exact pure_ne_error _ _
  | cons a as ih =>
    rw [List.foldlM_cons]
    exact bind_ne_error (hf s a) fun s' _ => ih s'

theorem updateEntry_ne_assertFailed {l : ArrayLayout} (hsz : 0 < l.stack.getSz)
    (comp : Comparable) (updBuff : List BufferSz) :
    l.updateEntry comp updBuff ≠ .error .assertFailed := by
  unfold updateEntry
  rw [require_true hsz, ok_bind]
  apply bind_ne_error (findEntry_ne_assertFailed hsz comp)
  intro result _
  split_ifs
  · exact pure_ne_error _ _
  · apply bind_ne_error (foldlM_ne_error (fun st r => updateRow_ne_assertFailed _ _ _) _ _)
    intro st _
    exact pure_ne_error _ _

theorem delEntry_ne_assertFailed {l : ArrayLayout} (hsz : 0 < l.stack.getSz)
    (comp : Comparable) : l.delEntry comp ≠ .error .assertFailed := by
  unfold delEntry
  rw [require_true hsz, ok_bind]
  split_ifs
  · exact pure_ne_error _ _
  · apply bind_ne_error (findEntry_ne_assertFailed hsz comp)
    intro result _
    exact pure_ne_error _ _

/-- An update changes the data area only. -/
theorem updateEntry_eq_ok {l l' : ArrayLayout} {comp : Comparable} {updBuff : List BufferSz} {n : ℕ}
    (h : l.updateEntry comp updBuff = .ok (l', n)) : ∃ data, l' = { l with data } := by
  unfold updateEntry at h
  simp only [bind_eq_ok] at h
  obtain ⟨_, _, result, _, h⟩ := h
  split_ifs at h
  · cases h
    exact ⟨l.data, rfl⟩
  · obtain ⟨⟨data, _⟩, _, hpure⟩ := bind_eq_ok.mp h
    cases hpure
    exact ⟨data, rfl⟩

/-- A deletion changes nothing. -/
theorem delEntry_eq_ok {l l' : ArrayLayout} {comp : Comparable} {n : ℤ}
    (h : l.delEntry comp = .ok (l', n)) : l' = l := by
  unfold delEntry at h
  simp only [bind_eq_ok] at h
  obtain ⟨_, _, h⟩ := h
  split_ifs at h
  · cases h
    rfl
  · obtain ⟨result, _, hpure⟩ := bind_eq_ok.mp h
    cases hpure
    rfl

/-- **What a step can do to the slots.**  It is a successful `addEntry`, or it leaves the stack,
the bit map and the header as they are. -/
theorem step_cases {l l' : ArrayLayout} {op : LayoutOp} {out : LayoutOut}
    (h : l.step op = .ok (l', out)) :
    (∃ row, op = .addEntry row ∧ l.addEntry row = .ok (l', 0)) ∨
      (op.isAdd = false ∧ l'.stack = l.stack ∧ l'.bitMap = l.bitMap ∧ l'.header = l.header ∧
        l'.totTypSz = l.totTypSz) := by
  cases op with
  | addEntry row =>
    left
    obtain ⟨⟨l₁, sts⟩, hadd, hpure⟩ := bind_eq_ok.mp h
    cases hpure
    obtain ⟨_, _, _, _, _, _, rfl, _⟩ := addEntry_eq_ok.mp hadd
    exact ⟨row, rfl, hadd⟩
  | findEntry comp =>
    right
    obtain ⟨res, _, hpure⟩ := bind_eq_ok.mp h
    cases hpure
    exact ⟨rfl, rfl, rfl, rfl, rfl⟩
  | updateEntry comp updBuff =>
    right
    obtain ⟨⟨l₁, upd⟩, hupd, hpure⟩ := bind_eq_ok.mp h
    cases hpure
    obtain ⟨data, rfl⟩ := updateEntry_eq_ok hupd
    exact ⟨rfl, rfl, rfl, rfl, rfl⟩
  | delEntry comp =>
    right
    obtain ⟨⟨l₁, n⟩, hdel, hpure⟩ := bind_eq_ok.mp h
    cases hpure
    obtain rfl := delEntry_eq_ok hdel
    exact ⟨rfl, rfl, rfl, rfl, rfl⟩

/-- A step that fails an assertion is an `addEntry` with only slot `0` left. -/
theorem SlotInv.step_ne_assertFailed {k : ℕ} {l : ArrayLayout} (h : SlotInv k l) {op : LayoutOp}
    (hk : op.isAdd = true → k < 31) : l.step op ≠ .error .assertFailed := by
  have hsz : 0 < l.stack.getSz := by rw [Stack.getSz, h.stack_sz]; decide
  cases op with
  | addEntry row =>
    obtain ⟨l', hl'⟩ := h.addEntry_isOk (hk rfl) row
    rw [ArrayLayout.step, hl']
    exact pure_ne_error _ _
  | findEntry comp =>
    apply bind_ne_error (findEntry_ne_assertFailed hsz comp)
    intro res _
    exact pure_ne_error _ _
  | updateEntry comp updBuff =>
    apply bind_ne_error (updateEntry_ne_assertFailed hsz comp updBuff)
    intro r _
    exact pure_ne_error _ _
  | delEntry comp =>
    apply bind_ne_error (delEntry_ne_assertFailed hsz comp)
    intro r _
    exact pure_ne_error _ _

/-! ### Whole runs -/

/-- After a run, as many slots are taken as rows were added. -/
theorem SlotInv.exec {l₀ l : ArrayLayout} (h₀ : SlotInv 0 l₀) {ops : List LayoutOp}
    {outs : List LayoutOut} (h : exec ArrayLayout.step l₀ ops = .ok (l, outs)) :
    SlotInv (adds ops) l := by
  refine exec_invariant (fun pre l => SlotInv (adds pre) l) ?_ h₀ h
  intro pre l op l' out hinv hstep
  have hadds : adds (pre ++ [op]) = adds pre + if op.isAdd then 1 else 0 := by
    simp [adds, List.countP_append, List.countP_singleton]
  rw [hadds]
  rcases step_cases hstep with ⟨row, rfl, hadd⟩ | ⟨hop, hstack, hbits, _, _⟩
  · exact (hinv.addEntry hadd).2
  · rw [if_neg (by simp [hop]), Nat.add_zero]
    refine ⟨?_, ?_, ?_, hinv.le, ?_⟩
    · rw [hstack]; exact hinv.stack_sz
    · rw [hstack]; exact hinv.capacity
    · rw [hstack]; exact hinv.pstack
    · rw [hbits]; exact hinv.bits

/-- While slots besides slot `0` are free, rows can be added. -/
theorem SlotInv.exec_adds_isOk {k : ℕ} {l : ArrayLayout} (h : SlotInv k l) (rows : List Mem)
    (hk : k + rows.length ≤ 31) :
    ∃ l' outs, Lab1.exec ArrayLayout.step l (rows.map .addEntry) = .ok (l', outs) ∧
      SlotInv (k + rows.length) l' := by
  induction rows generalizing k l with
  | nil => exact ⟨l, [], rfl, h⟩
  | cons row rows ih =>
    rw [List.length_cons] at hk
    obtain ⟨l₁, hadd⟩ := h.addEntry_isOk (by omega) row
    obtain ⟨l', outs, hrest, hinv⟩ := ih (h.addEntry hadd).2 (by omega)
    refine ⟨l', .status 0 :: outs, exec_cons_eq_ok.mpr ⟨l₁, .status 0, outs, ?_, hrest, rfl⟩, ?_⟩
    · rw [ArrayLayout.step, hadd]
      rfl
    · rw [List.length_cons, ← Nat.add_assoc, Nat.add_right_comm]
      exact hinv

/-- **Slot bookkeeping.**  In a run from a new layout the bookkeeping is exact, and no assertion
fails, if and only if every `addEntry` call which the run reaches is one of the first 31. -/
theorem exactRun_iff {alloc alloc' : MemAllocator} {shm : Chunk} {head : LayoutHeader} {sz : ℕ}
    {l₀ : ArrayLayout} (hnew : ArrayLayout.new alloc shm head sz = .ok (alloc', l₀))
    (ops : List LayoutOp) :
    ExactRun l₀ ops ↔ ∀ pre row post l outs, ops = pre ++ .addEntry row :: post →
      exec ArrayLayout.step l₀ pre = .ok (l, outs) → adds pre < 31 := by
  have h₀ := (new_spec hnew).slotInv
  constructor
  · -- the 32nd row would get slot `0`
    intro hexact pre row post l outs hops hrun
    have hinv := h₀.exec hrun
    by_contra hge
    have hk : adds pre = 31 := by have := hinv.le; omega
    rw [hk] at hinv
    apply hexact.noAssert pre _ post l outs hops hrun
    rw [ArrayLayout.step, hinv.addEntry_full row, error_bind]
  · intro hfew
    refine ⟨fun pre post l outs _ hrun => (h₀.exec hrun).exactSlots, ?_⟩
    intro pre op post l outs hops hrun
    apply (h₀.exec hrun).step_ne_assertFailed
    -- only an `addEntry` needs a slot
    intro hadd
    cases op with
    | addEntry row => exact hfew pre row post l outs hops hrun
    | findEntry _ | updateEntry _ _ | delEntry _ => cases hadd

/-! ### Concrete runs -/

/-- A header with one four-byte column. -/
def intHeader : LayoutHeader where
  sz := 1
  columns _ := ⟨⟨4, Mem.ofList [0x63, 0x6f, 0x6c, 0x31]⟩, 0, 4, .INT⟩

/-- A chunk of zeros. -/
def zeroChunk : Chunk :=
  ⟨⟨0, fun _ => ⟨⟨0, fun _ => 0⟩, 0, 0, .INT⟩⟩, ⟨0, 0, fun _ => 0⟩, fun _ => 0⟩

theorem new_intHeader_isOk :
    ∃ alloc' l₀, ArrayLayout.new freshAlloc zeroChunk intHeader maxArrayLaySz = .ok (alloc', l₀) :=
  new_isOk _ _ _ _ (Nat.add_pos_left (by decide) _) (by decide)
    fun _ _ => (by omega : (4 : ℕ) ≤ 1024)

theorem exactRun_three_rows : ∃ alloc' l₀,
    ArrayLayout.new freshAlloc zeroChunk intHeader maxArrayLaySz = .ok (alloc', l₀) ∧
      ExactRun l₀ (List.replicate 3 (.addEntry fun _ => 0)) := by
  obtain ⟨alloc', l₀, hnew⟩ := new_intHeader_isOk
  refine ⟨alloc', l₀, hnew, (exactRun_iff hnew _).mpr fun pre row post l outs hops _ => ?_⟩
  have hlen := congrArg List.length hops
  have hle : adds pre ≤ pre.length := List.countP_le_length
  rw [List.length_replicate, List.length_append] at hlen
  omega

/-- The 32nd row fails. -/
theorem not_exactRun_thirtyTwo_rows : ∃ alloc' l₀,
    ArrayLayout.new freshAlloc zeroChunk intHeader maxArrayLaySz = .ok (alloc', l₀) ∧
      ¬ExactRun l₀ (List.replicate 32 (.addEntry fun _ => 0)) := by
  obtain ⟨alloc', l₀, hnew⟩ := new_intHeader_isOk
  refine ⟨alloc', l₀, hnew, fun hexact => ?_⟩
  obtain ⟨l, outs, hrun, hinv⟩ := (new_spec hnew).slotInv.exec_adds_isOk
    (List.replicate 31 fun _ => 0) (by simp)
  rw [List.map_replicate] at hrun
  apply hexact.noAssert _ (.addEntry fun _ => 0) [] l outs ?_ hrun
  · rw [List.length_replicate] at hinv
    rw [ArrayLayout.step, hinv.addEntry_full, error_bind]
  · rw [List.replicate_succ' (n := 31)]

end Lab1.MemDb
