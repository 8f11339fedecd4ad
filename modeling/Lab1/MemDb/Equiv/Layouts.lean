import Lab1.MemDb.Layouts
import Lab1.MemDb.Equiv.DataStructs

/-!
# What the operations of `ArrayLayout` do

The specifications the later modules build on: the constructor (`ArrayLayout.new_spec`,
`ArrayLayout.new_isOk`), the packing of a row (`ArrayLayout.writeColumns_eq`: one write of the
whole row), and `addEntry` as a whole (`ArrayLayout.addEntry_eq_ok`).
-/

namespace Lab1.MemDb

/-! ### Headers -/

namespace LayoutHeader

theorem offset_succ (h : LayoutHeader) (i : ℕ) :
    h.offset (i + 1) = h.offset i + (h.columns i).typsz := by
  simp [offset, List.range_succ]

theorem offset_mono (h : LayoutHeader) {i j : ℕ} (hij : i ≤ j) : h.offset i ≤ h.offset j := by
  induction hij with
  | refl => exact le_rfl
  | step _ ih => rw [offset_succ]; exact Nat.le_add_right_of_le ih

theorem offset_add_typsz_le (h : LayoutHeader) {i n : ℕ} (hi : i < n) :
    h.offset i + (h.columns i).typsz ≤ h.offset n := by
  rw [← offset_succ]
  exact h.offset_mono hi

/-- The first `n` columns are the same, except for what a copy leaves alone. -/
def SameCols (a b : LayoutHeader) (n : ℕ) : Prop :=
  ∀ i < n, (a.columns i).name.bytes = (b.columns i).name.bytes ∧
    (a.columns i).loc = (b.columns i).loc ∧ (a.columns i).typsz = (b.columns i).typsz

theorem SameCols.offset_eq {a b : LayoutHeader} {n : ℕ} (h : SameCols a b n) {i : ℕ}
    (hi : i ≤ n) : a.offset i = b.offset i := by
  induction i with
  | zero => rfl
  | succ i ih => rw [offset_succ, offset_succ, ih (by omega), (h i (by omega)).2.2]

end LayoutHeader

theorem ColumnDef.copyFrom_eq_ok {dst src c : ColumnDef} :
    dst.copyFrom src = .ok c ↔ src.name.sz ≤ bufferCap ∧
      c = { dst with name := dst.name.set src.name.bytes, loc := src.loc, typsz := src.typsz } := by
  unfold copyFrom
  rw [bind_eq_ok]
  constructor
  · rintro ⟨_, hreq, hpure⟩
    cases hpure
    exact ⟨require_eq_ok.mp hreq, rfl⟩
  · rintro ⟨hreq, rfl⟩
    exact ⟨(), require_eq_ok.mpr hreq, rfl⟩

/-! ### The constructor -/

namespace ArrayLayout

theorem pushSlots_eq {s : Stack} (hsz : s.sz = maxObjNum) (hcap : s.capacity = 0) :
    ∃ s', pushSlots s = .ok s' ∧ s'.sz = maxObjNum ∧ s'.capacity = maxObjNum ∧
      ∀ i < maxObjNum, s'.pstack i = i := by
  -- after `n` turns the stack holds `0 … n - 1`
  suffices h : ∀ n ≤ maxObjNum, ∃ s',
      (List.range n).foldlM (fun s i => Stack.push s i >>= fun p => .ok p.1) s = .ok s' ∧
        s'.sz = maxObjNum ∧ s'.capacity = n ∧ ∀ i < n, s'.pstack i = i from h maxObjNum le_rfl
  intro n
  induction n with
  | zero => exact fun _ => ⟨s, rfl, hsz, hcap, by simp⟩
  | succ n ih =>
    intro hn
    obtain ⟨s', hfold, hsz', hcap', hstack⟩ := ih (by omega)
    refine ⟨{ s' with capacity := n + 1, pstack := Function.update s'.pstack n n },
      ?_, hsz', rfl, ?_⟩
    · rw [List.range_succ, List.foldlM_append, hfold, ok_bind, List.foldlM_cons,
        Stack.push_eq (by omega) (by omega), hcap']
      rfl
    · intro i hi
      by_cases hin : i = n
      · subst hin
        simp
      · simp only [Function.update_of_ne hin]
        exact hstack i (by omega)

/-- The loop body of `registerColumns`. -/
private def regStep (head : LayoutHeader) (st : LayoutHeader × ℕ) (i : ℕ) :
    Except Fault (LayoutHeader × ℕ) := do
  let c ← (st.1.columns i).copyFrom (head.columns i)
  return (st.1.setColumn i c, u32 (st.2 + (head.columns i).typsz))

private theorem registerColumns_eq_foldlM (head dst : LayoutHeader) :
    registerColumns head dst = (List.range head.sz).foldlM (regStep head) (dst, 0) := rfl

private theorem regStep_eq_ok {head : LayoutHeader} {st st' : LayoutHeader × ℕ} {i : ℕ} :
    regStep head st i = .ok st' ↔ (head.columns i).name.sz ≤ bufferCap ∧
      st' = (st.1.setColumn i { st.1.columns i with
        name := (st.1.columns i).name.set (head.columns i).name.bytes
        loc := (head.columns i).loc
        typsz := (head.columns i).typsz }, u32 (st.2 + (head.columns i).typsz)) := by
  unfold regStep
  rw [bind_eq_ok]
  constructor
  · rintro ⟨c, hc, hpure⟩
    obtain ⟨hsz, rfl⟩ := ColumnDef.copyFrom_eq_ok.mp hc
    cases hpure
    exact ⟨hsz, rfl⟩
  · rintro ⟨hsz, rfl⟩
    exact ⟨_, ColumnDef.copyFrom_eq_ok.mpr ⟨hsz, rfl⟩, rfl⟩

private theorem foldlM_regStep {head dst : LayoutHeader} {n : ℕ} {st : LayoutHeader × ℕ}
    (h : (List.range n).foldlM (regStep head) (dst, 0) = .ok st) :
    st.1.SameCols head n ∧ st.2 = u32 (head.offset n) ∧
      ∀ i < n, (head.columns i).name.sz ≤ bufferCap := by
  induction n generalizing st with
  | zero =>
    cases h
    exact ⟨fun i hi => absurd hi (Nat.not_lt_zero i), rfl,
      fun i hi => absurd hi (Nat.not_lt_zero i)⟩
  | succ n ih =>
    rw [List.range_succ, List.foldlM_append, bind_eq_ok] at h
    obtain ⟨st', hfold, hlast⟩ := h
    rw [List.foldlM_cons, bind_eq_ok] at hlast
    obtain ⟨st'', hstep, hnil⟩ := hlast
    cases hnil
    obtain ⟨hsame, htot, hnames⟩ := ih hfold
    obtain ⟨hname, rfl⟩ := regStep_eq_ok.mp hstep
    refine ⟨fun i hi => ?_, ?_, fun i hi => ?_⟩
    · -- this turn fills in column `n` and leaves those before it
      by_cases hin : i = n
      · subst hin
        simp [LayoutHeader.setColumn]
      · simpa [LayoutHeader.setColumn, Function.update_of_ne hin] using hsame i (by omega)
    · rw [htot, u32_add_left, LayoutHeader.offset_succ]
    · rcases Nat.lt_succ_iff_lt_or_eq.mp hi with hlt | rfl
      · exact hnames i hlt
      · exact hname

private theorem foldlM_regStep_isOk (dst : LayoutHeader) {head : LayoutHeader} {n : ℕ}
    (hnames : ∀ i < n, (head.columns i).name.sz ≤ bufferCap) :
    ∃ st, (List.range n).foldlM (regStep head) (dst, 0) = .ok st := by
  induction n with
  | zero => exact ⟨_, rfl⟩
  | succ n ih =>
    obtain ⟨st, hfold⟩ := ih fun i hi => hnames i (by omega)
    obtain ⟨st', hstep⟩ : ∃ st', regStep head st n = .ok st' :=
      ⟨_, regStep_eq_ok.mpr ⟨hnames n (by omega), rfl⟩⟩
    refine ⟨st', ?_⟩
    rw [List.range_succ, List.foldlM_append, hfold, ok_bind, List.foldlM_cons, hstep]
    rfl

/-- A layout as the constructor leaves it. -/
structure Built (alloc : MemAllocator) (shm : Chunk) (head : LayoutHeader) (sz : ℕ)
    (alloc' : MemAllocator) (l : ArrayLayout) : Prop where
  head_sz : head.sz < maxColNum
  names : ∀ i < head.sz, (head.columns i).name.sz ≤ bufferCap
  alloc_eq : alloc' = (alloc.allocChunk (u32 (sz + sizeofArrayLayoutData))).1
  point_eq : l.point = u32 (sz + sizeofArrayLayoutData)
  stack_sz : l.stack.sz = maxObjNum
  stack_capacity : l.stack.capacity = maxObjNum
  pstack : ∀ i < maxObjNum, l.stack.pstack i = i
  bitMap : l.bitMap = BitMap.init
  header_sz : l.header.sz = head.sz
  cols : l.header.SameCols head head.sz
  totTypSz : l.totTypSz = u32 (head.offset head.sz)
  data : l.data = shm.data

theorem init_eq {s : Stack} : s.init maxObjNum = .ok { s with sz := maxObjNum, capacity := 0 } := by
  unfold Stack.init
  rw [require_true le_rfl, ok_bind]
  rfl

theorem new_spec {alloc alloc' : MemAllocator} {shm : Chunk} {head : LayoutHeader} {sz : ℕ}
    {l : ArrayLayout} (h : new alloc shm head sz = .ok (alloc', l)) :
    Built alloc shm head sz alloc' l := by
  obtain ⟨s', hpush, hsz', hcap', hstack'⟩ :=
    pushSlots_eq (s := { shm.stack with sz := maxObjNum, capacity := 0 }) rfl rfl
  unfold new at h
  simp only [bind_eq_ok, require_eq_ok, init_eq, Except.ok.injEq] at h
  obtain ⟨_, _, _, hlt, _, rfl, s'', hpush', _, _, ⟨hdr, tot⟩, hreg, hpure⟩ := h
  rw [hpush] at hpush'
  cases hpush'
  rw [registerColumns_eq_foldlM] at hreg
  obtain ⟨hcols, htot, hnames⟩ := foldlM_regStep hreg
  cases hpure
  exact ⟨hlt, hnames, rfl, rfl, hsz', hcap', hstack', rfl, rfl, hcols, htot, rfl⟩

/-- The constructor accepts every header with few enough columns and names that fit. -/
theorem new_isOk (alloc : MemAllocator) (shm : Chunk) (head : LayoutHeader) (sz : ℕ)
    (hpos : 0 < alloc.vmem + u32 (sz + sizeofArrayLayoutData)) (hsz : head.sz < maxColNum)
    (hnames : ∀ i < head.sz, (head.columns i).name.sz ≤ bufferCap) :
    ∃ alloc' l, new alloc shm head sz = .ok (alloc', l) := by
  obtain ⟨s', hpush, hsz', hcap', _⟩ :=
    pushSlots_eq (s := { shm.stack with sz := maxObjNum, capacity := 0 }) rfl rfl
  obtain ⟨⟨hdr, tot⟩, hreg⟩ := foldlM_regStep_isOk shm.header hnames
  rw [← registerColumns_eq_foldlM] at hreg
  have hpos : 0 < (alloc.allocChunk (u32 (sz + sizeofArrayLayoutData))).2.1 := hpos
  have hfull : s'.getCapacity = s'.getSz := by rw [Stack.getCapacity, Stack.getSz, hcap', hsz']
  have hnew : ∃ p, new alloc shm head sz = .ok p := by
    unfold new
    simp only [require_true hpos, require_true hsz, init_eq, hpush, require_true hfull, hreg,
      ok_bind]
    exact ⟨_, rfl⟩
  obtain ⟨⟨alloc', l⟩, hnew⟩ := hnew
  exact ⟨alloc', l, hnew⟩

/-! ### Adding a row -/

/-- Writing the columns one by one writes the packed row. -/
theorem writeColumns_eq {h : LayoutHeader} {row : Mem} {vpdata : ℕ} {data : Mem}
    (hlt : h.offset h.sz < 4294967296) :
    writeColumns h row vpdata data
      = (data.write vpdata (row.read 0 (h.offset h.sz)), h.offset h.sz) := by
  -- the columns so far are the first bytes of the packed row
  suffices hn : ∀ n, h.offset n < 4294967296 →
      (List.range n).foldl (fun (st : Mem × ℕ) i =>
        (st.1.write (vpdata + st.2) (row.read st.2 (h.columns i).typsz),
          u32 (st.2 + (h.columns i).typsz))) (data, 0)
      = (data.write vpdata (row.read 0 (h.offset n)), h.offset n) from hn h.sz hlt
  intro n hn
  induction n with
  | zero => simp [LayoutHeader.offset]
  | succ n ih =>
    have hle : h.offset n ≤ h.offset (n + 1) := h.offset_mono (Nat.le_succ n)
    rw [List.range_succ, List.foldl_append, ih (by omega), List.foldl_cons, List.foldl_nil]
    have hsucc := h.offset_succ n
    rw [← hsucc, u32_of_lt hn, hsucc, Mem.read_add, Mem.write_append, Mem.length_read,
      Nat.zero_add]

theorem addEntry_eq_ok {l l' : ArrayLayout} {row : Mem} {sts : ℤ} :
    l.addEntry row = .ok (l', sts) ↔ 0 < l.stack.getSz ∧
      ∃ stack val bitMap, l.stack.pop = .ok (stack, val) ∧
        l.bitMap.bitOn (UInt32.ofNat val) = .ok bitMap ∧ sts = 0 ∧
        l' = { l with
          stack, bitMap
          data := (writeColumns l.header row (u32 (val * l.totTypSz)) l.data).1 } := by
  unfold addEntry
  simp only [bind_eq_ok, require_eq_ok]
  constructor
  · rintro ⟨_, hsz, ⟨stack, val⟩, hpop, bitMap, hbit, hpure⟩
    cases hpure
    exact ⟨hsz, stack, val, bitMap, hpop, hbit, rfl, rfl⟩
  · rintro ⟨hsz, stack, val, bitMap, hpop, hbit, rfl, rfl⟩
    exact ⟨(), hsz, (stack, val), hpop, bitMap, hbit, rfl⟩

end ArrayLayout

end Lab1.MemDb
