import Lab1.MemDb.Equiv.Slots

/-!
# What `addEntry` stores, `findEntry` finds

`addEntry` packs the columns of a row one after the other; `findEntry` reads each of them at
its `loc`.  The two agree when the `loc` of a column is the sum of the sizes before it.  Nothing
in the constructor asks for that.

The second obstacle is the upper limit of the search.  `findEntry` goes on to object number
`maxBit - 1 = 48`, and the numbers `33 … 48` select the bits of the slots `1 … 16` again, with rows
behind the last slot.  From the 24th row on, these extra objects can bring the number of matches
above the 32 entries of the `ResultBuff`.

`storedIsFound_iff` says that there is no other obstacle.
-/

namespace Lab1.MemDb

open ArrayLayout

/-! ### The property -/

/-- `c` asks for the bytes which `row` itself has in one of the columns of `head`, a column of at
most `sizeof(RawVal)` bytes. -/
def OwnBytes (head : LayoutHeader) (row : Mem) (c : Cond) : Prop :=
  ∃ j < head.sz, c.colDef = some (head.columns j) ∧ (head.columns j).typsz ≤ 8 ∧
    c.pVal.toList.take (head.columns j).typsz
      = row.read (head.offset j) (head.columns j).typsz

/-- The slot which the next `addEntry` takes. -/
def topSlot (l : ArrayLayout) : ℕ := l.stack.pstack (l.stack.capacity - 1)

/-- Every row that is stored after `n` others is found by its own bytes, in the slot it was given
and with all its bytes. -/
def StoredIsFound (head : LayoutHeader) (n : ℕ) : Prop :=
  ∀ alloc shm sz alloc' l₀, ArrayLayout.new alloc shm head sz = .ok (alloc', l₀) →
    maxObjNum * head.offset head.sz ≤ sz →
    ∀ rows : List Mem, rows.length = n →
    ∀ l₁ outs, exec ArrayLayout.step l₀ (rows.map .addEntry) = .ok (l₁, outs) →
    ∀ row l₂, l₁.addEntry row = .ok (l₂, 0) →
    ∀ comp : Comparable, comp.conds ≠ [] → (∀ c ∈ comp.conds, OwnBytes head row c) →
      ∃ res, l₂.findEntry comp = .ok res ∧
        ⟨row.read 0 (head.offset head.sz), topSlot l₁⟩ ∈ res

/-! ### Comparing one row -/

/-- The condition can be evaluated: its column exists and fits a `RawVal`. -/
def Cond.Ready (c : Cond) : Prop := ∃ d, c.colDef = some d ∧ d.typsz ≤ 8

/-- The condition holds of the row at `vpdata`. -/
def Cond.Holds (data : Mem) (vpdata : ℕ) (c : Cond) : Prop :=
  ∃ d, c.colDef = some d ∧ d.typsz ≤ 8 ∧
    c.pVal.toList.take d.typsz = data.read (vpdata + d.loc) d.typsz

theorem OwnBytes.ready {head : LayoutHeader} {row : Mem} {c : Cond} (h : OwnBytes head row c) :
    c.Ready := by
  obtain ⟨j, _, hdef, hsz, _⟩ := h
  exact ⟨_, hdef, hsz⟩

/-- The value a condition gets when its bytes are read from the row itself. -/
theorem ownBytes_ofMem {head : LayoutHeader} (row : Mem) {j : ℕ} (hj : j < head.sz)
    (h8 : (head.columns j).typsz ≤ 8) :
    OwnBytes head row ⟨some (head.columns j), RawVal.ofMem row (head.offset j)⟩ :=
  ⟨j, hj, rfl, h8, RawVal.take_ofMem _ _ h8⟩

theorem compareRow_cons {data : Mem} {vpdata n mf : ℕ} {c : Cond} {cs : List Cond}
    {d : ColumnDef} (hdef : c.colDef = some d) (hsz : d.typsz ≤ 8) :
    compareRow data vpdata n (c :: cs) mf =
      if c.pVal.toList.take d.typsz = data.read (vpdata + d.loc) d.typsz then
        if mf + 1 = n then .ok (true, 0) else compareRow data vpdata n cs (mf + 1)
      else compareRow data vpdata n cs mf := by
  rw [compareRow]
  simp only [hdef]
  rw [require_true hsz, ok_bind]
  rfl

/-- The running count of matches stays below the number of conditions. -/
theorem compareRow_isOk (data : Mem) (vpdata : ℕ) {n : ℕ} {cs : List Cond} {mf : ℕ}
    (hcs : ∀ c ∈ cs, c.Ready) (hmf : mf < n) :
    ∃ b mf', compareRow data vpdata n cs mf = .ok (b, mf') ∧ mf' < n := by
  induction cs generalizing mf with
  | nil => exact ⟨false, mf, rfl, hmf⟩
  | cons c cs ih =>
    rw [List.forall_mem_cons] at hcs
    obtain ⟨d, hdef, hsz⟩ := hcs.1
    rw [compareRow_cons hdef hsz]
    split_ifs with hmatch hn
    · exact ⟨true, 0, rfl, by omega⟩
    · exact ih hcs.2 (by omega)
    · exact ih hcs.2 hmf

/-- Where all conditions hold, the row is recorded, whatever count was carried over. -/
theorem compareRow_true {data : Mem} {vpdata n : ℕ} {cs : List Cond} {mf : ℕ}
    (hcs : ∀ c ∈ cs, c.Holds data vpdata) (hmf : mf < n) (hlen : n ≤ mf + cs.length) :
    compareRow data vpdata n cs mf = .ok (true, 0) := by
  induction cs generalizing mf with
  | nil =>
    -- `n` matches would be counted by now
    rw [List.length_nil] at hlen
    omega
  | cons c cs ih =>
    rw [List.forall_mem_cons] at hcs
    obtain ⟨d, hdef, hsz, hmatch⟩ := hcs.1
    rw [compareRow_cons hdef hsz, if_pos hmatch]
    rw [List.length_cons] at hlen
    split_ifs with hn
    · rfl
    · exact ih hcs.2 (by omega) (by omega)

/-- A single condition is found exactly where it holds. -/
theorem compareRow_single (data : Mem) (vpdata : ℕ) {c : Cond} {d : ColumnDef}
    (hdef : c.colDef = some d) (hsz : d.typsz ≤ 8) :
    compareRow data vpdata 1 [c] 0 =
      .ok (decide (c.pVal.toList.take d.typsz = data.read (vpdata + d.loc) d.typsz), 0) := by
  rw [compareRow_cons hdef hsz]
  split_ifs with hmatch hn
  · simp [hmatch]
  · exact absurd rfl hn
  · simp [hmatch, compareRow]

/-! ### The search -/

/-- The bit of the object number `o` is set. -/
def on (l : ArrayLayout) (o : ℕ) : Bool := l.bitMap.bits.toNat.testBit (BitMap.pos o)

theorem findLoop_cons {l : ArrayLayout} {comp : Comparable} {o : ℕ} {rest : List ℕ} {mf : ℕ}
    {res : List Result} (h1 : 1 ≤ o) (h2 : o ≤ maxBit) :
    findLoop l comp (o :: rest) mf res =
      if on l o = true then (do
        let (found, mf') ← compareRow l.data (u32 (o * l.totTypSz)) comp.sz comp.conds mf
        if found then
          require .outOfBounds (res.length < maxObjNum ∧ l.totTypSz ≤ bufferCap)
          findLoop l comp rest mf'
            (res ++ [⟨l.data.read (u32 (o * l.totTypSz)) l.totTypSz, o⟩])
        else findLoop l comp rest mf' res)
      else findLoop l comp rest mf res := by
  rw [findLoop, BitMap.isOn_eq _ h1 h2, ok_bind]
  rfl

/-- As long as the results fit, the search succeeds, keeps what it has found, and records every
row on which all conditions hold. -/
theorem findLoop_complete (l : ArrayLayout) (comp : Comparable) (idxs : List ℕ) (mf : ℕ)
    (res : List Result) (hidxs : ∀ o ∈ idxs, 1 ≤ o ∧ o ≤ maxBit)
    (hready : ∀ c ∈ comp.conds, c.Ready) (hmf : mf < comp.sz) (htot : l.totTypSz ≤ bufferCap)
    (hroom : res.length + idxs.countP (on l) ≤ maxObjNum) :
    ∃ res', findLoop l comp idxs mf res = .ok res' ∧ (∀ x ∈ res, x ∈ res') ∧
      ∀ o ∈ idxs, on l o = true →
        (∀ c ∈ comp.conds, c.Holds l.data (u32 (o * l.totTypSz))) →
        ⟨l.data.read (u32 (o * l.totTypSz)) l.totTypSz, o⟩ ∈ res' := by
  induction idxs generalizing mf res with
  | nil => exact ⟨res, rfl, fun x hx => hx, fun o ho => absurd ho (List.not_mem_nil)⟩
  | cons o idxs ih =>
    rw [List.forall_mem_cons] at hidxs
    rw [findLoop_cons hidxs.1.1 hidxs.1.2]
    rw [List.countP_cons] at hroom
    by_cases hon : on l o = true
    · rw [if_pos hon] at hroom ⊢
      obtain ⟨b, mf', hcmp, hmf'⟩ := compareRow_isOk l.data (u32 (o * l.totTypSz))
        hready hmf
      rw [hcmp, ok_bind]
      cases b with
      | true =>
        -- the counted bit leaves room for this result
        have hfits : res.length < maxObjNum ∧ l.totTypSz ≤ bufferCap := ⟨by omega, htot⟩
        simp only [if_true]
        rw [require_true hfits, ok_bind]
        obtain ⟨res', hres', hkeep, hfound⟩ := ih mf'
          (res ++ [⟨l.data.read (u32 (o * l.totTypSz)) l.totTypSz, o⟩]) hidxs.2 hmf'
          (by rw [List.length_append, List.length_singleton]; omega)
        refine ⟨res', hres', fun x hx => hkeep x (List.mem_append_left _ hx), ?_⟩
        refine List.forall_mem_cons.mpr ⟨fun _ _ => ?_, hfound⟩
        exact hkeep _ (List.mem_append_right _ (List.mem_singleton_self _))
      | false =>
        simp only [Bool.false_eq_true, if_false]
        obtain ⟨res', hres', hkeep, hfound⟩ := ih mf' res hidxs.2 hmf' (by omega)
        refine ⟨res', hres', hkeep, List.forall_mem_cons.mpr ⟨fun _ hholds => ?_, hfound⟩⟩
        -- all conditions hold here, so the comparison cannot have said no
        rw [compareRow_true hholds hmf (Nat.le_add_left _ _)] at hcmp
        cases hcmp
    · rw [if_neg hon]
      rw [if_neg hon, Nat.add_zero] at hroom
      obtain ⟨res', hres', hkeep, hfound⟩ := ih mf res hidxs.2 hmf hroom
      exact ⟨res', hres', hkeep, List.forall_mem_cons.mpr ⟨fun hon' => absurd hon' hon, hfound⟩⟩

/-- What a search for a single condition finds satisfies it. -/
theorem findLoop_single_sound {l : ArrayLayout} {c : Cond} {d : ColumnDef}
    (hdef : c.colDef = some d) (hsz : d.typsz ≤ 8) {idxs : List ℕ} {res res' : List Result}
    (hidxs : ∀ o ∈ idxs, 1 ≤ o ∧ o ≤ maxBit) (h : findLoop l ⟨[c]⟩ idxs 0 res = .ok res') :
    ∀ x ∈ res', x ∈ res ∨
      c.pVal.toList.take d.typsz = l.data.read (u32 (x.index * l.totTypSz) + d.loc) d.typsz := by
  induction idxs generalizing res with
  | nil =>
    cases h
    exact fun x hx => Or.inl hx
  | cons o idxs ih =>
    rw [List.forall_mem_cons] at hidxs
    rw [findLoop_cons hidxs.1.1 hidxs.1.2] at h
    have hcmp := compareRow_single l.data (u32 (o * l.totTypSz)) hdef hsz
    split_ifs at h with hon
    · change (compareRow l.data (u32 (o * l.totTypSz)) 1 [c] 0 >>= _) = _ at h
      rw [hcmp, ok_bind] at h
      by_cases hmatch : c.pVal.toList.take d.typsz
          = l.data.read (u32 (o * l.totTypSz) + d.loc) d.typsz
      · simp only [hmatch, decide_true, if_true] at h
        rw [bind_eq_ok] at h
        obtain ⟨_, _, h⟩ := h
        intro x hx
        rcases ih hidxs.2 h x hx with hx | hx
        · -- it was there before, or it is the row of this turn
          rcases List.mem_append.mp hx with hx | hx
          · exact Or.inl hx
          · rw [List.mem_singleton] at hx
            subst hx
            exact Or.inr hmatch
        · exact Or.inr hx
      · simp only [hmatch, decide_false, Bool.false_eq_true, if_false] at h
        exact ih hidxs.2 h
    · exact ih hidxs.2 h

/-- A search for a condition that holds everywhere records every object whose bit is set. -/
theorem findLoop_single_room {l : ArrayLayout} {c : Cond} {d : ColumnDef}
    (hdef : c.colDef = some d) (hsz : d.typsz ≤ 8)
    (hall : ∀ a, c.pVal.toList.take d.typsz = l.data.read a d.typsz) {idxs : List ℕ}
    {res res' : List Result} (hidxs : ∀ o ∈ idxs, 1 ≤ o ∧ o ≤ maxBit)
    (hres : res.length ≤ maxObjNum) (h : findLoop l ⟨[c]⟩ idxs 0 res = .ok res') :
    res.length + idxs.countP (on l) ≤ maxObjNum := by
  induction idxs generalizing res with
  | nil => simpa using hres
  | cons o idxs ih =>
    rw [List.forall_mem_cons] at hidxs
    rw [findLoop_cons hidxs.1.1 hidxs.1.2] at h
    rw [List.countP_cons]
    split_ifs at h with hon
    · change (compareRow l.data (u32 (o * l.totTypSz)) 1 [c] 0 >>= _) = _ at h
      rw [compareRow_single _ _ hdef hsz, ok_bind] at h
      -- the row matches, so the loop went on only because the result fitted
      have hmatch := hall (u32 (o * l.totTypSz) + d.loc)
      simp only [hmatch, decide_true, if_true] at h
      rw [bind_eq_ok] at h
      obtain ⟨_, hfits, h⟩ := h
      have hlt := (require_eq_ok.mp hfits).1
      have hle := ih hidxs.2 (by rw [List.length_append, List.length_singleton]; omega) h
      rw [List.length_append, List.length_singleton] at hle
      rw [if_pos hon]
      omega
    · rw [if_neg hon]
      exact ih hidxs.2 hres h

/-! ### The state after the rows are added -/

/-- The header and the row size are still the ones of `l₀`. -/
structure Loaded (l₀ l : ArrayLayout) : Prop where
  header : l.header = l₀.header
  totTypSz : l.totTypSz = l₀.totTypSz

theorem addEntry_loaded {l l' : ArrayLayout} {row : Mem} {sts : ℤ}
    (hadd : l.addEntry row = .ok (l', sts)) : Loaded l l' := by
  obtain ⟨_, _, _, _, _, _, _, rfl⟩ := addEntry_eq_ok.mp hadd
  exact ⟨rfl, rfl⟩

theorem loaded_of_exec {l₀ l : ArrayLayout} {ops : List LayoutOp} {outs : List LayoutOut}
    (h : exec ArrayLayout.step l₀ ops = .ok (l, outs)) : Loaded l₀ l := by
  refine exec_invariant (fun _ l => Loaded l₀ l) ?_ ⟨rfl, rfl⟩ h
  intro pre l op l' out hinv hstep
  rcases step_cases hstep with ⟨row, rfl, hadd⟩ | ⟨_, _, _, hheader, htot⟩
  · have hload := addEntry_loaded hadd
    exact ⟨hload.header.trans hinv.header, hload.totTypSz.trans hinv.totTypSz⟩
  · exact ⟨hheader.trans hinv.header, htot.trans hinv.totTypSz⟩

theorem adds_map_addEntry (rows : List Mem) : adds (rows.map .addEntry) = rows.length := by
  rw [adds, List.countP_map]
  exact List.countP_eq_length.mpr fun _ _ => rfl

theorem SlotInv.topSlot_eq {k : ℕ} {l : ArrayLayout} (h : SlotInv k l) :
    topSlot l = 31 - k := by
  have hcap := h.capacity
  have hmax : maxObjNum = 32 := rfl
  have hle := h.le
  rw [topSlot, h.pstack _ (by omega)]
  omega

theorem read_zeros (a n : ℕ) : Mem.read (fun _ => 0) a n = List.replicate n 0 := by
  rw [Mem.read, List.map_const', List.length_range]

theorem write_zeros (a n : ℕ) :
    Mem.write (fun _ => 0) a (Mem.read (fun _ => 0) 0 n) = fun _ => 0 := by
  funext i
  by_cases hi : a ≤ i ∧ i < a + n
  · obtain ⟨k, rfl⟩ := Nat.exists_eq_add_of_le hi.1
    rw [Mem.write_apply_of_mem _ _ (by rw [Mem.length_read]; omega), Mem.getElem_read]
  · exact Mem.write_apply_of_not_mem _ _ (by rw [Mem.length_read]; omega)

/-- What `addEntry` does to the data area: it writes the packed row into the slot. -/
theorem SlotInv.addEntry_data {k : ℕ} {l l' : ArrayLayout} {row : Mem} {sts : ℤ}
    (h : SlotInv k l) (hlt : l.header.offset l.header.sz < 4294967296)
    (hadd : l.addEntry row = .ok (l', sts)) :
    l'.data = l.data.write (u32 ((31 - k) * l.totTypSz))
      (row.read 0 (l.header.offset l.header.sz)) := by
  obtain ⟨_, stack, val, b, hpop, _, _, rfl⟩ := addEntry_eq_ok.mp hadd
  rw [h.pop_eq] at hpop
  cases hpop
  simp only [writeColumns_eq hlt]

/-- Rows of zeros leave a data area of zeros as it is. -/
theorem SlotInv.exec_zeros {l₀ : ArrayLayout} (h₀ : SlotInv 0 l₀)
    (hlt : l₀.header.offset l₀.header.sz < 4294967296) (hdata : l₀.data = fun _ => 0) {n : ℕ}
    {l : ArrayLayout} {outs : List LayoutOut}
    (h : Lab1.exec ArrayLayout.step l₀ (List.replicate n (.addEntry fun _ => 0)) = .ok (l, outs)) :
    l.data = fun _ => 0 := by
  induction n generalizing l outs with
  | zero =>
    cases h
    exact hdata
  | succ n ih =>
    rw [List.replicate_succ', exec_append_eq_ok] at h
    obtain ⟨l', outs', _, hpre, hlast, _⟩ := h
    obtain ⟨out, hstep, _⟩ := exec_singleton_eq_ok.mp hlast
    rcases step_cases hstep with ⟨row, hop, hadd⟩ | ⟨hop, _⟩
    · cases hop
      have hheader := (loaded_of_exec hpre).header
      rw [(h₀.exec hpre).addEntry_data (by rw [hheader]; exact hlt) hadd, ih hpre]
      exact write_zeros _ _
    · cases hop

/-- The number of set bits among the objects searched, when `k` slots are taken. -/
theorem SlotInv.countP_on {k : ℕ} {l : ArrayLayout} (h : SlotInv k l) :
    objIndices.countP (on l)
      = objIndices.countP fun o => decide (31 - k ≤ BitMap.pos o ∧ BitMap.pos o < 31) :=
  List.countP_congr fun o _ => by rw [on, h.bits]

theorem countP_le_of_le_23 : ∀ k ≤ 23,
    (objIndices.countP fun o => decide (31 - k ≤ BitMap.pos o ∧ BitMap.pos o < 31)) ≤ 31 := by
  decide

theorem lt_countP_of_24_le : ∀ k ≤ 31, 24 ≤ k →
    32 < objIndices.countP fun o => decide (31 - k ≤ BitMap.pos o ∧ BitMap.pos o < 31) := by
  decide

/-! ### When it works -/

/-- The size of a packed row, after the header has been copied into a layout. -/
theorem ArrayLayout.Built.offset_eq {alloc alloc' : MemAllocator} {shm : Chunk}
    {head : LayoutHeader} {sz : ℕ} {l : ArrayLayout} (h : Built alloc shm head sz alloc' l) :
    l.header.offset l.header.sz = head.offset head.sz := by
  rw [h.header_sz, h.cols.offset_eq le_rfl]

/-- A further row is packed into the slot that the next `addEntry` takes. -/
theorem ArrayLayout.Built.row_added {alloc alloc' : MemAllocator} {shm : Chunk}
    {head : LayoutHeader} {sz n : ℕ} {l₀ l₁ l₂ : ArrayLayout} {row : Mem} {sts : ℤ}
    (hbuilt : Built alloc shm head sz alloc' l₀) (htot : head.offset head.sz ≤ 1024)
    (hload : Loaded l₀ l₁) (hinv : SlotInv n l₁) (hadd : l₁.addEntry row = .ok (l₂, sts)) :
    l₂.totTypSz = head.offset head.sz ∧
      l₂.data = l₁.data.write (u32 ((31 - n) * head.offset head.sz))
        (row.read 0 (head.offset head.sz)) := by
  have hoff : l₁.header.offset l₁.header.sz = head.offset head.sz := by
    rw [hload.header, hbuilt.offset_eq]
  have htyp : l₁.totTypSz = head.offset head.sz := by
    rw [hload.totTypSz, hbuilt.totTypSz, u32_of_lt (by omega)]
  constructor
  · rw [(addEntry_loaded hadd).totTypSz, htyp]
  · rw [hinv.addEntry_data (by omega) hadd, hoff, htyp]

theorem storedIsFound_of_packed {head : LayoutHeader} {n : ℕ}
    (htot : head.offset head.sz ≤ 1024) (hn : n ≤ 22)
    (hloc : ∀ j < head.sz, 1 ≤ (head.columns j).typsz → (head.columns j).typsz ≤ 8 →
      (head.columns j).loc = head.offset j) : StoredIsFound head n := by
  intro alloc shm sz alloc' l₀ hnew _ rows hrows l₁ outs hrun row l₂ hadd comp hne hown
  have hbuilt := new_spec hnew
  have hinv₁ := hbuilt.slotInv.exec hrun
  rw [adds_map_addEntry, hrows] at hinv₁
  obtain ⟨_, hinv₂⟩ := hinv₁.addEntry hadd
  obtain ⟨htyp, hdata⟩ := hbuilt.row_added htot (loaded_of_exec hrun) hinv₁ hadd
  -- the row is in slot `31 - n`, whose object number is the same
  have hslot : 31 - n ∈ objIndices := mem_objIndices.mpr ⟨by omega, by show _ < 49; omega⟩
  have hpos : BitMap.pos (31 - n) = 30 - n := by show (31 - n - 1) % 32 = _; omega
  have hon : on l₂ (31 - n) = true := by
    rw [on, hinv₂.bits, hpos, decide_eq_true_eq]
    omega
  have hroom : objIndices.countP (on l₂) ≤ 31 := by
    rw [hinv₂.countP_on]
    exact countP_le_of_le_23 _ (by omega)
  obtain ⟨res, hres, _, hfound⟩ := findLoop_complete l₂ comp objIndices 0 []
    objIndices_le
    (fun c hc => (hown c hc).ready) (List.length_pos_iff.mpr hne)
    (by rw [htyp]; exact htot) (by rw [List.length_nil]; show _ ≤ 32; omega)
  refine ⟨res, ?_, ?_⟩
  · have hsz : 0 < l₂.stack.getSz := by rw [Stack.getSz, hinv₂.stack_sz]; decide
    rw [findEntry, require_true hsz, ok_bind, hres]
  · -- in the data area the row is packed, and its columns are where their `loc` says
    have hholds : ∀ c ∈ comp.conds, c.Holds l₂.data (u32 ((31 - n) * l₂.totTypSz)) := by
      intro c hc
      obtain ⟨j, hj, hdef, hsz, htake⟩ := hown c hc
      refine ⟨_, hdef, hsz, ?_⟩
      rcases Nat.eq_zero_or_pos (head.columns j).typsz with hzero | hpos
      · rw [hzero, List.take_zero, Mem.read_zero]
      · rw [htake, hloc j hj hpos hsz, hdata, htyp]
        exact (Mem.read_write_read _ _ (head.offset_add_typsz_le hj)).symm
    have hmem := hfound _ hslot hon hholds
    have hrow : l₂.data.read (u32 ((31 - n) * l₂.totTypSz)) l₂.totTypSz
        = row.read 0 (head.offset head.sz) := by
      rw [hdata, htyp]
      exact Mem.read_write_read _ _ (k := 0) (Nat.zero_add _).le
    rw [hrow] at hmem
    rw [hinv₁.topSlot_eq]
    exact hmem

/-! ### When it does not -/

/-- A layout of zeros with `n` rows of zeros, and one more row added to it. -/
theorem exists_zero_layout {head : LayoutHeader} {n : ℕ} (hsz : head.sz < maxColNum)
    (hnames : ∀ i < head.sz, (head.columns i).name.sz ≤ bufferCap)
    (htot : head.offset head.sz ≤ 1024) (hn : n < 31) (row : Mem) (sz : ℕ) :
    ∃ alloc' l₀ l₁ outs l₂, ArrayLayout.new freshAlloc zeroChunk head sz = .ok (alloc', l₀) ∧
      exec ArrayLayout.step l₀ ((List.replicate n fun _ => 0).map .addEntry) = .ok (l₁, outs) ∧
      l₁.addEntry row = .ok (l₂, 0) ∧ SlotInv n l₁ ∧ l₂.totTypSz = head.offset head.sz ∧
      l₂.data = Mem.write (fun _ => 0) ((31 - n) * head.offset head.sz)
        (row.read 0 (head.offset head.sz)) := by
  obtain ⟨alloc', l₀, hnew⟩ :=
    new_isOk freshAlloc zeroChunk head sz
      (Nat.add_pos_left (by decide) _) hsz hnames
  have hbuilt := new_spec hnew
  obtain ⟨l₁, outs, hrun, hinv⟩ := hbuilt.slotInv.exec_adds_isOk
    (List.replicate n fun _ => 0) (by rw [List.length_replicate]; omega)
  rw [List.length_replicate, Nat.zero_add] at hinv
  obtain ⟨l₂, hadd⟩ := hinv.addEntry_isOk hn row
  obtain ⟨htyp, hdata⟩ := hbuilt.row_added htot (loaded_of_exec hrun) hinv hadd
  have hzero : l₁.data = fun _ => 0 := by
    rw [List.map_replicate] at hrun
    exact hbuilt.slotInv.exec_zeros (by rw [hbuilt.offset_eq]; omega) hbuilt.data hrun
  refine ⟨alloc', l₀, l₁, outs, l₂, hnew, hrun, hadd, hinv, htyp, ?_⟩
  have hle : (31 - n) * head.offset head.sz ≤ 31 * 1024 := Nat.mul_le_mul (by omega) htot
  rw [hdata, u32_of_lt (by omega), hzero]

section Converse

variable {head : LayoutHeader} {n j : ℕ} (hsz : head.sz < maxColNum)
  (hnames : ∀ i < head.sz, (head.columns i).name.sz ≤ bufferCap)
  (htot : head.offset head.sz ≤ 1024) (hn : n < 31) (h : StoredIsFound head n)
  (hj : j < head.sz) (h8 : (head.columns j).typsz ≤ 8)

include hsz hnames htot hn h hj h8

/-- A column that is found by its bytes has its packed position as `loc`. -/
theorem loc_eq_of_storedIsFound (h1 : 1 ≤ (head.columns j).typsz) :
    (head.columns j).loc = head.offset j := by
  by_contra hne
  -- a row of zeros with a single `1`, the first byte of the column
  let row : Mem := fun i => if i = head.offset j then 1 else 0
  obtain ⟨alloc', l₀, l₁, outs, l₂, hnew, hrun, hadd, hinv, htyp, hdata⟩ :=
    exists_zero_layout hsz hnames htot hn row (maxObjNum * head.offset head.sz)
  let c : Cond := ⟨some (head.columns j), RawVal.ofMem row (head.offset j)⟩
  have hown : OwnBytes head row c := ownBytes_ofMem row hj h8
  obtain ⟨res, hfind, hmem⟩ := h _ _ _ _ _ hnew le_rfl _ List.length_replicate _ _ hrun row l₂
    hadd ⟨[c]⟩ (List.cons_ne_nil _ _) fun c' hc' => by rwa [List.mem_singleton.mp hc']
  rw [findEntry, bind_eq_ok] at hfind
  obtain ⟨_, _, hloop⟩ := hfind
  have hsound := findLoop_single_sound (d := head.columns j) rfl h8
    objIndices_le hloop _ hmem
  rcases hsound with hx | hx
  · exact absurd hx List.not_mem_nil
  · have hle : (31 - n) * head.offset head.sz ≤ 31 * 1024 := Nat.mul_le_mul (by omega) htot
    simp only [c, hinv.topSlot_eq, htyp, u32_of_lt (Nat.lt_of_le_of_lt hle (by decide))] at hx
    rw [RawVal.take_ofMem _ _ h8, Mem.read_eq_iff] at hx
    have hfirst := hx 0 h1
    have hone : row (head.offset j + 0) = 1 := if_pos (Nat.add_zero _)
    -- the search looks at a byte of the row besides the `1`, or behind the row
    have hzero : l₂.data ((31 - n) * head.offset head.sz + (head.columns j).loc + 0) = 0 := by
      rw [Nat.add_zero, hdata]
      by_cases hlt : (head.columns j).loc < head.offset head.sz
      · rw [Mem.write_apply_of_mem _ _ (by rw [Mem.length_read]; exact hlt), Mem.getElem_read,
          Nat.zero_add]
        exact if_neg hne
      · exact Mem.write_apply_of_not_mem _ _ (by rw [Mem.length_read]; omega)
    rw [hone, hzero] at hfirst
    exact absurd hfirst (by decide)

/-- With 23 rows before it, a row of zeros among zeros has too many matches to be found. -/
theorem le_of_storedIsFound : n ≤ 22 := by
  by_contra hge
  obtain ⟨alloc', l₀, l₁, outs, l₂, hnew, hrun, hadd, hinv, htyp, hdata⟩ :=
    exists_zero_layout hsz hnames htot hn (fun _ => 0) (maxObjNum * head.offset head.sz)
  rw [write_zeros] at hdata
  let c : Cond := ⟨some (head.columns j), RawVal.ofMem (fun _ => 0) (head.offset j)⟩
  have hown : OwnBytes head (fun _ => 0) c := ownBytes_ofMem _ hj h8
  obtain ⟨res, hfind, _⟩ := h _ _ _ _ _ hnew le_rfl _ List.length_replicate _ _ hrun _ l₂
    hadd ⟨[c]⟩ (List.cons_ne_nil _ _) fun c' hc' => by rwa [List.mem_singleton.mp hc']
  rw [findEntry, bind_eq_ok] at hfind
  obtain ⟨_, _, hloop⟩ := hfind
  -- everything is zero, also behind the last slot
  have hall : ∀ a, c.pVal.toList.take (head.columns j).typsz
      = l₂.data.read a (head.columns j).typsz := by
    intro a
    rw [RawVal.take_ofMem _ _ h8, hdata, read_zeros, read_zeros]
  have hroom := findLoop_single_room (d := head.columns j) rfl h8 hall
    objIndices_le (Nat.zero_le _) hloop
  have hcount := lt_countP_of_24_le (n + 1) (by omega) (by omega)
  rw [← (hinv.addEntry hadd).2.countP_on] at hcount
  have hmax : maxObjNum = 32 := rfl
  rw [List.length_nil] at hroom
  omega

end Converse

/-- Behind 31 rows no row is stored. -/
theorem storedIsFound_of_31_le {head : LayoutHeader} {n : ℕ} (hn : 31 ≤ n) :
    StoredIsFound head n := by
  intro alloc shm sz alloc' l₀ hnew _ rows hrows l₁ outs hrun row l₂ hadd
  have hinv := (new_spec hnew).slotInv.exec hrun
  rw [adds_map_addEntry, hrows] at hinv
  have hlt := (hinv.addEntry hadd).1
  omega

/-- **Store and find.**  For a header that the constructor accepts, of at most 1024 bytes a row, a
row stored after `n` others is always found by its own bytes if and only if no row can be stored
there (`31 ≤ n`), or there is no column to search by, or `n ≤ 22` and every such column (the empty
ones aside) has its packed position as `loc`. -/
theorem storedIsFound_iff {head : LayoutHeader} {n : ℕ}
    (hacc : ∃ alloc shm sz r, ArrayLayout.new alloc shm head sz = .ok r)
    (htot : head.offset head.sz ≤ 1024) :
    StoredIsFound head n ↔ 31 ≤ n ∨ (∀ j < head.sz, 8 < (head.columns j).typsz) ∨
      (n ≤ 22 ∧ ∀ j < head.sz, 1 ≤ (head.columns j).typsz → (head.columns j).typsz ≤ 8 →
        (head.columns j).loc = head.offset j) := by
  obtain ⟨alloc, shm, sz, ⟨alloc', l⟩, hnew⟩ := hacc
  have hbuilt := new_spec hnew
  constructor
  · intro h
    by_cases hn : 31 ≤ n
    · exact Or.inl hn
    by_cases hcol : ∀ j < head.sz, 8 < (head.columns j).typsz
    · exact Or.inr (Or.inl hcol)
    · push Not at hcol
      obtain ⟨j, hj, h8⟩ := hcol
      refine Or.inr (Or.inr ⟨?_, fun i hi h1 hi8 => ?_⟩)
      · exact le_of_storedIsFound hbuilt.head_sz hbuilt.names htot (by omega) h hj h8
      · exact loc_eq_of_storedIsFound hbuilt.head_sz hbuilt.names htot (by omega) h hi hi8 h1
  · rintro (hn | hnone | ⟨hle, hloc⟩)
    · exact storedIsFound_of_31_le hn
    · -- no list of conditions to search with
      intro alloc shm sz alloc' l₀ _ _ rows _ l₁ outs _ row l₂ _ comp hne hown
      obtain ⟨c, hc⟩ := List.exists_mem_of_ne_nil _ hne
      obtain ⟨j, hj, _, h8, _⟩ := hown c hc
      have hgt := hnone j hj
      omega
    · exact storedIsFound_of_packed htot hle hloc

/-! ### Two headers -/

/-- Two `int` columns, `col1` and `col2`, with the given `loc` values. -/
def twoInts (loc₁ loc₂ : ℕ) : LayoutHeader where
  sz := 2
  columns i := if i = 0 then ⟨⟨4, Mem.ofList [0x63, 0x6f, 0x6c, 0x31]⟩, loc₁, 4, .INT⟩
    else ⟨⟨4, Mem.ofList [0x63, 0x6f, 0x6c, 0x32]⟩, loc₂, 4, .INT⟩

theorem twoInts_names (loc₁ loc₂ : ℕ) :
    ∀ i < (twoInts loc₁ loc₂).sz, ((twoInts loc₁ loc₂).columns i).name.sz ≤ bufferCap := by
  intro i _
  have hle : (4 : ℕ) ≤ bufferCap := by decide
  simp only [twoInts]
  split_ifs
  · exact hle
  · exact hle

theorem storedIsFound_twoInts : StoredIsFound (twoInts 0 4) 3 := by
  have hloc : ∀ j < (twoInts 0 4).sz, 1 ≤ ((twoInts 0 4).columns j).typsz →
      ((twoInts 0 4).columns j).typsz ≤ 8 →
      ((twoInts 0 4).columns j).loc = (twoInts 0 4).offset j := by decide
  obtain ⟨alloc', l₀, hnew⟩ := new_isOk freshAlloc zeroChunk (twoInts 0 4)
    maxArrayLaySz (Nat.add_pos_left (by decide) _)
    (by decide : (twoInts 0 4).sz < maxColNum)
    (twoInts_names 0 4)
  exact (storedIsFound_iff ⟨_, _, _, _, hnew⟩ (by decide)).mpr (Or.inr (Or.inr ⟨by decide, hloc⟩))

/-- With the ordinal numbers of the columns as `loc` values, as the unit tests have them, a row
is not found by its second column. -/
theorem not_storedIsFound_ordinals : ¬StoredIsFound (twoInts 0 1) 0 := by
  intro h
  have hloc := loc_eq_of_storedIsFound (j := 1) (by decide) (twoInts_names 0 1) (by decide)
    (by decide) h (by decide) (by decide) (by decide)
  exact absurd hloc (by decide)

end Lab1.MemDb
