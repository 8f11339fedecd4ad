import Lab1.MemDb.Equiv.Matching

/-!
# Which bytes `updateEntry` changes

`updateEntry` moves one pointer over the selected rows and their fields and never sets it back: each
row's address and each column's `loc` is added to where the pointer stands.  So only the first field
of the first selected row is written where it belongs.  And what is counted are fields, not rows.

`exactUpdate_iff` says which updates are right: those of no row, and those with one compared column
of one row; of several rows only where all of it, the misplaced bytes included, was there already.
-/

namespace Lab1.MemDb

open ArrayLayout

/-! ### The property -/

/-- Where column `d` of the row in slot `s` starts. -/
def ArrayLayout.fieldAddr (l : ArrayLayout) (d : ColumnDef) (s : ℕ) : ℕ := l.rowAddr s + d.loc

/-- What `updateEntry` should do to the rows `res`, which `findEntry` selected: every compared
column of these rows gets the bytes of its buffer, nothing else changes, and the number of the rows
is returned. -/
def ExactUpdate (l : ArrayLayout) (comp : Comparable) (updBuff : List BufferSz)
    (res : List Result) : Prop :=
  ∃ data, l.updateEntry comp updBuff = .ok ({ l with data }, res.length) ∧
    (∀ r ∈ res, ∀ p ∈ comp.conds.zip updBuff, ∀ d, p.1.colDef = some d →
      data.read (l.fieldAddr d r.index) p.2.sz = p.2.bytes) ∧
    ∀ a, (∀ r ∈ res, ∀ p ∈ comp.conds.zip updBuff, ∀ d, p.1.colDef = some d →
      a < l.fieldAddr d r.index ∨ l.fieldAddr d r.index + p.2.sz ≤ a) → data a = l.data a

/-! ### The rows that are selected -/

theorem findLoop_append {l : ArrayLayout} {comp : Comparable} {idxs : List ℕ} {mf : ℕ}
    {res res' : List Result} (hidxs : ∀ o ∈ idxs, 1 ≤ o ∧ o ≤ maxBit)
    (h : findLoop l comp idxs mf res = .ok res') :
    ∃ os, os.Sublist idxs ∧ res' = res ++ os.map l.rowAt ∧ (os ≠ [] → l.totTypSz ≤ bufferCap) := by
  induction idxs generalizing mf res with
  | nil =>
    cases h
    exact ⟨[], List.Sublist.refl _, by simp, fun hne => absurd rfl hne⟩
  | cons o idxs ih =>
    rw [List.forall_mem_cons] at hidxs
    rw [findLoop_cons hidxs.1.1 hidxs.1.2] at h
    split_ifs at h with hon
    · obtain ⟨⟨found, mf'⟩, _, h⟩ := bind_eq_ok.mp h
      simp only at h
      split_ifs at h with hfound
      · -- the row is reported, so it fits
        obtain ⟨_, hfits, h⟩ := bind_eq_ok.mp h
        obtain ⟨os, hsub, rfl, _⟩ := ih hidxs.2 h
        refine ⟨o :: os, hsub.cons_cons o, ?_, fun _ => (require_eq_ok.mp hfits).2⟩
        rw [List.append_assoc, List.map_cons]
        rfl
      · obtain ⟨os, hsub, hres, hcap⟩ := ih hidxs.2 h
        exact ⟨os, hsub.cons o, hres, hcap⟩
    · obtain ⟨os, hsub, hres, hcap⟩ := ih hidxs.2 h
      exact ⟨os, hsub.cons o, hres, hcap⟩

/-- The selected rows have increasing numbers from `1` to `48`, and fit the result buffer. -/
structure Selected (l : ArrayLayout) (res : List Result) : Prop where
  sorted : (res.map Result.index).Pairwise (· < ·)
  bounds : ∀ r ∈ res, 1 ≤ r.index ∧ r.index ≤ 48
  totTypSz : res ≠ [] → l.totTypSz ≤ 1024

theorem selected_of_findEntry {l : ArrayLayout} {comp : Comparable} {res : List Result}
    (h : l.findEntry comp = .ok res) : Selected l res := by
  obtain ⟨os, hsub, rfl, hcap⟩ := findLoop_append objIndices_le
    (findEntry_eq_ok.mp h).2
  have hindex : (os.map l.rowAt).map Result.index = os := by
    rw [List.map_map]
    exact List.map_id os
  refine ⟨?_, ?_, ?_⟩
  · rw [List.nil_append, hindex]
    exact List.Pairwise.sublist hsub (by unfold objIndices; exact List.pairwise_lt_range' ..)
  · intro r hr
    obtain ⟨o, ho, rfl⟩ := List.mem_map.mp hr
    have hmem := mem_objIndices.mp (hsub.subset ho)
    have hmax : maxBit = 49 := rfl
    exact ⟨hmem.1, by show o ≤ 48; omega⟩
  · intro hne
    exact hcap fun hnil => hne (by rw [hnil]; rfl)

/-- The rows lie one after the other. -/
theorem Selected.rowAddr_eq {l : ArrayLayout} {res : List Result} (h : Selected l res) {r : Result}
    (hr : r ∈ res) : l.rowAddr r.index = r.index * l.totTypSz := by
  have hle : r.index * l.totTypSz ≤ 48 * 1024 :=
    Nat.mul_le_mul (h.bounds r hr).2 (h.totTypSz (List.ne_nil_of_mem hr))
  exact u32_of_lt (by omega)

/-- A field lies behind the rows before its own. -/
theorem Selected.totTypSz_le_fieldAddr {l : ArrayLayout} {res : List Result} (h : Selected l res)
    (d : ColumnDef) {r : Result} (hr : r ∈ res) : l.totTypSz ≤ l.fieldAddr d r.index := by
  have hmul := Nat.mul_le_mul_right l.totTypSz (h.bounds r hr).1
  rw [fieldAddr, h.rowAddr_eq hr]
  omega

/-- The same column of two rows. -/
theorem Selected.fieldAddr_add_le {l : ArrayLayout} {res : List Result} (h : Selected l res)
    (d : ColumnDef) {r r' : Result} (hr : r ∈ res) (hr' : r' ∈ res) (hlt : r.index < r'.index) :
    l.fieldAddr d r.index + l.totTypSz ≤ l.fieldAddr d r'.index := by
  have hmul := Nat.mul_le_mul_right l.totTypSz hlt
  rw [Nat.succ_mul] at hmul
  rw [fieldAddr, fieldAddr, h.rowAddr_eq hr, h.rowAddr_eq hr']
  omega

/-! ### Counting -/

theorem updateRow_count {cs : List Cond} {bs : List BufferSz} {st st' : Mem × ℕ × ℕ}
    (h : updateRow cs bs st = .ok st') : st'.2.2 = st.2.2 + cs.length := by
  induction cs generalizing bs st with
  | nil =>
    cases h
    simp
  | cons c cs ih =>
    rcases bs with _ | ⟨b, bs⟩
    · cases h
    · rw [updateRow] at h
      rcases hdef : c.colDef with _ | d
      · simp [hdef] at h
      · simp only [hdef] at h
        obtain ⟨_, _, h⟩ := bind_eq_ok.mp h
        rw [ih h, List.length_cons]
        show st.2.2 + 1 + cs.length = _
        omega

/-- What is done for one selected row. -/
def updateResult (l : ArrayLayout) (comp : Comparable) (updBuff : List BufferSz)
    (st : Mem × ℕ × ℕ) (r : Result) : Except Fault (Mem × ℕ × ℕ) :=
  updateRow comp.conds updBuff (st.1, st.2.1 + l.rowAddr r.index, st.2.2)

theorem updateEntry_eq {l : ArrayLayout} {comp : Comparable} (updBuff : List BufferSz)
    {res : List Result} (hfind : l.findEntry comp = .ok res) (hne : res ≠ []) :
    l.updateEntry comp updBuff = (do
      let st ← res.foldlM (updateResult l comp updBuff) (l.data, 0, 0)
      return ({ l with data := st.1 }, st.2.2)) := by
  have hlen : res.length ≠ 0 := (List.length_pos_iff.mpr hne).ne'
  unfold updateEntry
  rw [require_true (findEntry_eq_ok.mp hfind).1, ok_bind, hfind, ok_bind, if_neg hlen]
  rfl

theorem updateEntry_of_nil {l : ArrayLayout} {comp : Comparable} (updBuff : List BufferSz)
    (hfind : l.findEntry comp = .ok []) : l.updateEntry comp updBuff = .ok (l, 0) := by
  unfold updateEntry
  rw [require_true (findEntry_eq_ok.mp hfind).1, ok_bind, hfind, ok_bind]
  rfl

theorem foldlM_count {l : ArrayLayout} {comp : Comparable} {updBuff : List BufferSz}
    {res : List Result} {st st' : Mem × ℕ × ℕ}
    (h : res.foldlM (updateResult l comp updBuff) st = .ok st') :
    st'.2.2 = st.2.2 + res.length * comp.sz := by
  induction res generalizing st with
  | nil =>
    cases h
    simp
  | cons r res ih =>
    rw [List.foldlM_cons] at h
    obtain ⟨st₁, hrow, h⟩ := bind_eq_ok.mp h
    have hcount := updateRow_count hrow
    rw [ih h, hcount, List.length_cons, Nat.succ_mul]
    show st.2.2 + comp.sz + _ = _
    omega

/-- Every compared column of every selected row counts. -/
theorem ExactUpdate.sz_eq_one {l : ArrayLayout} {comp : Comparable} {updBuff : List BufferSz}
    {res : List Result} (h : ExactUpdate l comp updBuff res)
    (hfind : l.findEntry comp = .ok res) (hne : res ≠ []) : comp.sz = 1 := by
  obtain ⟨data, hupd, _, _⟩ := h
  rw [updateEntry_eq updBuff hfind hne] at hupd
  obtain ⟨st, hfold, hpure⟩ := bind_eq_ok.mp hupd
  have hcount : st.2.2 = res.length := congrArg Prod.snd (Except.ok.inj hpure)
  have hprod := foldlM_count hfold
  rw [hcount, Nat.zero_add] at hprod
  exact Nat.eq_of_mul_eq_mul_left (List.length_pos_iff.mpr hne)
    (hprod.symm.trans (Nat.mul_one _).symm)

/-! ### A single column -/

/-- The places that a pointer which starts at `vp` and is moved on by each of `gs` comes to. -/
def sumsFrom (vp : ℕ) : List ℕ → List ℕ
  | [] => []
  | g :: gs => (vp + g) :: sumsFrom (vp + g) gs

theorem mem_sumsFrom {vp a : ℕ} {gs : List ℕ} :
    a ∈ sumsFrom vp gs ↔ ∃ i < gs.length, a = vp + (gs.take (i + 1)).sum := by
  induction gs generalizing vp with
  | nil => simp [sumsFrom]
  | cons g gs ih =>
    rw [sumsFrom, List.mem_cons, ih]
    constructor
    · rintro (rfl | ⟨i, hi, rfl⟩)
      · exact ⟨0, Nat.succ_pos _, by simp⟩
      · exact ⟨i + 1, Nat.succ_lt_succ hi, by simp [Nat.add_assoc]⟩
    · rintro ⟨_ | i, hi, rfl⟩
      · exact Or.inl (by simp)
      · exact Or.inr ⟨i, Nat.lt_of_succ_lt_succ hi, by simp [Nat.add_assoc]⟩

theorem le_of_mem_sumsFrom {vp a len : ℕ} {gs : List ℕ} (hlen : ∀ g ∈ gs, len ≤ g)
    (ha : a ∈ sumsFrom vp gs) : vp + len ≤ a := by
  induction gs generalizing vp with
  | nil => cases ha
  | cons g gs ih =>
    have hg := hlen g List.mem_cons_self
    rcases List.mem_cons.mp ha with rfl | ha
    · omega
    · have hle := ih (fun g' hg' => hlen g' (List.mem_cons_of_mem _ hg')) ha
      omega

theorem pairwise_sumsFrom {vp len : ℕ} {gs : List ℕ} (hlen : ∀ g ∈ gs, len ≤ g) :
    (sumsFrom vp gs).Pairwise fun a b => a + len ≤ b := by
  induction gs generalizing vp with
  | nil => exact List.Pairwise.nil
  | cons g gs ih =>
    have hlen := List.forall_mem_cons.mp hlen
    exact List.pairwise_cons.mpr ⟨fun b hb => le_of_mem_sumsFrom hlen.2 hb, ih hlen.2⟩

/-- Nothing is written to the field of the second row: the pointer has come past it by then. -/
theorem Selected.read_second {l : ArrayLayout} {r₀ r₁ : Result} {rest : List Result}
    (hsel : Selected l (r₀ :: r₁ :: rest)) {d : ColumnDef} {b : BufferSz}
    (hb : b.sz ≤ l.totTypSz) :
    (l.data.writeAll (sumsFrom 0 ((r₀ :: r₁ :: rest).map fun r => l.fieldAddr d r.index))
      b.bytes).read (l.fieldAddr d r₁.index) b.sz = l.data.read (l.fieldAddr d r₁.index) b.sz := by
  have hmem₀ : r₀ ∈ r₀ :: r₁ :: rest := List.mem_cons_self
  have hmem₁ : r₁ ∈ r₀ :: r₁ :: rest := List.mem_cons_of_mem _ List.mem_cons_self
  have hlt : r₀.index < r₁.index :=
    List.rel_of_pairwise_cons hsel.sorted (List.mem_map_of_mem List.mem_cons_self)
  have hfirst := hsel.totTypSz_le_fieldAddr d hmem₀
  have hnext := hsel.fieldAddr_add_le d hmem₀ hmem₁ hlt
  have hbytes : b.bytes.length = b.sz := BufferSz.length_bytes b
  apply Mem.read_writeAll_of_apart
  intro a ha
  rw [List.map_cons, List.map_cons, sumsFrom, sumsFrom] at ha
  rcases List.mem_cons.mp ha with rfl | ha
  · right
    omega
  · left
    rcases List.mem_cons.mp ha with rfl | ha
    · omega
    · have hle := le_of_mem_sumsFrom (fun g _ => Nat.zero_le g) ha
      omega

section Single

variable {l : ArrayLayout} {comp : Comparable} {c : Cond} {d : ColumnDef} {b : BufferSz}
  {res : List Result} (hconds : comp.conds = [c]) (hdef : c.colDef = some d)

include hconds hdef

theorem updateResult_single (hcap : b.sz ≤ bufferCap) (st : Mem × ℕ × ℕ) (r : Result) :
    updateResult l comp [b] st r =
      .ok (st.1.write (st.2.1 + l.fieldAddr d r.index) b.bytes,
        st.2.1 + l.fieldAddr d r.index, st.2.2 + 1) := by
  unfold updateResult
  rw [hconds, updateRow]
  simp only [hdef, updateRow]
  rw [require_true hcap, ok_bind, fieldAddr, Nat.add_assoc]

theorem foldlM_single (hcap : b.sz ≤ bufferCap) (st : Mem × ℕ × ℕ) :
    res.foldlM (updateResult l comp [b]) st =
      .ok (st.1.writeAll (sumsFrom st.2.1 (res.map fun r => l.fieldAddr d r.index)) b.bytes,
        st.2.1 + (res.map fun r => l.fieldAddr d r.index).sum, st.2.2 + res.length) := by
  induction res generalizing st with
  | nil => rfl
  | cons r res ih =>
    rw [List.foldlM_cons, updateResult_single hconds hdef hcap, ok_bind, ih]
    simp only [List.map_cons, sumsFrom, List.sum_cons, List.length_cons, ← Nat.add_assoc,
      Nat.add_right_comm _ 1]
    rfl

/-- **What an update of one column does**: the bytes are written wherever the pointer comes to. -/
theorem updateEntry_single (hcap : b.sz ≤ bufferCap) (hfind : l.findEntry comp = .ok res) :
    l.updateEntry comp [b] = .ok ({ l with
      data := l.data.writeAll (sumsFrom 0 (res.map fun r => l.fieldAddr d r.index)) b.bytes },
      res.length) := by
  rcases eq_or_ne res [] with rfl | hne
  · exact updateEntry_of_nil [b] hfind
  · rw [updateEntry_eq [b] hfind hne, foldlM_single hconds hdef hcap, ok_bind]
    simp only [Nat.zero_add]
    rfl

theorem exactUpdate_single (hcap : b.sz ≤ bufferCap) (hfind : l.findEntry comp = .ok res) :
    ExactUpdate l comp [b] res ↔
      (∀ r ∈ res, (l.data.writeAll (sumsFrom 0 (res.map fun r => l.fieldAddr d r.index))
        b.bytes).read (l.fieldAddr d r.index) b.sz = b.bytes) ∧
      ∀ a, (∀ r ∈ res, a < l.fieldAddr d r.index ∨ l.fieldAddr d r.index + b.sz ≤ a) →
        l.data.writeAll (sumsFrom 0 (res.map fun r => l.fieldAddr d r.index)) b.bytes a
          = l.data a := by
  have hzip : comp.conds.zip [b] = [(c, b)] := by rw [hconds]; rfl
  have hfield : ∀ {P : ColumnDef → Prop}, (∀ d', c.colDef = some d' → P d') ↔ P d := by
    intro P
    simp [hdef]
  unfold ExactUpdate
  simp only [hzip, List.forall_mem_singleton, hfield]
  constructor
  · rintro ⟨data, hupd, hdata, hframe⟩
    rw [updateEntry_single hconds hdef hcap hfind] at hupd
    obtain rfl := congrArg (fun p => p.1.data) (Except.ok.inj hupd)
    exact ⟨hdata, hframe⟩
  · rintro ⟨hdata, hframe⟩
    exact ⟨_, updateEntry_single hconds hdef hcap hfind, hdata, hframe⟩

/-- Every selected row has the bytes that were asked for. -/
theorem read_selected (hsz : d.typsz ≤ 8) (hfind : l.findEntry comp = .ok res) {r : Result}
    (hr : r ∈ res) :
    l.data.read (l.fieldAddr d r.index) d.typsz = c.pVal.toList.take d.typsz := by
  have hcomp : comp = ⟨[c]⟩ := by rw [← hconds]
  rw [hcomp] at hfind
  rcases findLoop_single_sound hdef hsz objIndices_le
    (findEntry_eq_ok.mp hfind).2 r hr with hnil | hread
  · exact absurd hnil List.not_mem_nil
  · exact hread.symm

/-- In a column that is asked for, the selected rows have the same bytes. -/
theorem read_selected_congr (hsz : d.typsz ≤ 8) (hfind : l.findEntry comp = .ok res) {r r' : Result}
    (hr : r ∈ res) (hr' : r' ∈ res) :
    l.data.read (l.fieldAddr d r.index) d.typsz = l.data.read (l.fieldAddr d r'.index) d.typsz :=
  (read_selected hconds hdef hsz hfind hr).trans (read_selected hconds hdef hsz hfind hr').symm

/-- An update of several rows that is right changes nothing: the second row has the new bytes
already, and as a selected row has the same bytes as the others. -/
theorem read_of_exactUpdate (hsz : d.typsz ≤ 8) (hb : b.sz = d.typsz)
    (hin : d.loc + d.typsz ≤ l.totTypSz) (hfind : l.findEntry comp = .ok res)
    (hlen : 2 ≤ res.length) (h : ExactUpdate l comp [b] res) :
    (∀ r ∈ res, l.data.read (l.fieldAddr d r.index) b.sz = b.bytes) ∧
      ∀ a ∈ sumsFrom 0 (res.map fun r => l.fieldAddr d r.index),
        l.data.read a b.sz = b.bytes := by
  have hsel := selected_of_findEntry hfind
  have hcap : b.sz ≤ bufferCap := by rw [hb]; exact le_trans hsz (by decide)
  obtain ⟨hdata, hframe⟩ := (exactUpdate_single hconds hdef hcap hfind).mp h
  have hbytes : b.bytes.length = b.sz := BufferSz.length_bytes b
  have hold : ∀ r ∈ res, l.data.read (l.fieldAddr d r.index) b.sz = b.bytes := by
    obtain ⟨r₀, r₁, rest, rfl⟩ : ∃ r₀ r₁ rest, res = r₀ :: r₁ :: rest := by
      rcases res with _ | ⟨r₀, _ | ⟨r₁, rest⟩⟩
      · simp at hlen
      · simp at hlen
      · exact ⟨r₀, r₁, rest, rfl⟩
    have hmem₁ : r₁ ∈ r₀ :: r₁ :: rest := List.mem_cons_of_mem _ List.mem_cons_self
    have hsecond : l.data.read (l.fieldAddr d r₁.index) b.sz = b.bytes := by
      rw [← hsel.read_second (by omega)]
      exact hdata r₁ hmem₁
    intro r hr
    rw [hb, read_selected_congr hconds hdef hsz hfind hr hmem₁, ← hb, hsecond]
  have hsame : l.data.writeAll (sumsFrom 0 (res.map fun r => l.fieldAddr d r.index)) b.bytes
      = l.data :=
    Mem.eq_of_read_eq (fun r hr => (hdata r hr).trans (hold r hr).symm) hframe
  have hlow : ∀ g ∈ res.map fun r => l.fieldAddr d r.index, b.bytes.length ≤ g := by
    intro g hg
    obtain ⟨r, hr, rfl⟩ := List.mem_map.mp hg
    have := hsel.totTypSz_le_fieldAddr d hr
    omega
  refine ⟨hold, fun a ha => ?_⟩
  rw [← hbytes, ← hsame]
  exact Mem.read_writeAll (pairwise_sumsFrom hlow) ha

theorem exactUpdate_single_iff (hsz : d.typsz ≤ 8) (hb : b.sz = d.typsz)
    (hin : d.loc + d.typsz ≤ l.totTypSz) (hfind : l.findEntry comp = .ok res) (hne : res ≠ []) :
    ExactUpdate l comp [b] res ↔ res.length = 1 ∨
      (∀ r ∈ res, l.data.read (l.fieldAddr d r.index) b.sz = b.bytes) ∧
      ∀ a ∈ sumsFrom 0 (res.map fun r => l.fieldAddr d r.index),
        l.data.read a b.sz = b.bytes := by
  have hpos := List.length_pos_iff.mpr hne
  have hcap : b.sz ≤ bufferCap := by rw [hb]; exact le_trans hsz (by decide)
  have hbytes : b.bytes.length = b.sz := BufferSz.length_bytes b
  constructor
  · intro h
    by_cases hlen : res.length = 1
    · exact Or.inl hlen
    · exact Or.inr (read_of_exactUpdate hconds hdef hsz hb hin hfind (by omega) h)
  · rw [exactUpdate_single hconds hdef hcap hfind]
    rintro (hlen | ⟨hold, hall⟩)
    · -- the only field is the first place the pointer comes to
      obtain ⟨r, rfl⟩ := List.length_eq_one_iff.mp hlen
      simp only [List.map_cons, List.map_nil, sumsFrom, Nat.zero_add, List.forall_mem_singleton]
      refine ⟨?_, fun a ha => ?_⟩
      · rw [← hbytes]
        exact Mem.read_write _ _ _
      · exact Mem.write_apply_of_not_mem _ _ (by omega)
    · have hsame : l.data.writeAll (sumsFrom 0 (res.map fun r => l.fieldAddr d r.index)) b.bytes
          = l.data := Mem.writeAll_of_read fun a ha => by rw [hbytes]; exact hall a ha
      rw [hsame]
      exact ⟨hold, fun _ _ => rfl⟩

end Single

/-! ### When an update is right -/

/-- All bytes which the update writes are there before it: in the fields it should write, and
wherever the pointer comes to, that is behind the sum of the addresses of the first fields. -/
def AllThere (l : ArrayLayout) (comp : Comparable) (updBuff : List BufferSz)
    (res : List Result) : Prop :=
  ∀ p ∈ comp.conds.zip updBuff, ∀ d, p.1.colDef = some d →
    (∀ r ∈ res, l.data.read (l.fieldAddr d r.index) p.2.sz = p.2.bytes) ∧
    ∀ i < res.length,
      l.data.read ((res.take (i + 1)).map fun r => l.fieldAddr d r.index).sum p.2.sz = p.2.bytes

theorem allThere_single {l : ArrayLayout} {comp : Comparable} {c : Cond} {d : ColumnDef}
    {b : BufferSz} {res : List Result} (hconds : comp.conds = [c]) (hdef : c.colDef = some d) :
    AllThere l comp [b] res ↔
      (∀ r ∈ res, l.data.read (l.fieldAddr d r.index) b.sz = b.bytes) ∧
      ∀ a ∈ sumsFrom 0 (res.map fun r => l.fieldAddr d r.index),
        l.data.read a b.sz = b.bytes := by
  have hzip : comp.conds.zip [b] = [(c, b)] := by rw [hconds]; rfl
  unfold AllThere
  simp only [hzip, List.forall_mem_singleton, hdef, Option.some.injEq, forall_eq', mem_sumsFrom,
    List.length_map, Nat.zero_add, List.map_take]
  refine and_congr_right fun _ => ?_
  constructor
  · rintro h a ⟨i, hi, rfl⟩
    exact h i hi
  · intro h i hi
    exact h _ ⟨i, hi, rfl⟩

/-- **Which updates are right.**  For conditions over columns of the layout that lie inside the
row, and buffers of their sizes, `updateEntry` does what it should to the rows which `findEntry`
selects if and only if it selects none, or there is one condition and it selects one row or
everything that is written was there before. -/
theorem exactUpdate_iff {l : ArrayLayout} {comp : Comparable} {updBuff : List BufferSz}
    {res : List Result} (hfind : l.findEntry comp = .ok res)
    (hcols : ∀ c ∈ comp.conds, ∃ j < l.header.sz, c.colDef = some (l.header.columns j))
    (hrow : ∀ j < l.header.sz,
      (l.header.columns j).loc + (l.header.columns j).typsz ≤ l.totTypSz)
    (hbufs : List.Forall₂ (fun c (b : BufferSz) => ∀ d, c.colDef = some d → b.sz = d.typsz)
      comp.conds updBuff) :
    ExactUpdate l comp updBuff res ↔
      res = [] ∨ (comp.sz = 1 ∧ (res.length = 1 ∨ AllThere l comp updBuff res)) := by
  rcases eq_or_ne res [] with rfl | hne
  · refine iff_of_true ⟨l.data, updateEntry_of_nil updBuff hfind, ?_, fun _ _ => rfl⟩ (Or.inl rfl)
    exact fun r hr => absurd hr List.not_mem_nil
  · suffices hone : comp.sz = 1 →
        (ExactUpdate l comp updBuff res ↔ res.length = 1 ∨ AllThere l comp updBuff res) by
      constructor
      · intro h
        have hsz := h.sz_eq_one hfind hne
        exact Or.inr ⟨hsz, (hone hsz).mp h⟩
      · rintro (hnil | ⟨hsz, h⟩)
        · exact absurd hnil hne
        · exact (hone hsz).mpr h
    intro hsz
    obtain ⟨c, hconds⟩ := List.length_eq_one_iff.mp hsz
    rw [hconds] at hbufs
    obtain ⟨b, _, hb, hrest, rfl⟩ := List.forall₂_cons_left_iff.mp hbufs
    obtain rfl := List.forall₂_nil_left_iff.mp hrest
    obtain ⟨j, hj, hdef⟩ := hcols c (by rw [hconds]; exact List.mem_cons_self)
    -- the column has been compared, so it is not too long
    have hready := ready_of_findEntry hfind hne c (by rw [hconds]; exact List.mem_cons_self)
    obtain ⟨d, hd, hcap⟩ := hready
    obtain rfl := Option.some.inj (hdef.symm.trans hd)
    rw [exactUpdate_single_iff hconds hdef hcap (hb _ hdef) (hrow j hj) hfind hne,
      allThere_single hconds hdef]

/-! ### Two updates of a row of zeros -/

/-- The condition that column `d` is zero. -/
def zeroCond (d : ColumnDef) : Cond := ⟨some d, RawVal.ofMem (fun _ => 0) 0⟩

theorem test_zeroCond {d : ColumnDef} (hsz : d.typsz ≤ 8) (a : ℕ) :
    (zeroCond d).test (fun _ => 0) a = true := by
  refine decide_eq_true ?_
  show (RawVal.ofMem (fun _ => 0) 0).toList.take d.typsz = _
  rw [RawVal.take_ofMem _ _ hsz, read_zeros, read_zeros]

/-- Conditions that ask for zeros select the only row of a layout of zeros. -/
theorem findEntry_zero_row {l : ArrayLayout} (hinv : SlotInv 1 l) (htyp : l.totTypSz = 8)
    (hdata : l.data = fun _ => 0) {ds : List ColumnDef} (hne : ds ≠ [])
    (hsz : ∀ d ∈ ds, d.typsz ≤ 8) : l.findEntry ⟨ds.map zeroCond⟩ = .ok [l.rowAt 31] := by
  have hready : ∀ c ∈ ds.map zeroCond, c.Ready := by
    intro c hc
    obtain ⟨d, hd, rfl⟩ := List.mem_map.mp hc
    exact ⟨d, rfl, hsz d hd⟩
  have hall : ∀ c ∈ ds.map zeroCond, c.test l.data (l.rowAddr 31) = true := by
    intro c hc
    obtain ⟨d, hd, rfl⟩ := List.mem_map.mp hc
    rw [hdata, test_zeroCond (hsz d hd)]
  have hscanned : l.scanned = [31] := by
    rw [scanned, hinv.on_eq]
    decide
  have hpasses : Comparable.sz ⟨ds.map zeroCond⟩ ≤ 0 + passes l ⟨ds.map zeroCond⟩ 31 := by
    rw [Nat.zero_add, passes, List.countP_eq_length.mpr hall]
    rfl
  have hfound : [31] = Carry.scan (Comparable.sz ⟨ds.map zeroCond⟩)
      (passes l ⟨ds.map zeroCond⟩) 0 l.scanned := by
    rw [hscanned, Carry.scan_cons_of_le _ hpasses]
    rfl
  have hfits : l.totTypSz ≤ bufferCap := by
    rw [htyp]
    decide
  rw [findEntry_eq hinv.getSz_pos (by simpa using hne) hready hfound,
    if_pos (Or.inr ⟨hfits, by decide⟩)]
  rfl

/-- A layout with one row of zeros in two `int` columns. -/
theorem exists_zero_row : ∃ alloc' l₀ l outs,
    ArrayLayout.new freshAlloc zeroChunk (twoInts 0 4) 4096 = .ok (alloc', l₀) ∧
      exec ArrayLayout.step l₀ (List.replicate 1 (.addEntry fun _ => 0)) = .ok (l, outs) ∧
      l.header.sz = 2 ∧ l.totTypSz = 8 ∧
      (∀ j < 2, (l.header.columns j).loc = 4 * j ∧ (l.header.columns j).typsz = 4) ∧
      ∀ js : List ℕ, js ≠ [] → (∀ j ∈ js, j < 2) →
        l.findEntry ⟨js.map fun j => zeroCond (l.header.columns j)⟩ = .ok [l.rowAt 31] := by
  obtain ⟨alloc', l₀, l, outs, hnew, hrun, hinv, htyp, hdata⟩ :=
    exists_zero_rows (n := 0) (by decide)
  have hbuilt := new_spec hnew
  have hheader := (loaded_of_exec hrun).header
  have hcols : ∀ j < 2, (l.header.columns j).loc = 4 * j ∧ (l.header.columns j).typsz = 4 := by
    intro j hj
    obtain ⟨_, hloc, htypsz⟩ := hbuilt.cols j hj
    have hlocs : ∀ j < 2, ((twoInts 0 4).columns j).loc = 4 * j := by decide
    rw [hheader, hloc, htypsz]
    exact ⟨hlocs j hj, typsz_twoInts 0 4 j⟩
  refine ⟨alloc', l₀, l, outs, hnew, hrun, hheader ▸ hbuilt.header_sz, htyp, hcols, ?_⟩
  intro js hne hjs
  have hmap : (js.map fun j => zeroCond (l.header.columns j))
      = (js.map l.header.columns).map zeroCond := by
    rw [List.map_map]
    rfl
  rw [hmap]
  refine findEntry_zero_row hinv htyp hdata (by simpa using hne) fun d hd => ?_
  obtain ⟨j, hj, rfl⟩ := List.mem_map.mp hd
  rw [(hcols j (hjs j hj)).2]
  decide

theorem exactUpdate_zero_row : ∃ alloc' l₀ l outs,
    ArrayLayout.new freshAlloc zeroChunk (twoInts 0 4) 4096 = .ok (alloc', l₀) ∧
      exec ArrayLayout.step l₀ (List.replicate 1 (.addEntry fun _ => 0)) = .ok (l, outs) ∧
      ExactUpdate l ⟨[zeroCond (l.header.columns 1)]⟩ [⟨4, fun _ => 7⟩] [l.rowAt 31] := by
  obtain ⟨alloc', l₀, l, outs, hnew, hrun, hsz, htyp, hcols, hfind⟩ := exists_zero_row
  have hfind := hfind [1] (List.cons_ne_nil _ _) fun j hj => by
    rw [List.mem_singleton.mp hj]
    decide
  refine ⟨alloc', l₀, l, outs, hnew, hrun, (exactUpdate_iff hfind ?_ ?_ ?_).mpr
    (Or.inr ⟨rfl, Or.inl rfl⟩)⟩
  · intro c hc
    exact ⟨1, by rw [hsz]; decide, by rw [List.mem_singleton.mp hc]; rfl⟩
  · intro j hj
    rw [hsz] at hj
    rw [(hcols j hj).1, (hcols j hj).2, htyp]
    omega
  · refine List.Forall₂.cons (fun d hd => ?_) List.Forall₂.nil
    rw [← Option.some.inj hd, (hcols 1 (by decide)).2]

/-- One row, and two compared columns that lie one behind the other: the result is `2`. -/
theorem not_exactUpdate_two_columns : ∃ alloc' l₀ l outs,
    ArrayLayout.new freshAlloc zeroChunk (twoInts 0 4) 4096 = .ok (alloc', l₀) ∧
      exec ArrayLayout.step l₀ (List.replicate 1 (.addEntry fun _ => 0)) = .ok (l, outs) ∧
      (∀ j < 2, (l.header.columns j).loc = 4 * j ∧ (l.header.columns j).typsz = 4) ∧
      l.findEntry ⟨[zeroCond (l.header.columns 0), zeroCond (l.header.columns 1)]⟩
        = .ok [l.rowAt 31] ∧
      ¬ExactUpdate l ⟨[zeroCond (l.header.columns 0), zeroCond (l.header.columns 1)]⟩
        [⟨4, fun _ => 7⟩, ⟨4, fun _ => 7⟩] [l.rowAt 31] := by
  obtain ⟨alloc', l₀, l, outs, hnew, hrun, _, _, hcols, hfind⟩ := exists_zero_row
  have hfind := hfind [0, 1] (List.cons_ne_nil _ _) fun j hj => by
    rcases List.mem_pair.mp hj with rfl | rfl
    · decide
    · decide
  refine ⟨alloc', l₀, l, outs, hnew, hrun, hcols, hfind, fun h => ?_⟩
  have hone : 2 = 1 := h.sz_eq_one hfind (List.cons_ne_nil _ _)
  exact absurd hone (by decide)

end Lab1.MemDb
