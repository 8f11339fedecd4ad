import Lab1.MemDb.Equiv.Layouts

/-!
# Headers filled column by column

A `LayoutHeader` is filled with `addColumnDef` and searched with `get_def_by_name`.  Nothing sets
its `sz` to zero first, so a new header starts with as many columns as its memory says by chance,
and the search of a header without columns is an assertion that fails.

`buildsHeader_iff` says that filling and searching go well exactly when the header happens to be
empty and gets at least one column.
-/

namespace Lab1.MemDb

/-! ### The property -/

/-- What `addColumnDef` copies of a column. -/
def ColumnDef.content (d : ColumnDef) : List UInt8 × ℕ × ℕ := (d.name.bytes, d.loc, d.typsz)

/-- The columns of a header, in order. -/
def LayoutHeader.stored (h : LayoutHeader) : List (List UInt8 × ℕ × ℕ) :=
  (List.range h.sz).map fun i => (h.columns i).content

/-- How the header `h` comes from `h₀` by adding the columns `defs`, and what a search finds. -/
structure HeaderBuilt (h₀ : LayoutHeader) (defs : List ColumnDef) (h : LayoutHeader) : Prop where
  first : exec LayoutHeader.addColumnDef h₀ (defs.take maxColNum)
    = .ok (h, List.replicate (defs.take maxColNum).length 0)
  stored : h.stored = (defs.take maxColNum).map ColumnDef.content
  further : ∀ d ∈ defs.drop maxColNum, h.addColumnDef d = .ok (h, -1)
  search : ∀ name : BufferSz, ∃ found, h.getDefByName name = .ok found ∧
    found.map ColumnDef.content
      = ((defs.take maxColNum).map ColumnDef.content).find? fun c => c.1 = name.bytes

/-- The first `MAX_COL_NUM` columns are stored in order, every further one is refused without a
change, and every search then finds the first column of the name. -/
def BuildsHeader (h₀ : LayoutHeader) (defs : List ColumnDef) : Prop := ∃ h, HeaderBuilt h₀ defs h

/-! ### Adding columns -/

namespace LayoutHeader

theorem addColumnDef_eq {h : LayoutHeader} {d : ColumnDef} (hsz : h.sz < maxColNum)
    (hname : d.name.sz ≤ bufferCap) :
    h.addColumnDef d = .ok ({ h.setColumn h.sz { h.columns h.sz with
      name := (h.columns h.sz).name.set d.name.bytes, loc := d.loc, typsz := d.typsz } with
      sz := h.sz + 1 }, 0) := by
  unfold addColumnDef
  rw [if_neg hsz.ne, require_true hsz, ok_bind, ColumnDef.copyFrom_eq_ok.mpr ⟨hname, rfl⟩]
  rfl

theorem addColumnDef_full {h : LayoutHeader} (hsz : h.sz = maxColNum) (d : ColumnDef) :
    h.addColumnDef d = .ok (h, -1) := by
  rw [addColumnDef, if_pos hsz]
  rfl

/-- The columns before the new one are left alone. -/
theorem stored_setColumn (h : LayoutHeader) (c : ColumnDef) :
    LayoutHeader.stored { h.setColumn h.sz c with sz := h.sz + 1 } = h.stored ++ [c.content] := by
  simp only [stored, setColumn, List.range_succ, List.map_append, List.map_cons, List.map_nil,
    Function.update_self]
  congr 1
  apply List.map_congr_left
  intro i hi
  rw [Function.update_of_ne (List.mem_range.mp hi).ne]

/-- A call that returns zero has added a column. -/
theorem sz_of_addColumnDef {h h' : LayoutHeader} {d : ColumnDef}
    (hadd : h.addColumnDef d = .ok (h', 0)) : h'.sz = h.sz + 1 := by
  unfold addColumnDef at hadd
  split at hadd
  · cases hadd
  · obtain ⟨_, _, hadd⟩ := bind_eq_ok.mp hadd
    obtain ⟨c, _, hadd⟩ := bind_eq_ok.mp hadd
    cases hadd
    rfl

theorem sz_of_exec {h h' : LayoutHeader} {defs : List ColumnDef} {n : ℕ}
    (hrun : exec addColumnDef h defs = .ok (h', List.replicate n 0)) : h'.sz = h.sz + n := by
  induction defs generalizing h n with
  | nil =>
    cases n with
    | zero =>
      cases hrun
      rfl
    | succ n => cases hrun
  | cons d defs ih =>
    obtain ⟨h₁, ret, rets, hadd, hrest, hrets⟩ := exec_cons_eq_ok.mp hrun
    cases n with
    | zero => cases hrets
    | succ n =>
      obtain ⟨rfl, rfl⟩ := List.cons.inj hrets
      rw [ih hrest, sz_of_addColumnDef hadd]
      omega

theorem exec_addColumnDef {defs : List ColumnDef} (hnames : ∀ d ∈ defs, d.name.sz ≤ bufferCap)
    {h : LayoutHeader} (hroom : h.sz + defs.length ≤ maxColNum) :
    ∃ h', exec addColumnDef h defs = .ok (h', List.replicate defs.length 0) ∧
      h'.sz = h.sz + defs.length ∧ h'.stored = h.stored ++ defs.map ColumnDef.content := by
  induction defs generalizing h with
  | nil => exact ⟨h, rfl, rfl, (List.append_nil _).symm⟩
  | cons d defs ih =>
    rw [List.length_cons] at hroom
    have hadd := addColumnDef_eq (h := h) (by omega) (hnames d List.mem_cons_self)
    have hnext := stored_setColumn h { h.columns h.sz with
      name := (h.columns h.sz).name.set d.name.bytes, loc := d.loc, typsz := d.typsz }
    obtain ⟨h', hrun, hsz, hstored⟩ := ih (fun d' hd' => hnames d' (List.mem_cons_of_mem _ hd'))
      (h := { h.setColumn h.sz { h.columns h.sz with
        name := (h.columns h.sz).name.set d.name.bytes, loc := d.loc, typsz := d.typsz } with
        sz := h.sz + 1 }) (by simp only; omega)
    refine ⟨h', exec_cons_eq_ok.mpr ⟨_, 0, _, hadd, hrun, rfl⟩, ?_, ?_⟩
    · rw [hsz, List.length_cons]
      simp only
      omega
    · rw [hstored, hnext, List.append_assoc]
      simp [ColumnDef.content]

/-! ### Searching -/

/-- A search finds the first column of the name.  (Equal bytes are of equal length.) -/
theorem getDefByName_eq {h : LayoutHeader} (hpos : 0 < h.sz) (hle : h.sz ≤ maxColNum)
    (name : BufferSz) :
    ∃ found, h.getDefByName name = .ok found ∧
      found.map ColumnDef.content = h.stored.find? fun c => c.1 = name.bytes := by
  have hmin : min h.sz maxColNum = h.sz := Nat.min_eq_left hle
  have hpred : (fun c : ColumnDef => decide (name.sz = c.name.sz ∧ name.bytes = c.name.bytes))
      = (fun c => decide (c.1 = name.bytes)) ∘ ColumnDef.content := by
    ext c
    rw [Function.comp_apply, decide_eq_decide, ColumnDef.content, eq_comm (a := c.name.bytes)]
    refine and_iff_right_of_imp fun hbytes => ?_
    rw [← BufferSz.length_bytes, hbytes, BufferSz.length_bytes]
  have hstored : h.stored = ((List.range h.sz).map h.columns).map ColumnDef.content := by
    rw [List.map_map]
    rfl
  refine ⟨((List.range h.sz).map h.columns).find? fun c =>
    name.sz = c.name.sz ∧ name.bytes = c.name.bytes, ?_, ?_⟩
  · rw [getDefByName, require_true hpos, ok_bind, hmin]
    split
    · next c hfind =>
      rw [hfind]
      rfl
    · next hfind =>
      rw [hfind, require_true hle]
      rfl
  · rw [hstored, hpred]
    exact List.find?_map.symm

end LayoutHeader

/-! ### The conditions of a search -/

/-- A header without columns cannot be searched, and a `Comparable` has at least one condition. -/
theorem Comparable.sz_of_new {names : List BufferSz} {vals : List RawVal} {head : LayoutHeader}
    {comp : Comparable} (hlen : vals.length = names.length)
    (h : Comparable.new names vals head = .ok comp) :
    comp.sz = names.length ∧ 1 ≤ names.length ∧ names.length ≤ maxColNum ∧ 0 < head.sz := by
  simp only [Comparable.new, bind_eq_ok] at h
  obtain ⟨_, hpos, _, hmax, conds, hconds, h⟩ := h
  cases h
  have hpos := require_eq_ok.mp hpos
  refine ⟨?_, hpos, require_eq_ok.mp hmax, ?_⟩
  · rw [Comparable.sz, length_mapM hconds, List.length_zip, hlen, Nat.min_self]
  · -- the column of the first condition has been looked for
    obtain ⟨name, names, rfl⟩ := List.exists_cons_of_length_pos hpos
    obtain ⟨val, vals, rfl⟩ := List.exists_cons_of_length_pos (hlen ▸ hpos)
    rw [List.zip_cons_cons] at hconds
    obtain ⟨cond, _, hcond, _⟩ := mapM_cons_eq_ok.mp hconds
    obtain ⟨d, hd, _⟩ := bind_eq_ok.mp hcond
    obtain ⟨_, hhead, _⟩ := bind_eq_ok.mp hd
    exact require_eq_ok.mp hhead

theorem Comparable.exists_new (names : List BufferSz) (vals : List RawVal) {head : LayoutHeader}
    (hpos : 0 < names.length) (hmax : names.length ≤ maxColNum) (hhead : 0 < head.sz)
    (hle : head.sz ≤ maxColNum) : ∃ comp, Comparable.new names vals head = .ok comp := by
  rw [Comparable.new, require_true hpos, ok_bind, require_true hmax, ok_bind]
  suffices hconds : ∃ conds, _ = Except.ok conds by
    obtain ⟨conds, hconds⟩ := hconds
    exact ⟨⟨conds⟩, bind_eq_ok.mpr ⟨conds, hconds, rfl⟩⟩
  apply exists_mapM
  rintro ⟨name, val⟩ _
  obtain ⟨found, hfound, _⟩ := LayoutHeader.getDefByName_eq hhead hle name
  exact ⟨⟨found, val⟩, bind_eq_ok.mpr ⟨found, hfound, rfl⟩⟩

/-! ### Filling and searching -/

/-- The header has as many columns as it has been given. -/
theorem HeaderBuilt.sz_eq {h₀ h : LayoutHeader} {defs : List ColumnDef}
    (hbuilt : HeaderBuilt h₀ defs h) : h₀.sz = 0 ∧ h.sz = (defs.take maxColNum).length := by
  have hlen := congrArg List.length hbuilt.stored
  rw [LayoutHeader.stored, List.length_map, List.length_map, List.length_range] at hlen
  have hsz := LayoutHeader.sz_of_exec hbuilt.first
  exact ⟨by omega, hlen⟩

theorem BuildsHeader.empty_ne_nil {h₀ : LayoutHeader} {defs : List ColumnDef}
    (hbuilds : BuildsHeader h₀ defs) : h₀.sz = 0 ∧ defs ≠ [] := by
  obtain ⟨h, hbuilt⟩ := hbuilds
  refine ⟨hbuilt.sz_eq.1, ?_⟩
  rintro rfl
  -- the search of a header without columns fails
  obtain ⟨found, hsearch, _⟩ := hbuilt.search ⟨0, fun _ => 0⟩
  obtain ⟨_, hpos, _⟩ := bind_eq_ok.mp hsearch
  have hpos := require_eq_ok.mp hpos
  rw [hbuilt.sz_eq.2] at hpos
  exact absurd hpos (lt_irrefl 0)

/-- **Building and searching a header.**  It goes as it should if and only if the memory of the
header happens to say that there are no columns yet, and there is a column to add. -/
theorem buildsHeader_iff (h₀ : LayoutHeader) {defs : List ColumnDef}
    (hnames : ∀ d ∈ defs, d.name.sz ≤ bufferCap) :
    BuildsHeader h₀ defs ↔ h₀.sz = 0 ∧ defs ≠ [] := by
  refine ⟨BuildsHeader.empty_ne_nil, ?_⟩
  rintro ⟨hempty, hne⟩
  have htake : (defs.take maxColNum).length ≤ maxColNum := List.length_take_le _ _
  have hfirst : ∀ d ∈ defs.take maxColNum, d.name.sz ≤ bufferCap :=
    fun d hd => hnames d (List.mem_of_mem_take hd)
  obtain ⟨h, hrun, hsz, hstored⟩ := LayoutHeader.exec_addColumnDef hfirst (h := h₀) (by omega)
  have hnil : h₀.stored = [] := by
    rw [LayoutHeader.stored, hempty]
    rfl
  rw [hnil, List.nil_append] at hstored
  rw [hempty, Nat.zero_add] at hsz
  have hpos : 0 < h.sz := by
    rw [hsz, List.length_take]
    exact Nat.lt_min.mpr ⟨by decide, List.length_pos_iff.mpr hne⟩
  refine ⟨h, hrun, hstored, fun d hd => ?_, fun name => ?_⟩
  · -- there is a further column only when the header is full
    have hdrop := List.length_pos_of_mem hd
    rw [List.length_drop] at hdrop
    refine LayoutHeader.addColumnDef_full ?_ d
    rw [hsz, List.length_take]
    omega
  · rw [← hstored]
    exact LayoutHeader.getDefByName_eq hpos (hsz ▸ htake) name

/-! ### Two headers -/

/-- A column `a` of four bytes. -/
def columnA : ColumnDef := ⟨⟨1, fun _ => 0x61⟩, 0, 4, .INT⟩

/-- A column `b` of eight bytes. -/
def columnB : ColumnDef := ⟨⟨1, fun _ => 0x62⟩, 4, 8, .DOUBLE⟩

/-- Two columns, and one more with the name of the first. -/
theorem buildsHeader_empty : BuildsHeader ⟨0, fun _ => columnA⟩ [columnA, columnB, columnA] := by
  refine (buildsHeader_iff _ fun d hd => ?_).mpr ⟨rfl, List.cons_ne_nil _ _⟩
  rcases List.mem_cons.mp hd with rfl | hd
  · decide
  · rcases List.mem_pair.mp hd with rfl | rfl
    · decide
    · decide

/-- A header whose memory says that it has a column. -/
theorem not_buildsHeader_leftover :
    (∀ d ∈ [columnA], d.name.sz ≤ bufferCap) ∧ ¬BuildsHeader ⟨1, fun _ => columnA⟩ [columnA] := by
  refine ⟨fun d hd => ?_, fun hbuilds => ?_⟩
  · rw [List.mem_singleton.mp hd]
    decide
  · exact absurd hbuilds.empty_ne_nil.1 Nat.one_ne_zero

end Lab1.MemDb
