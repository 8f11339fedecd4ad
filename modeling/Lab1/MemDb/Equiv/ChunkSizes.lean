import Lab1.MemDb.Equiv.Dispose
import Mathlib.Tactic.IntervalCases

/-!
# The sizes in the header of a chunk

`getSz`, `updateActSz` and `getActSz` work on a header in front of the chunk, where `allocChunk` has
put none.  What they find there are the bytes of the segment: behind the first eight, which are the
size and `actSz` in the header of the segment, all of them are zero (`segment`).  And the two for
`actSz` do not use the same field.  `faithfulSizes_iff` says which sizes come out right by
chance.
-/

namespace Lab1.MemDb

/-! ### The property -/

section Regions

variable (r : Reply)

/-! Offsets count from `sizeofChunkHeader` bytes before the segment, where the header of a chunk at
the start of the segment would be. -/

/-- The bytes of the field `f` in the header of the chunk. -/
def Reply.field (f : HeaderField) : Region := ⟨r.pointer + f.offset, f.size⟩

/-- The header of the chunk. -/
def Reply.header : Region := ⟨r.pointer, sizeofChunkHeader⟩

/-- The bytes of the chunk. -/
def Reply.data : Region := ⟨r.pointer + sizeofChunkHeader, r.sz⟩

end Regions

/-- The calls `updateActSz(k, pshm)` for the numbers `k`, one after the other. -/
def Arena.updates (s : Arena) (pshm : ℕ) (ks : List UInt32) : Except Fault Arena :=
  ks.foldlM (fun s k => s.updateActSz k pshm) s

/-- The fields that `getSz`, `getActSz` and these calls use. -/
def fieldsUsed (ks : List UInt32) : List HeaderField :=
  .sz :: .nxt :: ks.map fun _ => .actSz

/-- What the accessors should give for the chunk `i` of those handed out for `reqs`, after the calls
of `updateActSz` for `ks`, and which bytes they should leave alone. -/
structure FaithfulSizes (s₀ : Arena) (reqs : List UInt32) (i : ℕ) (ks : List UInt32) : Prop where
  sizes : ∀ s rs r, exec Arena.allocChunk s₀ reqs = .ok (s, rs) → rs[i]? = some r →
    ∃ t, s.updates r.addr ks = .ok t ∧ t.getSz r.addr = .ok r.sz ∧
      t.getActSz r.addr = .ok (ks.map UInt32.toNat).sum
  apart : ∀ s rs r j q, exec Arena.allocChunk s₀ reqs = .ok (s, rs) → rs[i]? = some r →
    rs[j]? = some q → j ≠ i → ∀ f ∈ fieldsUsed ks,
      (r.field f).Apart q.header ∧ (r.field f).Apart q.data

/-! ### The bytes of the segment -/

/-- The segment: its size and `actSz`, and zeros. -/
def segment (actSz : ℕ) : Mem := Mem.ofList (wordBytes mega ++ wordBytes actSz)

theorem segment_write (m n : ℕ) : (segment m).write 4 (wordBytes n) = segment n := by
  rw [segment, segment, Mem.ofList_append, Mem.ofList_append]
  exact Mem.write_write _ _ rfl

theorem segment_zero : segment 0 = Mem.write (fun _ => 0) 0 (wordBytes mega) := by
  rw [segment, Mem.ofList_append, Mem.ofList_eq_write]
  exact Mem.write_of_read rfl

theorem segment_apply_of_le (n : ℕ) {i : ℕ} (hi : 8 ≤ i) : segment n i = 0 :=
  Mem.ofList_apply_of_le hi

theorem read_segment_of_le (n : ℕ) {a : ℕ} (ha : 8 ≤ a) : (segment n).read a 4 = wordBytes 0 := by
  show [segment n a, segment n (a + 1), segment n (a + 2), segment n (a + 3)] = wordBytes 0
  rw [segment_apply_of_le n ha, segment_apply_of_le n (by omega),
    segment_apply_of_le n (by omega), segment_apply_of_le n (by omega)]
  rfl

theorem word_segment_of_le (n : ℕ) {a : ℕ} (ha : 8 ≤ a) : (segment n).word a = 0 :=
  Mem.word_of_read (by decide) (read_segment_of_le n ha)

theorem number_segment_of_le (n : ℕ) {a : ℕ} (ha : 8 ≤ a) (k : ℕ) : (segment n).number a k = 0 :=
  Mem.number_of_zeros _ _ fun i _ => segment_apply_of_le n (by omega)

/-- Where the bytes of `actSz` are read. -/
theorem word_segment_actSz {n k : ℕ} (hn : n < 4294967296) (hk : k < 4) :
    (segment n).word (4 + k) = n / 256 ^ k := by
  interval_cases k
  all_goals
    simp [Mem.word, segment, Mem.ofList, wordBytes]
    omega

/-- Where the size of the segment is read, it is not the offset of the chunk behind. -/
theorem word_segment_ne (n : ℕ) {a : ℕ} (ha : a < 4) : (segment n).word a ≠ 12 + a := by
  interval_cases a
  all_goals
    simp [Mem.word, segment, Mem.ofList, wordBytes, mega]
  all_goals omega

/-! ### The calls of `allocChunk` -/

theorem Arena.allocChunk_cases {s t : Arena} {sz : UInt32} {r : Reply}
    (h : s.allocChunk sz = .ok (t, r)) :
    s.attached = true ∧ s.alloc.step sz = .ok (t.alloc, r) ∧
      t = { s with
        alloc := t.alloc
        bytes := s.bytes.write 4 (wordBytes t.alloc.head.actSz) } := by
  obtain ⟨_, hattached, h⟩ := bind_eq_ok.mp h
  obtain ⟨⟨a, r'⟩, hstep, h⟩ := bind_eq_ok.mp h
  cases h
  exact ⟨require_eq_ok.mp hattached, hstep, rfl⟩

/-- The chunks are those that the allocator hands out. -/
theorem exec_step_of_exec {s₀ s : Arena} {reqs : List UInt32} {rs : List Reply}
    (h : exec Arena.allocChunk s₀ reqs = .ok (s, rs)) :
    exec MemAllocator.step s₀.alloc reqs = .ok (s.alloc, rs) := by
  induction reqs generalizing s₀ rs with
  | nil =>
    cases h
    rfl
  | cons sz reqs ih =>
    obtain ⟨s₁, r, rs', halloc, hrest, rfl⟩ := exec_cons_eq_ok.mp h
    obtain ⟨-, hstep, -⟩ := Arena.allocChunk_cases halloc
    exact exec_cons_eq_ok.mpr ⟨s₁.alloc, r, rs', hstep, ih hrest, rfl⟩

/-- What holds of the arena after any number of calls: all that has changed is `actSz`. -/
structure Counted (reqs : List UInt32) (s : Arena) : Prop where
  attached : s.attached = true
  actSz : s.alloc.head.actSz = u32 (reqs.map UInt32.toNat).sum
  bytes : s.bytes = segment s.alloc.head.actSz

theorem counted_new {id : ℤ} {vmem : ℕ} {s₀ : Arena} (hnew : Arena.new id vmem = .ok s₀) :
    0 < s₀.alloc.vmem ∧ Counted [] s₀ := by
  obtain ⟨a, halloc, h⟩ := bind_eq_ok.mp hnew
  obtain ⟨_, hvmem, hpure⟩ := bind_eq_ok.mp halloc
  cases hpure
  cases h
  exact ⟨require_eq_ok.mp hvmem, rfl, rfl, segment_zero.symm⟩

theorem Counted.allocChunk {s t : Arena} {reqs : List UInt32} {sz : UInt32} {r : Reply}
    (hs : Counted reqs s) (h : s.allocChunk sz = .ok (t, r)) : Counted (reqs ++ [sz]) t := by
  obtain ⟨-, hstep, ht⟩ := Arena.allocChunk_cases h
  have hact : t.alloc.head.actSz = u32 (s.alloc.head.actSz + sz.toNat) := by
    rw [← (ok_pair_inj hstep).1]
  refine ⟨?_, ?_, ?_⟩
  · rw [ht]
    exact hs.attached
  · rw [hact, hs.actSz, u32_add_left, List.map_append, List.sum_append]
    rfl
  · calc t.bytes = s.bytes.write 4 (wordBytes t.alloc.head.actSz) := by rw [ht]
      _ = segment t.alloc.head.actSz := by rw [hs.bytes, segment_write]

theorem counted_exec {id : ℤ} {vmem : ℕ} {s₀ s : Arena} (hnew : Arena.new id vmem = .ok s₀)
    {reqs : List UInt32} {rs : List Reply} (h : exec Arena.allocChunk s₀ reqs = .ok (s, rs)) :
    Counted reqs s :=
  exec_invariant Counted (fun _ _ _ _ _ hs hstep => hs.allocChunk hstep)
    (counted_new hnew).2 h

/-! ### The accessors -/

section Accessors

variable {s t : Arena} {m n : ℕ} {f : HeaderField} {ks : List UInt32}

/-- The chunk at offset `m` of the segment has its header `sizeofChunkHeader` bytes before. -/
theorem headerField_eq_ok (hs : s.attached = true) (hm : 0 < s.alloc.vmem + m) {field : ℕ} :
    s.headerField (s.alloc.vmem + m) f = .ok field ↔
      sizeofChunkHeader + field = m + f.offset ∧ field + f.size ≤ mega := by
  rw [Arena.headerField, require_true hm, ok_bind, bind_eq_ok]
  simp only [require_eq_ok, exists_const, hs, true_and]
  constructor
  · rintro ⟨⟨hlo, hhi⟩, hfield⟩
    cases hfield
    omega
  · rintro ⟨hfield, hin⟩
    refine ⟨by omega, ?_⟩
    have hsub : s.alloc.vmem + m + f.offset - (s.alloc.vmem + sizeofChunkHeader) = field := by omega
    rw [hsub]
    rfl

theorem getSz_eq_ok (hs : s.attached = true) (hm : 0 < s.alloc.vmem + m) :
    s.getSz (s.alloc.vmem + m) = .ok n ↔
      ∃ field, sizeofChunkHeader + field = m ∧ field + 4 ≤ mega ∧ s.bytes.word field = n := by
  rw [Arena.getSz, bind_eq_ok]
  simp only [headerField_eq_ok hs hm, and_assoc]
  exact exists_congr fun _ => and_congr_right fun _ => and_congr_right fun _ => pure_eq_ok

theorem getActSz_eq_ok (hs : s.attached = true) (hm : 0 < s.alloc.vmem + m) :
    s.getActSz (s.alloc.vmem + m) = .ok n ↔
      ∃ field, sizeofChunkHeader + field = m + 8 ∧ field + 2 ≤ mega ∧
        s.bytes.number field 2 >>> 1 = n := by
  rw [Arena.getActSz, bind_eq_ok]
  simp only [headerField_eq_ok hs hm, and_assoc]
  exact exists_congr fun _ => and_congr_right fun _ => and_congr_right fun _ => pure_eq_ok

/-- `updateActSz` writes to the field `actSz`, and to nothing else. -/
theorem updateActSz_cases (hs : s.attached = true) (hm : 0 < s.alloc.vmem + m) {k : UInt32}
    (h : s.updateActSz k (s.alloc.vmem + m) = .ok t) :
    ∃ field v, sizeofChunkHeader + field = m + 4 ∧
      t = { s with bytes := s.bytes.write field (wordBytes v) } := by
  obtain ⟨field, hfield, h⟩ := bind_eq_ok.mp h
  cases h
  exact ⟨field, _, ((headerField_eq_ok hs hm).mp hfield).1, rfl⟩

/-- Nothing but the field `actSz` has changed after any number of updates. -/
theorem updates_frame (hs : s.attached = true) (hm : 0 < s.alloc.vmem + m)
    (h : s.updates (s.alloc.vmem + m) ks = .ok t) :
    t.attached = true ∧ t.alloc = s.alloc ∧
      ∀ i, sizeofChunkHeader + i < m + 4 ∨ m + 8 ≤ sizeofChunkHeader + i →
        t.bytes i = s.bytes i := by
  induction ks generalizing s with
  | nil =>
    cases h
    exact ⟨hs, rfl, fun _ _ => rfl⟩
  | cons k ks ih =>
    rw [Arena.updates, List.foldlM_cons, bind_eq_ok] at h
    obtain ⟨s', hfirst, hrest⟩ := h
    obtain ⟨field, v, hfield, rfl⟩ := updateActSz_cases hs hm hfirst
    obtain ⟨hattached, halloc, hbytes⟩ :=
      ih (s := { s with bytes := s.bytes.write field (wordBytes v) }) hs hm hrest
    refine ⟨hattached, halloc, fun i hi => (hbytes i hi).trans ?_⟩
    apply Mem.write_apply_of_not_mem
    rw [length_wordBytes]
    omega

/-- To add nothing to zero changes nothing. -/
theorem updates_zero {field : ℕ}
    (hfield : s.headerField (s.alloc.vmem + m) .actSz = .ok field)
    (hzero : s.bytes.read field 4 = wordBytes 0) (hks : ∀ k ∈ ks, k = 0) :
    s.updates (s.alloc.vmem + m) ks = .ok s := by
  have hword : s.bytes.word field = 0 := Mem.word_of_read (by decide) hzero
  have hstep : s.updateActSz 0 (s.alloc.vmem + m) = .ok s := by
    have hsame : s.bytes.write field (wordBytes 0) = s.bytes := Mem.write_of_read hzero
    rw [Arena.updateActSz, hfield, ok_bind, hword]
    show Except.ok { s with bytes := s.bytes.write field (wordBytes 0) } = Except.ok s
    rw [hsame]
  induction ks with
  | nil => rfl
  | cons k ks ih =>
    obtain ⟨rfl, hrest⟩ := List.forall_mem_cons.mp hks
    rw [Arena.updates, List.foldlM_cons, hstep]
    exact ih hrest

end Accessors

/-! ### The sizes that come out right -/

/-- Nothing is counted, the size of the chunk is what stands at its place among the bytes of
`actSz`, and the other chunks are far from the header. -/
structure SizesFit (reqs : List UInt32) (i : ℕ) (n : UInt32) (ks : List UInt32) : Prop where
  uncounted : ∀ k ∈ ks, k = 0
  lo : 16 ≤ n.toNat
  hi : n.toNat < 20
  found : u32 (reqs.map UInt32.toNat).sum / 256 ^ (n.toNat - 16) = n.toNat
  others : ∀ j m, reqs[j]? = some m → j ≠ i → 2 * m.toNat + 12 ≤ n.toNat ∨ n.toNat + 10 ≤ m.toNat

theorem sum_toNat_eq_zero_iff {ks : List UInt32} :
    (ks.map UInt32.toNat).sum = 0 ↔ ∀ k ∈ ks, k = 0 := by
  rw [List.sum_eq_zero_iff_forall_eq_nat, List.forall_mem_map]
  exact forall₂_congr fun k _ => UInt32.toNat_inj (b := 0)

/-- The size is found in the four bytes of `actSz`, or not at all. -/
theorem word_segment_eq_iff {a n : ℕ} (ha : a < 4294967296) :
    (∃ field, sizeofChunkHeader + field = n ∧ field + 4 ≤ mega ∧ (segment a).word field = n) ↔
      16 ≤ n ∧ n < 20 ∧ a / 256 ^ (n - 16) = n := by
  have hheader : sizeofChunkHeader = 12 := rfl
  have hmega : mega = 1048576 := rfl
  constructor
  · rintro ⟨field, hfield, -, hword⟩
    rcases Nat.lt_or_ge field 4 with hsize | hsize
    · exact absurd (hword.trans (by omega)) (word_segment_ne a hsize)
    rcases Nat.lt_or_ge field 8 with hact | hzero
    · obtain ⟨k, rfl⟩ := Nat.exists_eq_add_of_le hsize
      have hk : n - 16 = k := by omega
      rw [word_segment_actSz ha (by omega)] at hword
      rw [hk]
      exact ⟨by omega, by omega, hword⟩
    · rw [word_segment_of_le a hzero] at hword
      omega
  · rintro ⟨hlo, hhi, hfound⟩
    refine ⟨4 + (n - 16), by omega, by omega, ?_⟩
    rw [word_segment_actSz ha (by omega), hfound]

theorem apart_iff_far {n m : ℕ} (vmem : ℕ) (ks : List UInt32) :
    (∀ f ∈ fieldsUsed ks,
      ((⟨n, vmem + n, n⟩ : Reply).field f).Apart (⟨m, vmem + m, m⟩ : Reply).header ∧
        ((⟨n, vmem + n, n⟩ : Reply).field f).Apart (⟨m, vmem + m, m⟩ : Reply).data) ↔
      2 * m + 12 ≤ n ∨ n + 10 ≤ m := by
  simp only [Region.apart_iff, Reply.field, Reply.header, Reply.data, sizeofChunkHeader]
  constructor
  · intro h
    have hsz := h .sz List.mem_cons_self
    have hnxt := h .nxt (List.mem_cons_of_mem _ List.mem_cons_self)
    simp only [HeaderField.sz, HeaderField.nxt] at hsz hnxt
    omega
  · intro hfar f hf
    -- all three fields lie in the ten bytes of `n`
    have hin : f.offset + f.size ≤ 10 := by
      simp only [fieldsUsed, List.mem_cons, List.mem_map] at hf
      rcases hf with rfl | rfl | ⟨_, -, rfl⟩
      all_goals decide
    omega

section Main

variable {id : ℤ} {vmem : ℕ} {s₀ s : Arena} {reqs : List UInt32} {rs : List Reply}
  {ks : List UInt32}

/-- The chunks of a run, by their requests. -/
theorem getElem?_exec (h : exec Arena.allocChunk s₀ reqs = .ok (s, rs)) (i : ℕ) :
    rs[i]? = reqs[i]?.map fun sz => ⟨sz.toNat, s.alloc.vmem + sz.toNat, sz.toNat⟩ := by
  obtain ⟨hvmem, rfl⟩ := exec_step (exec_step_of_exec h)
  rw [List.getElem?_map, hvmem]

/-- When the accessors give the right sizes. -/
theorem sizes_iff (hnew : Arena.new id vmem = .ok s₀)
    (h : exec Arena.allocChunk s₀ reqs = .ok (s, rs)) (n : ℕ) :
    (∃ t, s.updates (s.alloc.vmem + n) ks = .ok t ∧ t.getSz (s.alloc.vmem + n) = .ok n ∧
        t.getActSz (s.alloc.vmem + n) = .ok (ks.map UInt32.toNat).sum) ↔
      (∀ k ∈ ks, k = 0) ∧ 16 ≤ n ∧ n < 20 ∧
        u32 (reqs.map UInt32.toNat).sum / 256 ^ (n - 16) = n := by
  have hvmem : 0 < s.alloc.vmem := by
    rw [(exec_step (exec_step_of_exec h)).1]
    exact (counted_new hnew).1
  have hp : 0 < s.alloc.vmem + n := by omega
  obtain ⟨hattached, hact, hbytes⟩ := counted_exec hnew h
  have hlt : u32 (reqs.map UInt32.toNat).sum < 4294967296 := Nat.mod_lt _ (by decide)
  have hheader : sizeofChunkHeader = 12 := rfl
  have hmega : mega = 1048576 := rfl
  rw [hact] at hbytes
  constructor
  · rintro ⟨t, hupdates, hsz, hcount⟩
    obtain ⟨htattached, htalloc, hframe⟩ := updates_frame hattached hp hupdates
    rw [← htalloc] at hsz hcount hp
    obtain ⟨field, hfield, hin, hword⟩ := (getSz_eq_ok htattached hp).mp hsz
    obtain ⟨field', hfield', -, hnumber⟩ := (getActSz_eq_ok htattached hp).mp hcount
    -- the updates change neither the field `sz` nor the field `nxt`
    have hsame : t.bytes.word field = s.bytes.word field :=
      Mem.word_congr (Mem.read_eq_iff.mpr fun i hi => hframe _ (by omega))
    have hzero : t.bytes.number field' 2 = 0 := by
      refine Mem.number_of_zeros _ _ fun i hi => ?_
      rw [hframe _ (by omega), hbytes, segment_apply_of_le _ (by omega)]
    rw [hzero] at hnumber
    have hsum : (ks.map UInt32.toNat).sum = 0 := hnumber.symm
    rw [hsame, hbytes] at hword
    exact ⟨sum_toNat_eq_zero_iff.mp hsum, (word_segment_eq_iff hlt).mp ⟨field, hfield, hin, hword⟩⟩
  · rintro ⟨hks, hfits⟩
    have hsz := (word_segment_eq_iff hlt).mpr hfits
    obtain ⟨hlo, hhi, -⟩ := hfits
    have hfield : s.headerField (s.alloc.vmem + n) .actSz = .ok (n - 8) := by
      rw [headerField_eq_ok hattached hp]
      simp only [HeaderField.actSz]
      omega
    have hread : s.bytes.read (n - 8) 4 = wordBytes 0 := by
      rw [hbytes]
      exact read_segment_of_le _ (by omega)
    have hsum : (ks.map UInt32.toNat).sum = 0 := sum_toNat_eq_zero_iff.mpr hks
    rw [← hbytes] at hsz
    refine ⟨s, updates_zero hfield hread hks, (getSz_eq_ok hattached hp).mpr hsz, ?_⟩
    rw [getActSz_eq_ok hattached hp, hsum]
    refine ⟨n - 4, by omega, by omega, ?_⟩
    rw [hbytes, number_segment_of_le _ (by omega)]
    rfl

/-- **The accounting of a chunk.**  The accessors give the size of a chunk and the sum of the
updates, and leave the other chunks alone, if and only if nothing is counted, the size stands by
chance among the bytes of `actSz` in the header of the segment, and no other chunk is near. -/
theorem faithfulSizes_iff (hnew : Arena.new id vmem = .ok s₀) {i : ℕ} {n : UInt32}
    (hn : reqs[i]? = some n) (ks : List UInt32) :
    FaithfulSizes s₀ reqs i ks ↔ SizesFit reqs i n ks := by
  have hattached := (counted_new hnew).2.attached
  obtain ⟨s, rs, hrun⟩ := exec_allocChunk_isOk hattached reqs
  have hget := getElem?_exec hrun
  have hi : rs[i]? = some ⟨n.toNat, s.alloc.vmem + n.toNat, n.toNat⟩ := by
    rw [hget, hn]
    rfl
  constructor
  · intro h
    obtain ⟨hks, hlo, hhi, hfound⟩ := (sizes_iff hnew hrun n.toNat).mp (h.sizes s rs _ hrun hi)
    refine ⟨hks, hlo, hhi, hfound, fun j m hm hne => ?_⟩
    have hj : rs[j]? = some ⟨m.toNat, s.alloc.vmem + m.toNat, m.toNat⟩ := by
      rw [hget, hm]
      rfl
    exact (apart_iff_far s.alloc.vmem ks).mp (h.apart s rs _ j _ hrun hi hj hne)
  · intro h
    refine ⟨fun s' rs' r hrun' hr => ?_, fun s' rs' r j q hrun' hr hq hne => ?_⟩
    · obtain ⟨rfl, rfl⟩ := ok_pair_inj (hrun.symm.trans hrun')
      obtain rfl := Option.some.inj (hi.symm.trans hr)
      exact (sizes_iff hnew hrun n.toNat).mpr ⟨h.uncounted, h.lo, h.hi, h.found⟩
    · obtain ⟨rfl, rfl⟩ := ok_pair_inj (hrun.symm.trans hrun')
      obtain rfl := Option.some.inj (hi.symm.trans hr)
      rw [hget, Option.map_eq_some_iff] at hq
      obtain ⟨m, hm, rfl⟩ := hq
      exact (apart_iff_far s.alloc.vmem ks).mpr (h.others j m hm hne)

end Main

/-- The size of the chunk is also the sum of the sizes. -/
theorem faithfulSizes_sixteen : FaithfulSizes freshArena [16] 0 [] := by
  refine (faithfulSizes_iff (rfl : Arena.new 0 0x10000 = .ok freshArena) rfl []).mpr ?_
  refine ⟨nofun, by decide, by decide, by decide, fun j m hm hne => ?_⟩
  rcases j with _ | j
  · exact absurd rfl hne
  · cases hm

/-- The size of an ordinary chunk is read as zero. -/
theorem not_faithfulSizes_hundred : ¬FaithfulSizes freshArena [100] 0 [1] := by
  intro h
  obtain ⟨s, rs, hrun⟩ := exec_allocChunk_isOk (rfl : freshArena.attached = true) [100]
  have hr : rs[0]? = some ⟨100, s.alloc.vmem + 100, 100⟩ := getElem?_exec hrun 0
  have hsizes := (sizes_iff (rfl : Arena.new 0 0x10000 = .ok freshArena) hrun 100).mp
    (h.sizes s rs _ hrun hr)
  exact absurd hsizes.2.2.1 (by decide)

end Lab1.MemDb
