import Lab1.Library.Region
import Lab1.MemDb.ShmHandler

/-!
# Chunks of the allocator

`allocChunk` writes the size that is asked for into `o_pointer`: a chunk of `sz` bytes starts at
offset `sz`, whatever was handed out before, and no request is refused.  So two chunks are apart
only if the size of one is at least twice the size of the other, and `soundChunks_iff` says for
which sequences of requests the chunks are nevertheless what they should be.
-/

namespace Lab1.MemDb

/-! ### The property -/

/-- The bytes of a chunk. -/
def Reply.region (r : Reply) : Region := ⟨r.pointer, r.sz⟩

/-- The replies to the calls that succeed, that is, do not return the null pointer. -/
def granted (rs : List Reply) : List Reply := rs.filter fun r => r.addr ≠ 0

/-- The header of the arena. -/
def headerRegion : Region := ⟨0, sizeofChunkHeader⟩

/-- What the chunks handed out in every run over `reqs` should be. -/
structure SoundChunks (a₀ : MemAllocator) (reqs : List UInt32) : Prop where
  apart : ∀ a rs, exec MemAllocator.step a₀ reqs = .ok (a, rs) →
    ((granted rs).map Reply.region).Pairwise Region.Apart
  inside : ∀ a rs, exec MemAllocator.step a₀ reqs = .ok (a, rs) → ∀ r ∈ granted rs,
    r.region.offsets ⊆ Finset.Ico 0 mega
  header : ∀ a rs, exec MemAllocator.step a₀ reqs = .ok (a, rs) → ∀ r ∈ granted rs,
    r.region.Apart headerRegion
  refused : ∀ pre sz post a rs a' r, reqs = pre ++ sz :: post →
    exec MemAllocator.step a₀ pre = .ok (a, rs) → a.step sz = .ok (a', r) →
    mega < sizeofChunkHeader + ((granted rs).map Reply.sz).sum + sz.toNat →
    r.addr = 0 ∧ a'.head = a.head

/-! ### What the code does -/

/-- The chunk for a request. -/
def chunkOf (sz : UInt32) : Region := ⟨sz.toNat, sz.toNat⟩

/-- The accounting in the header counts modulo `2 ^ 32`. -/
theorem exec_step {a₀ a : MemAllocator} {reqs : List UInt32} {rs : List Reply}
    (h : exec MemAllocator.step a₀ reqs = .ok (a, rs)) :
    a.vmem = a₀.vmem ∧ rs = reqs.map fun sz => ⟨sz.toNat, a₀.vmem + sz.toNat, sz.toNat⟩ := by
  induction reqs generalizing a₀ rs with
  | nil =>
    cases h
    exact ⟨rfl, rfl⟩
  | cons sz reqs ih =>
    obtain ⟨a₁, r, rs', hstep, hrest, rfl⟩ := exec_cons_eq_ok.mp h
    cases hstep
    obtain ⟨hvmem, rfl⟩ := ih hrest
    exact ⟨hvmem, rfl⟩

theorem exec_step_isOk (a₀ : MemAllocator) (reqs : List UInt32) :
    ∃ a rs, exec MemAllocator.step a₀ reqs = .ok (a, rs) := by
  obtain ⟨a, rs, hrun, _⟩ :=
    exec_total (fun _ => True) (fun _ _ _ => ⟨_, _, rfl, trivial⟩) trivial reqs
  exact ⟨a, rs, hrun⟩

/-- Every request is granted. -/
theorem granted_exec {a₀ a : MemAllocator} {reqs : List UInt32} {rs : List Reply}
    (hvmem : 0 < a₀.vmem) (h : exec MemAllocator.step a₀ reqs = .ok (a, rs)) :
    (granted rs).map Reply.region = reqs.map chunkOf ∧
      (granted rs).map Reply.sz = reqs.map UInt32.toNat := by
  obtain ⟨_, rfl⟩ := exec_step h
  have hall : granted (reqs.map fun sz => ⟨sz.toNat, a₀.vmem + sz.toNat, sz.toNat⟩)
      = reqs.map fun sz => ⟨sz.toNat, a₀.vmem + sz.toNat, sz.toNat⟩ := by
    refine List.filter_eq_self.mpr fun r hr => ?_
    obtain ⟨sz, _, rfl⟩ := List.mem_map.mp hr
    rw [decide_eq_true_eq]
    show a₀.vmem + sz.toNat ≠ 0
    omega
  rw [hall, List.map_map, List.map_map]
  exact ⟨rfl, rfl⟩

/-- The chunks handed out are those of the requests. -/
theorem forall_granted_iff {a₀ a : MemAllocator} {reqs : List UInt32} {rs : List Reply}
    (hvmem : 0 < a₀.vmem) (h : exec MemAllocator.step a₀ reqs = .ok (a, rs)) (P : Region → Prop) :
    (∀ r ∈ granted rs, P r.region) ↔ ∀ sz ∈ reqs, P (chunkOf sz) := by
  calc (∀ r ∈ granted rs, P r.region)
      ↔ ∀ x ∈ (granted rs).map Reply.region, P x := List.forall_mem_map.symm
    _ ↔ ∀ x ∈ reqs.map chunkOf, P x := by rw [(granted_exec hvmem h).1]
    _ ↔ ∀ sz ∈ reqs, P (chunkOf sz) := List.forall_mem_map

/-! ### The chunks of a sequence of requests -/

/-- The request is for nothing, or its chunk lies behind the header and inside the arena. -/
def FitsArena (sz : UInt32) : Prop :=
  sz.toNat = 0 ∨ (sizeofChunkHeader ≤ sz.toNat ∧ 2 * sz.toNat ≤ mega)

/-- One of the requests is for nothing, or for at most half of what the other is for. -/
def SizesApart (s t : UInt32) : Prop :=
  s.toNat = 0 ∨ t.toNat = 0 ∨ 2 * s.toNat ≤ t.toNat ∨ 2 * t.toNat ≤ s.toNat

theorem chunkOf_apart {s t : UInt32} : (chunkOf s).Apart (chunkOf t) ↔ SizesApart s t := by
  rw [Region.apart_iff, SizesApart]
  show s.toNat = 0 ∨ t.toNat = 0 ∨ s.toNat + s.toNat ≤ t.toNat ∨ t.toNat + t.toNat ≤ s.toNat ↔ _
  omega

theorem pairwise_granted_iff {a₀ a : MemAllocator} {reqs : List UInt32} {rs : List Reply}
    (hvmem : 0 < a₀.vmem) (h : exec MemAllocator.step a₀ reqs = .ok (a, rs)) :
    ((granted rs).map Reply.region).Pairwise Region.Apart ↔ reqs.Pairwise SizesApart := by
  rw [(granted_exec hvmem h).1, List.pairwise_map]
  exact List.Pairwise.iff fun _ _ => chunkOf_apart

theorem fitsArena_iff {sz : UInt32} :
    FitsArena sz ↔ (chunkOf sz).offsets ⊆ Finset.Ico 0 mega ∧ (chunkOf sz).Apart headerRegion := by
  rw [Region.offsets_subset_iff, Region.apart_iff, FitsArena]
  show _ ↔ (sz.toNat = 0 ∨ (0 ≤ sz.toNat ∧ sz.toNat + sz.toNat ≤ mega)) ∧
    (sz.toNat = 0 ∨ sizeofChunkHeader = 0 ∨ sz.toNat + sz.toNat ≤ 0 ∨
      0 + sizeofChunkHeader ≤ sz.toNat)
  have hheader : sizeofChunkHeader = 12 := rfl
  omega

theorem FitsArena.subset {sz : UInt32} (h : FitsArena sz) :
    (chunkOf sz).offsets ⊆ Finset.Ico sizeofChunkHeader mega := by
  rw [Region.offsets_subset_iff]
  rcases h with hzero | ⟨hlo, hhi⟩
  · exact Or.inl hzero
  · refine Or.inr ⟨hlo, ?_⟩
    show sz.toNat + sz.toNat ≤ mega
    omega

/-- Chunks that are as they should be leave no request that does not fit. -/
theorem sum_le_of_fits {reqs : List UInt32} (hfits : ∀ sz ∈ reqs, FitsArena sz)
    (hapart : reqs.Pairwise SizesApart) :
    sizeofChunkHeader + (reqs.map UInt32.toNat).sum ≤ mega := by
  have hpair : (reqs.map chunkOf).Pairwise Region.Apart :=
    List.pairwise_map.mpr (hapart.imp fun h => chunkOf_apart.mpr h)
  have hsum := Region.sum_len_le hpair fun r hr => by
    obtain ⟨sz, hsz, rfl⟩ := List.mem_map.mp hr
    exact (hfits sz hsz).subset
  have hlen : (reqs.map chunkOf).map Region.len = reqs.map UInt32.toNat := by
    rw [List.map_map]
    rfl
  have hle : sizeofChunkHeader ≤ mega := by decide
  rw [hlen] at hsum
  omega

/-- **The chunks of the allocator.**  From a fresh arena, the chunks handed out for `reqs` are
disjoint, inside the arena and behind its header, and nothing that does not fit is granted, if and
only if every single chunk fits the arena and the sizes are pairwise apart. -/
theorem soundChunks_iff {id : ℤ} {vmem : ℕ} {a₀ : MemAllocator}
    (hnew : MemAllocator.new id vmem = .ok a₀) (reqs : List UInt32) :
    SoundChunks a₀ reqs ↔ (∀ sz ∈ reqs, FitsArena sz) ∧ reqs.Pairwise SizesApart := by
  have hvmem : 0 < a₀.vmem := by
    obtain ⟨_, hreq, hpure⟩ := bind_eq_ok.mp hnew
    cases hpure
    exact require_eq_ok.mp hreq
  constructor
  · -- every request is granted, so each of them has its chunk among the replies
    intro h
    obtain ⟨a, rs, hrun⟩ := exec_step_isOk a₀ reqs
    refine ⟨fun sz hsz => fitsArena_iff.mpr ⟨?_, ?_⟩, ?_⟩
    · exact (forall_granted_iff hvmem hrun fun x => x.offsets ⊆ Finset.Ico 0 mega).mp
        (h.inside a rs hrun) sz hsz
    · exact (forall_granted_iff hvmem hrun fun x => x.Apart headerRegion).mp
        (h.header a rs hrun) sz hsz
    · exact (pairwise_granted_iff hvmem hrun).mp (h.apart a rs hrun)
  · rintro ⟨hfits, hapart⟩
    have hin := fun sz hsz => fitsArena_iff.mp (hfits sz hsz)
    refine ⟨fun a rs hrun => ?_, fun a rs hrun => ?_, fun a rs hrun => ?_, ?_⟩
    · exact (pairwise_granted_iff hvmem hrun).mpr hapart
    · exact (forall_granted_iff hvmem hrun fun x => x.offsets ⊆ Finset.Ico 0 mega).mpr
        fun sz hsz => (hin sz hsz).1
    · exact (forall_granted_iff hvmem hrun fun x => x.Apart headerRegion).mpr
        fun sz hsz => (hin sz hsz).2
    · -- there is no request that does not fit
      rintro pre sz post a rs a' r rfl hrun _ hbig
      rw [(granted_exec hvmem hrun).2] at hbig
      have hsub : (pre ++ [sz]).Sublist (pre ++ sz :: post) :=
        (List.Sublist.refl pre).append (List.singleton_sublist.mpr List.mem_cons_self)
      have hsum := sum_le_of_fits (fun s hs => hfits s (hsub.subset hs)) (hapart.sublist hsub)
      rw [List.map_append, List.sum_append, List.map_singleton, List.sum_singleton] at hsum
      omega

/-! ### Two sequences of requests -/

theorem soundChunks_doubling : SoundChunks freshAlloc [100, 0, 200, 400, 524288] := by
  refine (soundChunks_iff (rfl : MemAllocator.new 0 0x10000 = .ok freshAlloc) _).mpr ⟨?_, ?_⟩
  · simp only [FitsArena, List.mem_cons, List.not_mem_nil, or_false, forall_eq_or_imp, forall_eq]
    decide
  · unfold SizesApart
    decide

/-- Two requests of the same size get the same chunk. -/
theorem not_soundChunks_equal : ¬SoundChunks freshAlloc [100, 100] := by
  intro h
  obtain ⟨a, rs, hrun⟩ := exec_step_isOk freshAlloc [100, 100]
  have hpair := h.apart a rs hrun
  rw [pairwise_granted_iff (by decide) hrun, List.pairwise_pair] at hpair
  unfold SizesApart at hpair
  revert hpair
  decide

end Lab1.MemDb
