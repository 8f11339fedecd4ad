import Lab1.MemDb.Equiv.ChunkSizes
import Lab1.MemDb.ShmControl

/-!
# The control tool and the allocator

What the tool reads as the number of segments is the size of segment 1, whatever was allocated
(`getNumOfSeg_exec`).  And its loop counts with an `unsigned short`: it comes to an end only up to a
number of segments that is far below this size (`visitsEach_iff`).
-/

namespace Lab1.MemDb

variable {ω : Type*} {sys : ShmCalls ω}

/-! ### The property -/

/-- `handle_delete` ends, with `0`, and has visited each of the segments once. -/
def VisitsEach (sys : ShmCalls ω) (w : ω) (numOfSeg : ℕ) : Prop :=
  ∃ fuel v, handleDelete sys numOfSeg w fuel = .ok (0, v) ∧
    v.visited.Perm (List.range' 1 (1 + numOfSeg))

/-- After the requests `reqs` the tool reads the number of chunks, and can delete as many. -/
def ControlAgrees (sys : ShmCalls ω) (w : ω) (s₀ : Arena) (reqs : List UInt32) : Prop :=
  ∀ s rs, exec Arena.allocChunk s₀ reqs = .ok (s, rs) →
    getNumOfSeg s.bytes = rs.length ∧ VisitsEach sys w (getNumOfSeg s.bytes)

/-! ### The loop -/

section Loop

variable {numOfSeg : ℕ} {v : DeleteVars ω}

theorem deleteTurn_of_zero (hvisit : ∀ w id, (handleDeleteBySeg sys w id).2 = 0) :
    ∃ w, deleteTurn sys v = .ok (.inr ⟨w, v.i + 1, v.visited ++ [v.i.toNat]⟩) := by
  refine ⟨(handleDeleteBySeg sys v.world v.i.toNat).1, ?_⟩
  unfold deleteTurn
  exact if_neg (not_not_intro (hvisit v.world v.i.toNat))

/-- Where the counter can reach the bound, the loop visits the segments in order. -/
theorem visitsEach_of_lt (hvisit : ∀ w id, (handleDeleteBySeg sys w id).2 = 0) (w : ω)
    (hnum : 1 + numOfSeg < 65535) : VisitsEach sys w numOfSeg := by
  have hbound : u32 (1 + numOfSeg) = 1 + numOfSeg := u32_of_lt (by omega)
  have htotal := whileLoop_total (deleteCond numOfSeg) (deleteTurn sys)
    (fun v => ∃ k, v.i.toNat = 1 + k ∧ k ≤ 1 + numOfSeg ∧ v.visited = List.range' 1 k)
    (fun _ => False) (fun v => 2 + numOfSeg - v.i.toNat) ?_ (s := ⟨w, 1, []⟩)
    ⟨0, rfl, Nat.zero_le _, rfl⟩ (show 2 + numOfSeg - 1 < 3 + numOfSeg by omega)
  · rcases htotal with ⟨_, _, h⟩ | ⟨v, hrun, ⟨k, hi, hk, hvisited⟩, hcond⟩
    · exact absurd h id
    · have hlast : k = 1 + numOfSeg := by
        rw [deleteCond, decide_eq_false_iff_not, hbound, hi] at hcond
        omega
      refine ⟨3 + numOfSeg, v, ?_, ?_⟩
      · rw [handleDelete, hrun]
        rfl
      · rw [hvisited, hlast]
  · rintro v ⟨k, hi, hk, hvisited⟩ hcond
    rw [deleteCond, decide_eq_true_eq, hbound, hi] at hcond
    obtain ⟨w, hturn⟩ := deleteTurn_of_zero (v := v) hvisit
    have hnext : (v.i + 1).toNat = 1 + (k + 1) := by
      rw [UInt16.toNat_add, hi]
      show (1 + k + 1) % 65536 = _
      omega
    refine Or.inr ⟨_, hturn, ⟨k + 1, hnext, by omega, ?_⟩, ?_⟩
    · show v.visited ++ [v.i.toNat] = _
      rw [hvisited, hi, List.range'_1_concat]
    · show 2 + numOfSeg - (v.i + 1).toNat < 2 + numOfSeg - v.i.toNat
      omega

/-- Otherwise there is always a next turn, or never one. -/
theorem lt_of_visitsEach (hvisit : ∀ w id, (handleDeleteBySeg sys w id).2 = 0) {w : ω}
    (hnum : numOfSeg < 4294967296) (h : VisitsEach sys w numOfSeg) : 1 + numOfSeg < 65535 := by
  by_contra hlarge
  obtain ⟨fuel, v, hrun, hperm⟩ := h
  obtain ⟨r, hloop, hr⟩ := bind_eq_ok.mp hrun
  rcases Nat.lt_or_ge (1 + numOfSeg) 4294967296 with hlt | hge
  · -- the counter never exceeds the bound
    refine not_ends (fun _ => True) (fun v _ => ?_) (fun v r _ hv => ?_) trivial ⟨fuel, hloop⟩
    · have hi : v.i.toNat < 65536 := v.i.toNat_lt
      rw [deleteCond, decide_eq_true_eq, u32_of_lt hlt]
      omega
    · obtain ⟨w, hturn⟩ := deleteTurn_of_zero (v := v) hvisit
      exact ⟨_, Except.ok.inj (hv.symm.trans hturn), trivial⟩
  · -- the bound is zero
    have hzero : u32 (1 + numOfSeg) = 0 := by
      have hmax : 1 + numOfSeg = 4294967296 := by omega
      rw [hmax]
      rfl
    have hcond : deleteCond numOfSeg (⟨w, 1, []⟩ : DeleteVars ω) = false := by
      rw [deleteCond, hzero]
      rfl
    obtain ⟨fuel, rfl⟩ : ∃ k, fuel = k + 1 := by
      rcases fuel with _ | fuel
      · cases hloop
      · exact ⟨fuel, rfl⟩
    rw [whileLoop_of_not hcond] at hloop
    cases hloop
    cases hr
    have hlen : 0 = 1 + numOfSeg := by simpa using hperm.length_eq
    omega

/-- The numbers of segments that the tool can delete. -/
theorem visitsEach_iff (hvisit : ∀ w id, (handleDeleteBySeg sys w id).2 = 0) (w : ω)
    (hnum : numOfSeg < 4294967296) : VisitsEach sys w numOfSeg ↔ 1 + numOfSeg < 65535 :=
  ⟨lt_of_visitsEach hvisit hnum, visitsEach_of_lt hvisit w⟩

end Loop

/-! ### The number of segments -/

/-- What the tool reads is the size that the constructor has stored. -/
theorem getNumOfSeg_exec {id : ℤ} {vmem : ℕ} {s₀ s : Arena} (hnew : Arena.new id vmem = .ok s₀)
    {reqs : List UInt32} {rs : List Reply} (h : exec Arena.allocChunk s₀ reqs = .ok (s, rs)) :
    getNumOfSeg s.bytes = mega := by
  rw [getNumOfSeg, (counted_exec hnew h).bytes]
  exact Mem.word_of_read (by decide) rfl

/-- **The control tool.**  For no sequence of requests does it agree with the allocator. -/
theorem not_controlAgrees {id : ℤ} {vmem : ℕ} {s₀ : Arena} (hnew : Arena.new id vmem = .ok s₀)
    (hvisit : ∀ w id, (handleDeleteBySeg sys w id).2 = 0) (w : ω) (reqs : List UInt32) :
    ¬ControlAgrees sys w s₀ reqs := by
  intro h
  obtain ⟨s, rs, hrun⟩ := exec_allocChunk_isOk (counted_new hnew).2.attached reqs
  obtain ⟨-, hvisits⟩ := h s rs hrun
  rw [getNumOfSeg_exec hnew hrun] at hvisits
  have hlt := (visitsEach_iff hvisit w (by decide)).mp hvisits
  exact absurd hlt (by decide)

/-- Every segment is there, and again after it was deleted. -/
def allThere : ShmCalls Unit :=
  ⟨fun w key => (w, key), fun w _ => (w, 0x10000), fun w _ => (w, 0), fun w _ => (w, 0)⟩

theorem handleDeleteBySeg_allThere (w : Unit) (id : ℕ) :
    (handleDeleteBySeg allThere w id).2 = 0 := by
  have hid : ¬(id : ℤ) < 0 := by omega
  simp [handleDeleteBySeg, allThere, hid]

theorem not_controlAgrees_allThere : ¬ControlAgrees allThere () freshArena [16, 64, 256] :=
  not_controlAgrees (rfl : Arena.new 0 0x10000 = .ok freshArena) handleDeleteBySeg_allThere () _

/-- One chunk, where the tool reads `1048576`. -/
theorem not_controlAgrees_one : ¬ControlAgrees allThere () freshArena [16] := by
  intro h
  obtain ⟨s, rs, hrun⟩ := exec_allocChunk_isOk (rfl : freshArena.attached = true) [16]
  obtain ⟨hcount, -⟩ := h s rs hrun
  rw [getNumOfSeg_exec (rfl : Arena.new 0 0x10000 = .ok freshArena) hrun,
    length_exec hrun] at hcount
  exact absurd hcount (by decide)

end Lab1.MemDb
