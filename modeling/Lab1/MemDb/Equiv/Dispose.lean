import Lab1.MemDb.Layouts
import Lab1.MemDb.Equiv.ShmHandler

/-!
# Disposing of a chunk

All chunks lie in the one shared segment, and `disposeChunk` gives back the segment, whichever chunk
it is called for (`disposeChunk_detached`).  So no other chunk can be used afterwards, and
`disposesOne_iff` says that this does no harm only where there is none.
-/

namespace Lab1.MemDb

/-! ### The property -/

/-- In `s'` the chunk `q` lies in attached memory as in `s`, with the same bytes, and chunks can
still be allocated. -/
structure LeavesOther (s s' : Arena) (q : Reply) : Prop where
  attached : s'.attached = true
  resolves : s'.pointerToLocalPointer q.pointer = s.pointerToLocalPointer q.pointer
  bytes : ∀ k < q.sz, s'.byteAt (s'.pointerToLocalPointer q.pointer + k)
    = s.byteAt (s.pointerToLocalPointer q.pointer + k)
  further : ∀ sz, ∃ t r, s'.allocChunk sz = .ok (t, r)

/-- After the requests `reqs`, each chunk can be disposed of without an effect on the other ones. -/
def DisposesOne (s₀ : Arena) (reqs : List UInt32) : Prop :=
  ∀ s rs, exec Arena.allocChunk s₀ reqs = .ok (s, rs) →
    ∀ (i j : ℕ) (p q : Reply), rs[i]? = some p → rs[j]? = some q → i ≠ j →
      LeavesOther s (s.disposeChunk p.pointer).1 q

/-! ### The segment -/

/-- Whatever chunk it is, the segment is not attached any more. -/
theorem disposeChunk_detached (s : Arena) (p : Pointer) :
    (s.disposeChunk p).1.attached = false := by
  unfold Arena.disposeChunk
  split_ifs with hgone hdetached
  · exact hgone.2
  · exact hdetached
  · rfl

theorem allocChunk_of_attached {s : Arena} (hs : s.attached = true) (sz : UInt32) :
    ∃ t r, s.allocChunk sz = .ok (t, r) ∧ t.attached = true := by
  obtain ⟨a, r, hstep⟩ : ∃ a r, s.alloc.step sz = .ok (a, r) := ⟨_, _, rfl⟩
  refine ⟨{ s with alloc := a, bytes := s.bytes.write 4 (wordBytes a.head.actSz) }, r, ?_, hs⟩
  rw [Arena.allocChunk, require_true hs, ok_bind, hstep]
  rfl

theorem exec_allocChunk_isOk {s₀ : Arena} (hs₀ : s₀.attached = true) (reqs : List UInt32) :
    ∃ s rs, exec Arena.allocChunk s₀ reqs = .ok (s, rs) := by
  obtain ⟨s, rs, hrun, _⟩ := exec_total (fun s : Arena => s.attached = true)
    (fun _ sz hs => allocChunk_of_attached hs sz) hs₀ reqs
  exact ⟨s, rs, hrun⟩

theorem length_le_one_of_disposesOne {s₀ : Arena} (hs₀ : s₀.attached = true) {reqs : List UInt32}
    (h : DisposesOne s₀ reqs) : reqs.length ≤ 1 := by
  by_contra hlen
  obtain ⟨s, rs, hrun⟩ := exec_allocChunk_isOk hs₀ reqs
  have hrs : rs.length = reqs.length := length_exec hrun
  have hleaves := h s rs hrun 0 1 rs[0] rs[1] (List.getElem?_eq_getElem (by omega))
    (List.getElem?_eq_getElem (by omega)) Nat.zero_ne_one
  have hattached := hleaves.attached
  rw [disposeChunk_detached] at hattached
  cases hattached

/-- **Disposing of one chunk.**  It leaves the others alone if and only if there are no others. -/
theorem disposesOne_iff {s₀ : Arena} (hs₀ : s₀.attached = true) (reqs : List UInt32) :
    DisposesOne s₀ reqs ↔ reqs.length ≤ 1 := by
  refine ⟨length_le_one_of_disposesOne hs₀, fun hlen => ?_⟩
  intro s rs hrun i j p q hp hq hne
  have hrs : rs.length = reqs.length := length_exec hrun
  obtain ⟨hi, _⟩ := List.getElem?_eq_some_iff.mp hp
  obtain ⟨hj, _⟩ := List.getElem?_eq_some_iff.mp hq
  omega

theorem disposesOne_single : DisposesOne freshArena [16] :=
  (disposesOne_iff rfl [16]).mpr le_rfl

/-- Two chunks that are apart. -/
theorem not_disposesOne_two : ¬DisposesOne freshArena [16, 64] := by
  intro h
  exact absurd (length_le_one_of_disposesOne rfl h) (by decide)

end Lab1.MemDb
