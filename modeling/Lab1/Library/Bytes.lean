import Mathlib.Data.List.GetD
import Mathlib.Tactic.Ring

/-!
# Bytes in memory

A piece of memory is a function `Mem` from offsets to bytes.  `read` takes a number of bytes
at an offset, `write` puts a list of bytes there, and `word` reads an unsigned 32-bit number,
least significant byte first.  The lemmas say what a read sees of a write: exactly the bytes
written (`read_write`), or nothing of it when the two ranges are apart (`read_write_of_apart`).

Lengths and offsets are natural numbers; `u32` marks the places where a program computes them
in 32 bits.
-/

namespace Lab1

/-- The value of an unsigned 32-bit computation. -/
def u32 (n : ℕ) : ℕ := n % 4294967296

theorem u32_of_lt {n : ℕ} (h : n < 4294967296) : u32 n = n := Nat.mod_eq_of_lt h

theorem u32_add_left (m n : ℕ) : u32 (u32 m + n) = u32 (m + n) := Nat.mod_add_mod _ _ _

/-- Memory: the byte at each offset. -/
abbrev Mem := ℕ → UInt8

namespace Mem

/-- The `n` bytes from offset `a` on. -/
def read (m : Mem) (a n : ℕ) : List UInt8 := (List.range n).map fun i => m (a + i)

/-- The memory after `bs` is stored at offset `a`. -/
def write (m : Mem) (a : ℕ) (bs : List UInt8) : Mem :=
  fun i => if a ≤ i ∧ i < a + bs.length then bs.getD (i - a) 0 else m i

/-- The unsigned 32-bit number at offset `a`. -/
def word (m : Mem) (a : ℕ) : ℕ :=
  (m a).toNat + 256 * (m (a + 1)).toNat + 65536 * (m (a + 2)).toNat +
    16777216 * (m (a + 3)).toNat

/-- The unsigned number in the `n` bytes at offset `a`, least significant byte first. -/
def number (m : Mem) (a : ℕ) : ℕ → ℕ
  | 0 => 0
  | n + 1 => (m a).toNat + 256 * number m (a + 1) n

variable (m : Mem) (a : ℕ)

/-! ### Reads -/

@[simp] theorem length_read (n : ℕ) : (m.read a n).length = n := by simp [read]

@[simp] theorem read_zero : m.read a 0 = [] := rfl

@[simp] theorem getElem_read (n i : ℕ) (h : i < (m.read a n).length) :
    (m.read a n)[i] = m (a + i) := by simp [read]

theorem read_eq_iff {m m' : Mem} {a a' n : ℕ} :
    m.read a n = m'.read a' n ↔ ∀ i < n, m (a + i) = m' (a' + i) := by
  simp [read, List.map_inj_left]

/-- Two memories are the same if they agree in some fields of `n` bytes and outside all of them. -/
theorem eq_of_read_eq {ι : Type*} {m m' : Mem} {xs : List ι} {addr : ι → ℕ} {n : ℕ}
    (hread : ∀ x ∈ xs, m'.read (addr x) n = m.read (addr x) n)
    (hframe : ∀ i, (∀ x ∈ xs, i < addr x ∨ addr x + n ≤ i) → m' i = m i) : m' = m := by
  ext1 i
  by_cases hi : ∀ x ∈ xs, i < addr x ∨ addr x + n ≤ i
  · exact hframe i hi
  · push Not at hi
    obtain ⟨x, hx, hge, hlt⟩ := hi
    obtain ⟨k, rfl⟩ := Nat.exists_eq_add_of_le hge
    exact read_eq_iff.mp (hread x hx) k (by omega)

theorem read_add (n k : ℕ) : m.read a (n + k) = m.read a n ++ m.read (a + n) k := by
  simp only [read, List.range_add, List.map_append, List.map_map]
  congr 1
  apply List.map_congr_left
  intro i _
  simp [Nat.add_assoc]

theorem take_read {k n : ℕ} (h : k ≤ n) : (m.read a n).take k = m.read a k := by
  rw [read, ← List.map_take, List.take_range, Nat.min_eq_left h]
  rfl

theorem drop_read {k n : ℕ} (h : k ≤ n) : (m.read a n).drop k = m.read (a + k) (n - k) := by
  obtain ⟨r, rfl⟩ := Nat.exists_eq_add_of_le h
  rw [read_add, List.drop_left' (length_read m a k), Nat.add_sub_cancel_left]

/-- A list stands somewhere if its two parts stand there, one behind the other. -/
theorem read_append_iff {xs ys : List UInt8} :
    m.read a (xs ++ ys).length = xs ++ ys ↔
      m.read a xs.length = xs ∧ m.read (a + xs.length) ys.length = ys := by
  rw [List.length_append, read_add]
  constructor
  · intro h
    exact List.append_inj h (length_read m a _)
  · rintro ⟨hxs, hys⟩
    rw [hxs, hys]

/-- A number depends on its four bytes only. -/
theorem word_congr {m m' : Mem} {a a' : ℕ} (h : m.read a 4 = m'.read a' 4) :
    m.word a = m'.word a' := by
  rw [read_eq_iff] at h
  simp only [word, h 1 (by omega), h 2 (by omega), h 3 (by omega)]
  rw [show m a = m' a' from h 0 (by omega)]

theorem number_of_zeros {n : ℕ} (h : ∀ i < n, m (a + i) = 0) : m.number a n = 0 := by
  induction n generalizing a with
  | zero => rfl
  | succ n ih =>
    have hfirst : m a = 0 := h 0 (Nat.succ_pos n)
    have hrest : m.number (a + 1) n = 0 := by
      apply ih
      intro i hi
      have hnext := h (i + 1) (Nat.succ_lt_succ hi)
      rwa [Nat.add_comm i, ← Nat.add_assoc] at hnext
    rw [number, hfirst, hrest]
    rfl

/-- A number with zeros behind its first byte. -/
theorem number_of_byte {n : ℕ} (h : ∀ i < n, m (a + 1 + i) = 0) :
    m.number a (n + 1) = (m a).toNat := by
  rw [number, number_of_zeros m (a + 1) h]
  rfl

/-! ### Writes -/

theorem write_apply_of_mem {bs : List UInt8} {i : ℕ} (h : i < bs.length) :
    m.write a bs (a + i) = bs[i] := by
  simp [write, h]

theorem write_apply_of_not_mem {bs : List UInt8} {i : ℕ} (h : i < a ∨ a + bs.length ≤ i) :
    m.write a bs i = m i := by
  unfold write
  rw [if_neg (by omega)]

@[simp] theorem write_nil : m.write a [] = m := by
  funext i
  exact m.write_apply_of_not_mem a (by simp; omega)

/-- What is written is read back. -/
theorem read_write (bs : List UInt8) : (m.write a bs).read a bs.length = bs := by
  apply List.ext_getElem
  · simp
  · intro i _ hi
    rw [getElem_read, write_apply_of_mem m a hi]

/-- A write does not change bytes outside its range. -/
theorem read_write_of_apart {bs : List UInt8} {b n : ℕ} (h : b + n ≤ a ∨ a + bs.length ≤ b) :
    (m.write a bs).read b n = m.read b n := by
  rw [read_eq_iff]
  intro i hi
  exact m.write_apply_of_not_mem a (by omega)

/-- A read inside the range of a write sees the bytes written there. -/
theorem read_write_read {m' : Mem} {len k n : ℕ} (h : k + n ≤ len) :
    (m.write a (m'.read 0 len)).read (a + k) n = m'.read k n := by
  rw [read_eq_iff]
  intro i hi
  have hlt : k + i < (m'.read 0 len).length := by rw [length_read]; omega
  rw [Nat.add_assoc, write_apply_of_mem m a hlt, getElem_read, Nat.zero_add]

/-- What is read of a range after a write inside of it. -/
theorem read_write_inside {bs : List UInt8} {o n : ℕ} (h : o + bs.length ≤ n) :
    (m.write (a + o) bs).read a n
      = (m.read a n).take o ++ bs ++ (m.read a n).drop (o + bs.length) := by
  have hsplit : n = o + bs.length + (n - (o + bs.length)) := by omega
  rw [take_read m a (by omega), drop_read m a h, hsplit, read_add, read_add,
    Nat.add_sub_cancel_left,
    read_write, read_write_of_apart m (a + o) (Or.inl (Nat.le_refl (a + o))),
    read_write_of_apart m (a + o) (Or.inr (by omega))]

/-- Two writes one after the other, end to end, are one write. -/
theorem write_append (xs ys : List UInt8) :
    m.write a (xs ++ ys) = (m.write a xs).write (a + xs.length) ys := by
  funext i
  by_cases hx : a ≤ i ∧ i < a + xs.length
  · obtain ⟨k, rfl⟩ := Nat.exists_eq_add_of_le hx.1
    have hk : k < xs.length := by omega
    rw [write_apply_of_mem m a (by rw [List.length_append]; omega), List.getElem_append_left hk,
      write_apply_of_not_mem _ _ (by omega), write_apply_of_mem m a hk]
  · by_cases hy : a + xs.length ≤ i ∧ i < a + xs.length + ys.length
    · obtain ⟨k, rfl⟩ := Nat.exists_eq_add_of_le hy.1
      have hk : k < ys.length := by omega
      rw [write_apply_of_mem _ _ hk, Nat.add_assoc,
        write_apply_of_mem m a (by rw [List.length_append]; omega),
        List.getElem_append_right (by omega)]
      simp
    · rw [write_apply_of_not_mem _ _ (by rw [List.length_append]; omega),
        write_apply_of_not_mem _ _ (by omega), write_apply_of_not_mem _ _ (by omega)]

/-- A second write to the same bytes covers the first. -/
theorem write_write {xs ys : List UInt8} (h : xs.length = ys.length) :
    (m.write a xs).write a ys = m.write a ys := by
  funext i
  by_cases hi : a ≤ i ∧ i < a + ys.length
  · obtain ⟨k, rfl⟩ := Nat.exists_eq_add_of_le hi.1
    have hk : k < ys.length := by omega
    rw [write_apply_of_mem _ _ hk, write_apply_of_mem _ _ hk]
  · rw [write_apply_of_not_mem _ _ (by omega), write_apply_of_not_mem _ _ (by omega),
      write_apply_of_not_mem _ _ (by omega)]

/-! ### The same bytes written at several places -/

/-- The memory after `bs` is stored at each of the offsets, one after the other. -/
def writeAll (as : List ℕ) (bs : List UInt8) : Mem := as.foldl (fun m a => m.write a bs) m

variable {m a} {as : List ℕ} {bs : List UInt8}

/-- To store what is there already changes nothing. -/
theorem write_of_read (h : m.read a bs.length = bs) : m.write a bs = m := by
  ext1 i
  by_cases hi : a ≤ i ∧ i < a + bs.length
  · obtain ⟨k, rfl⟩ := Nat.exists_eq_add_of_le hi.1
    have hk : k < bs.length := by omega
    have hget := List.getElem_of_eq h (i := k) (by rw [length_read]; exact hk)
    rw [write_apply_of_mem m a hk, ← hget, getElem_read]
  · exact m.write_apply_of_not_mem a (by omega)

theorem write_eq_self_iff : m.write a bs = m ↔ m.read a bs.length = bs := by
  refine ⟨fun h => ?_, write_of_read⟩
  conv_lhs => rw [← h]
  exact m.read_write a bs

theorem writeAll_of_read (h : ∀ a ∈ as, m.read a bs.length = bs) : m.writeAll as bs = m := by
  induction as with
  | nil => rfl
  | cons a as ih =>
    rw [writeAll, List.foldl_cons, write_of_read (h a List.mem_cons_self)]
    exact ih fun a' ha' => h a' (List.mem_cons_of_mem _ ha')

theorem read_writeAll_of_apart {b n : ℕ} (h : ∀ a ∈ as, b + n ≤ a ∨ a + bs.length ≤ b) :
    (m.writeAll as bs).read b n = m.read b n := by
  induction as generalizing m with
  | nil => rfl
  | cons a as ih =>
    rw [writeAll, List.foldl_cons, ← read_write_of_apart m a (h a List.mem_cons_self)]
    exact ih fun a' ha' => h a' (List.mem_cons_of_mem _ ha')

/-- At places far enough apart all copies are there in the end. -/
theorem read_writeAll (h : as.Pairwise fun a b => a + bs.length ≤ b) (ha : a ∈ as) :
    (m.writeAll as bs).read a bs.length = bs := by
  induction as generalizing m with
  | nil => cases ha
  | cons b as ih =>
    obtain ⟨hb, has⟩ := List.pairwise_cons.mp h
    rw [writeAll, List.foldl_cons]
    rcases List.mem_cons.mp ha with rfl | ha
    · have hlater : ((m.write a bs).writeAll as bs).read a bs.length
          = (m.write a bs).read a bs.length :=
        read_writeAll_of_apart fun a' ha' => Or.inl (hb a' ha')
      exact hlater.trans (read_write m a bs)
    · exact ih has ha

/-! ### Memory given by a list -/

/-- The memory which holds `bs` from offset `0` on and zeros after it. -/
def ofList (bs : List UInt8) : Mem := fun i => bs.getD i 0

theorem ofList_apply_of_le {bs : List UInt8} {i : ℕ} (h : bs.length ≤ i) : ofList bs i = 0 :=
  List.getD_eq_default _ _ h

theorem ofList_eq_write (bs : List UInt8) : ofList bs = Mem.write (fun _ => 0) 0 bs := by
  ext1 i
  rcases Nat.lt_or_ge i bs.length with hi | hi
  · have hget := write_apply_of_mem (fun _ => 0) 0 hi
    rw [Nat.zero_add] at hget
    rw [hget]
    exact (List.getElem_eq_getD 0).symm
  · rw [ofList_apply_of_le hi, write_apply_of_not_mem _ _ (by omega)]

theorem read_ofList {bs : List UInt8} {n : ℕ} (h : n ≤ bs.length) :
    (ofList bs).read 0 n = bs.take n := by
  apply List.ext_getElem
  · rw [length_read, List.length_take_of_le h]
  · intro i _ hi
    rw [getElem_read, Nat.zero_add, List.getElem_take]
    exact (List.getElem_eq_getD 0).symm

theorem ofList_append (xs ys : List UInt8) :
    ofList (xs ++ ys) = (ofList xs).write xs.length ys := by
  rw [ofList_eq_write, ofList_eq_write, write_append, Nat.zero_add]

end Mem

/-! ### 32-bit numbers as bytes -/

/-- The four bytes of a 32-bit number, least significant first. -/
def wordBytes (n : ℕ) : List UInt8 :=
  [UInt8.ofNat n, UInt8.ofNat (n / 256), UInt8.ofNat (n / 65536), UInt8.ofNat (n / 16777216)]

@[simp] theorem length_wordBytes (n : ℕ) : (wordBytes n).length = 4 := rfl

/-- Where the four bytes of `n` stand, `n` is read. -/
theorem Mem.word_of_read {m : Mem} {a n : ℕ} (hn : n < 4294967296)
    (h : m.read a 4 = wordBytes n) : m.word a = n := by
  have hbytes : [m a, m (a + 1), m (a + 2), m (a + 3)] = wordBytes n := h
  simp only [wordBytes, List.cons.injEq, and_true] at hbytes
  obtain ⟨h0, h1, h2, h3⟩ := hbytes
  rw [Mem.word, h0, h1, h2, h3]
  simp only [UInt8.toNat_ofNat']
  omega

/-! ### Network order -/

/-- The four bytes of a 32-bit number, most significant first. -/
def netBytes (n : ℕ) : List UInt8 :=
  [UInt8.ofNat (n / 16777216), UInt8.ofNat (n / 65536), UInt8.ofNat (n / 256), UInt8.ofNat n]

@[simp] theorem length_netBytes (n : ℕ) : (netBytes n).length = 4 := rfl

/-- The unsigned 32-bit number in network order at offset `a`. -/
def Mem.netWord (m : Mem) (a : ℕ) : ℕ :=
  16777216 * (m a).toNat + 65536 * (m (a + 1)).toNat + 256 * (m (a + 2)).toNat + (m (a + 3)).toNat

theorem Mem.netWord_congr {m m' : Mem} {a a' : ℕ} (h : m.read a 4 = m'.read a' 4) :
    m.netWord a = m'.netWord a' := by
  rw [Mem.read_eq_iff] at h
  simp only [Mem.netWord, h 1 (by omega), h 2 (by omega), h 3 (by omega)]
  rw [show m a = m' a' from h 0 (by omega)]

theorem Mem.netWord_of_read {m : Mem} {a n : ℕ} (hn : n < 4294967296)
    (h : m.read a 4 = netBytes n) : m.netWord a = n := by
  have hbytes : [m a, m (a + 1), m (a + 2), m (a + 3)] = netBytes n := h
  simp only [netBytes, List.cons.injEq, and_true] at hbytes
  obtain ⟨h0, h1, h2, h3⟩ := hbytes
  rw [Mem.netWord, h0, h1, h2, h3]
  simp only [UInt8.toNat_ofNat']
  omega

end Lab1
