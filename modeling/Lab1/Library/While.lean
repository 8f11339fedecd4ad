import Lab1.Library.Exec

/-!
# Loops

`whileLoop cond body` is a C++ `while` loop whose body may return from the function
(`.inl r`), go on with a new state (`.inr s`), or fault.  The loop takes an amount of fuel, one unit
a turn.  `Ends` abstracts from it: a loop ends when it ends for some fuel, and then it ends the
same way for every larger amount (`whileLoop_mono`).  A measure that goes down in every turn is
enough fuel (`whileLoop_total`, `ends_iff_of_measure`).

The second part is about loops that read their input.  Often what decides whether such a loop
ends without a fault is a small part `κ` of its state (say, where it reads next), and the loop is
fine as long as its input has the right shape there.  A `Grammar` says what this shape is: which
items the loop can read at a place, where an item takes it, and where the loop can stop.
`ends_iff_fits` turns a proof about a single turn into one about the whole loop.
-/

namespace Lab1

variable {σ ρ : Type*}

/-- `while (cond) body`. -/
def whileLoop (cond : σ → Bool) (body : σ → Except Fault (ρ ⊕ σ)) :
    ℕ → σ → Except Fault (ρ ⊕ σ)
  | 0, _ => .error .noFuel
  | fuel + 1, s =>
    if cond s then do
      match ← body s with
      | .inl r => return .inl r
      | .inr s' => whileLoop cond body fuel s'
    else .ok (.inr s)

section While

variable {cond : σ → Bool} {body : σ → Except Fault (ρ ⊕ σ)} {s s' : σ} {r : ρ ⊕ σ} {x : ρ}

/-! ### One turn -/

theorem whileLoop_of_not {fuel : ℕ} (h : cond s = false) :
    whileLoop cond body (fuel + 1) s = .ok (.inr s) := by
  rw [whileLoop, h]
  rfl

theorem whileLoop_of_inl {fuel : ℕ} (h : cond s = true) (hbody : body s = .ok (.inl x)) :
    whileLoop cond body (fuel + 1) s = .ok (.inl x) := by
  rw [whileLoop, if_pos h, hbody]
  rfl

theorem whileLoop_of_inr {fuel : ℕ} (h : cond s = true) (hbody : body s = .ok (.inr s')) :
    whileLoop cond body (fuel + 1) s = whileLoop cond body fuel s' := by
  rw [whileLoop, if_pos h, hbody]
  rfl

theorem whileLoop_of_error {fuel : ℕ} {f : Fault} (h : cond s = true)
    (hbody : body s = .error f) : whileLoop cond body (fuel + 1) s = .error f := by
  rw [whileLoop, if_pos h, hbody]
  rfl

/-- The ways in which a loop comes to a result. -/
theorem whileLoop_eq_ok {fuel : ℕ} :
    whileLoop cond body (fuel + 1) s = .ok r ↔
      (cond s = false ∧ r = .inr s) ∨ (cond s = true ∧ ∃ x, body s = .ok (.inl x) ∧ r = .inl x) ∨
        (cond s = true ∧ ∃ s', body s = .ok (.inr s') ∧ whileLoop cond body fuel s' = .ok r) := by
  rcases hcond : cond s with _ | _
  · rw [whileLoop_of_not hcond]
    simp [eq_comm]
  · rcases hbody : body s with f | x | s'
    · simp [whileLoop_of_error hcond hbody]
    · simp [whileLoop_of_inl hcond hbody, eq_comm]
    · simp [whileLoop_of_inr hcond hbody]

/-! ### Fuel -/

theorem whileLoop_mono {m n : ℕ} (h : whileLoop cond body m s = .ok r) (hmn : m ≤ n) :
    whileLoop cond body n s = .ok r := by
  induction m generalizing n s with
  | zero => cases h
  | succ m ih =>
    obtain ⟨n, rfl⟩ : ∃ n', n = n' + 1 := ⟨n - 1, by omega⟩
    rcases whileLoop_eq_ok.mp h with h | h | ⟨hcond, s', hbody, hrest⟩
    · exact whileLoop_eq_ok.mpr (Or.inl h)
    · exact whileLoop_eq_ok.mpr (Or.inr (Or.inl h))
    · rw [whileLoop_of_inr hcond hbody]
      exact ih hrest (by omega)

/-- What the body returns, the loop returns. -/
theorem whileLoop_inl {P : ρ → Prop} (hP : ∀ s x, body s = .ok (.inl x) → P x) {fuel : ℕ}
    (h : whileLoop cond body fuel s = .ok (.inl x)) : P x := by
  induction fuel generalizing s with
  | zero => cases h
  | succ fuel ih =>
    rcases whileLoop_eq_ok.mp h with ⟨_, h⟩ | ⟨_, x, hbody, h⟩ | ⟨_, s', _, hrest⟩
    · cases h
    · cases h
      exact hP s x hbody
    · exact ih hrest

/-- The rule for loops: what every turn keeps holds when the loop is left, and the condition does
not. -/
theorem whileLoop_invariant (I : σ → Prop)
    (hI : ∀ s s', I s → cond s = true → body s = .ok (.inr s') → I s') {fuel : ℕ} (hs : I s)
    (h : whileLoop cond body fuel s = .ok (.inr s')) : I s' ∧ cond s' = false := by
  induction fuel generalizing s with
  | zero => cases h
  | succ fuel ih =>
    rcases whileLoop_eq_ok.mp h with ⟨hcond, h⟩ | ⟨_, x, _, h⟩ | ⟨hcond, s'', hbody, hrest⟩
    · cases h
      exact ⟨hs, hcond⟩
    · cases h
    · exact ih (hI s s'' hs hcond hbody) hrest

/-- The rule for total correctness.  Where every turn returns something of which `P` holds, or keeps
`I` and lowers a measure, the loop comes to a result, and the result is of one of these kinds. -/
theorem whileLoop_total (cond : σ → Bool) (body : σ → Except Fault (ρ ⊕ σ)) (I : σ → Prop)
    (P : ρ → Prop) (μ : σ → ℕ)
    (hbody : ∀ s, I s → cond s = true →
      (∃ x, body s = .ok (.inl x) ∧ P x) ∨ ∃ s', body s = .ok (.inr s') ∧ I s' ∧ μ s' < μ s)
    {fuel : ℕ} (hs : I s) (hfuel : μ s < fuel) :
    (∃ x, whileLoop cond body fuel s = .ok (.inl x) ∧ P x) ∨
      ∃ s', whileLoop cond body fuel s = .ok (.inr s') ∧ I s' ∧ cond s' = false := by
  induction fuel generalizing s with
  | zero => omega
  | succ fuel ih =>
    rcases hcond : cond s with _ | _
    · exact Or.inr ⟨s, whileLoop_of_not hcond, hs, hcond⟩
    · rcases hbody s hs hcond with ⟨x, hx, hP⟩ | ⟨s', hs', hI, hμ⟩
      · exact Or.inl ⟨x, whileLoop_of_inl hcond hx, hP⟩
      · rw [whileLoop_of_inr hcond hs']
        exact ih hI (by omega)

/-- The loop ends with the result `r`. -/
def Ends (cond : σ → Bool) (body : σ → Except Fault (ρ ⊕ σ)) (s : σ) (r : ρ ⊕ σ) : Prop :=
  ∃ fuel, whileLoop cond body fuel s = .ok r

theorem ends_iff :
    Ends cond body s r ↔
      (cond s = false ∧ r = .inr s) ∨ (cond s = true ∧ ∃ x, body s = .ok (.inl x) ∧ r = .inl x) ∨
        (cond s = true ∧ ∃ s', body s = .ok (.inr s') ∧ Ends cond body s' r) := by
  constructor
  · rintro ⟨_ | fuel, h⟩
    · cases h
    · rcases whileLoop_eq_ok.mp h with h | h | ⟨hcond, s', hbody, hrest⟩
      · exact Or.inl h
      · exact Or.inr (Or.inl h)
      · exact Or.inr (Or.inr ⟨hcond, s', hbody, fuel, hrest⟩)
  · rintro (h | h | ⟨hcond, s', hbody, fuel, hrest⟩)
    · exact ⟨1, whileLoop_eq_ok.mpr (Or.inl h)⟩
    · exact ⟨1, whileLoop_eq_ok.mpr (Or.inr (Or.inl h))⟩
    · exact ⟨fuel + 1, by rw [whileLoop_of_inr hcond hbody, hrest]⟩

/-- The rule for loops without an end: there is always a next turn. -/
theorem not_ends (I : σ → Prop) (hcond : ∀ s, I s → cond s = true)
    (hbody : ∀ s r, I s → body s = .ok r → ∃ s', r = .inr s' ∧ I s') (hs : I s) :
    ¬Ends cond body s r := by
  rintro ⟨fuel, hrun⟩
  induction fuel generalizing s with
  | zero => cases hrun
  | succ fuel ih =>
    rcases whileLoop_eq_ok.mp hrun with ⟨hleft, -⟩ | ⟨-, x, hx, -⟩ | ⟨-, s', hs', hrest⟩
    · rw [hcond s hs] at hleft
      cases hleft
    · obtain ⟨_, hinr, _⟩ := hbody s _ hs hx
      cases hinr
    · obtain ⟨_, hinr, hI⟩ := hbody s _ hs hs'
      cases hinr
      exact ih hI hrest

/-- With enough fuel, the loop comes to a result exactly if it ends. -/
theorem ends_iff_of_measure (μ : σ → ℕ)
    (hμ : ∀ s s', cond s = true → body s = .ok (.inr s') → μ s' < μ s)
    {fuel : ℕ} (hfuel : μ s < fuel) :
    Ends cond body s r ↔ whileLoop cond body fuel s = .ok r := by
  refine ⟨fun h => ?_, fun h => ⟨fuel, h⟩⟩
  obtain ⟨n, h⟩ := h
  -- along the run that ends, the measure stays below the fuel left
  induction n generalizing fuel s with
  | zero => cases h
  | succ n ih =>
    obtain ⟨fuel, rfl⟩ : ∃ k, fuel = k + 1 := ⟨fuel - 1, by omega⟩
    rcases whileLoop_eq_ok.mp h with h | h | ⟨hcond, s', hbody, hrest⟩
    · exact whileLoop_eq_ok.mpr (Or.inl h)
    · exact whileLoop_eq_ok.mpr (Or.inr (Or.inl h))
    · have hlt := hμ s s' hcond hbody
      rw [whileLoop_of_inr hcond hbody]
      exact ih (by omega) hrest

end While

/-! ### Loops that read items -/

/-- The shape of an input: `κ` is what the loop keeps track of while it reads, `τ` an item. -/
structure Grammar (κ τ : Type*) where
  /-- there is more to read -/
  More : κ → Prop
  /-- the item stands there and can be read -/
  Item : κ → τ → Prop
  /-- the place behind the item -/
  next : κ → τ → κ
  /-- the input ends the loop there -/
  Stop : κ → Prop

/-- From `k` on the input consists of the items `ts`, up to where the loop stops. -/
def Grammar.Fits {κ τ : Type*} (g : Grammar κ τ) : List τ → κ → Prop
  | [], k => ¬g.More k ∨ g.Stop k
  | t :: ts, k => g.More k ∧ g.Item k t ∧ g.Fits ts (g.next k t)

/-- One turn of the loop reads the grammar `g` at the place `p s`. -/
structure Reads {κ τ : Type*} (g : Grammar κ τ) (p : σ → κ) (cond : σ → Bool)
    (body : σ → Except Fault (ρ ⊕ σ)) : Prop where
  more : ∀ s, cond s = true ↔ g.More (p s)
  stop : ∀ s, (∃ x, body s = .ok (.inl x)) ↔ g.Stop (p s)
  item : ∀ s t, g.Item (p s) t → ∃ s', body s = .ok (.inr s') ∧ p s' = g.next (p s) t
  exists_item : ∀ s s', body s = .ok (.inr s') → ∃ t, g.Item (p s) t ∧ p s' = g.next (p s) t

/-- It is enough to say what a turn can come to, and that a turn succeeds wherever the grammar
wants it to. -/
theorem Reads.of_cases {κ τ : Type*} {g : Grammar κ τ} {p : σ → κ} {cond : σ → Bool}
    {body : σ → Except Fault (ρ ⊕ σ)} (hmore : ∀ s, cond s = true ↔ g.More (p s))
    (hcases : ∀ s r, body s = .ok r → (∃ x, r = .inl x ∧ g.Stop (p s)) ∨
      ∃ t s', r = .inr s' ∧ g.Item (p s) t ∧ p s' = g.next (p s) t)
    (hstop : ∀ s, g.Stop (p s) → ∃ x, body s = .ok (.inl x))
    (hitem : ∀ s t, g.Item (p s) t → ∃ s', body s = .ok (.inr s') ∧ p s' = g.next (p s) t) :
    Reads g p cond body where
  more := hmore
  stop s := by
    refine ⟨fun ⟨x, hx⟩ => ?_, hstop s⟩
    rcases hcases s _ hx with ⟨_, _, h⟩ | ⟨t, s', hinr, _⟩
    · exact h
    · cases hinr
  item := hitem
  exists_item s s' hs' := by
    rcases hcases s _ hs' with ⟨x, hinl, _⟩ | ⟨t, s'', hinr, ht, hnext⟩
    · cases hinl
    · cases hinr
      exact ⟨t, ht, hnext⟩

/-- The items `ts` take a loop from `k` to `k'`. -/
def Grammar.Path {κ τ : Type*} (g : Grammar κ τ) : List τ → κ → κ → Prop
  | [], k, k' => k = k'
  | t :: ts, k, k' => g.More k ∧ g.Item k t ∧ g.Path ts (g.next k t) k'

/-- What every item keeps holds at the end of the path. -/
theorem Grammar.Path.invariant {κ τ : Type*} {g : Grammar κ τ} (I : κ → Prop)
    (hI : ∀ k t, I k → g.Item k t → I (g.next k t)) {ts : List τ} {k k' : κ}
    (hpath : g.Path ts k k') (hk : I k) : I k' := by
  induction ts generalizing k with
  | nil =>
    obtain rfl : k = k' := hpath
    exact hk
  | cons t ts ih => exact ih hpath.2.2 (hI k t hk hpath.2.1)

/-- Items lead from `k` to a place where the input ends the loop. -/
def Grammar.Refused {κ τ : Type*} (g : Grammar κ τ) (k : κ) : Prop :=
  ∃ k', (∃ ts, g.Path ts k k') ∧ g.More k' ∧ g.Stop k'

/-- The shapes with which a loop ends: it returns from the middle of the input, or reads all of
it. -/
theorem Grammar.exists_fits_iff {κ τ : Type*} {g : Grammar κ τ} {k : κ} :
    (∃ ts, g.Fits ts k) ↔ g.Refused k ∨ ∃ k', (∃ ts, g.Path ts k k') ∧ ¬g.More k' := by
  have hpath : ∀ ts k, g.Fits ts k ↔ ∃ k', g.Path ts k k' ∧ (¬g.More k' ∨ g.Stop k') := by
    intro ts
    induction ts with
    | nil =>
      intro k
      simp [Fits, Path]
    | cons t ts ih =>
      intro k
      rw [Fits, ih]
      simp only [Path, and_assoc, exists_and_left]
  simp only [hpath]
  constructor
  · rintro ⟨ts, k', hto, hend⟩
    by_cases hmore : g.More k'
    · exact Or.inl ⟨k', ⟨ts, hto⟩, hmore, hend.resolve_left (not_not_intro hmore)⟩
    · exact Or.inr ⟨k', ⟨ts, hto⟩, hmore⟩
  · rintro (⟨k', ⟨ts, hto⟩, _, hstop⟩ | ⟨k', ⟨ts, hto⟩, hmore⟩)
    · exact ⟨ts, k', hto, Or.inr hstop⟩
    · exact ⟨ts, k', hto, Or.inl hmore⟩

/-- When a loop that reads items returns from the function. -/
theorem Reads.ends_inl_iff {κ τ : Type*} {g : Grammar κ τ} {p : σ → κ} {cond : σ → Bool}
    {body : σ → Except Fault (ρ ⊕ σ)} (h : Reads g p cond body) (s : σ) :
    (∃ x, Ends cond body s (.inl x)) ↔ g.Refused (p s) := by
  constructor
  · rintro ⟨x, fuel, hrun⟩
    induction fuel generalizing s with
    | zero => cases hrun
    | succ fuel ih =>
      rcases whileLoop_eq_ok.mp hrun with
        ⟨_, heq⟩ | ⟨hcond, x, hbody, _⟩ | ⟨hcond, s', hbody, hrest⟩
      · cases heq
      · exact ⟨p s, ⟨[], rfl⟩, (h.more s).mp hcond, (h.stop s).mp ⟨x, hbody⟩⟩
      · -- the item of this turn stands before those of the other turns
        obtain ⟨t, hitem, hnext⟩ := h.exists_item s s' hbody
        obtain ⟨k', ⟨ts, hpath⟩, hend⟩ := ih s' hrest
        rw [hnext] at hpath
        exact ⟨k', ⟨t :: ts, (h.more s).mp hcond, hitem, hpath⟩, hend⟩
  · rintro ⟨k', ⟨ts, hpath⟩, hmore, hstop⟩
    induction ts generalizing s with
    | nil =>
      obtain rfl : p s = k' := hpath
      obtain ⟨x, hbody⟩ := (h.stop s).mpr hstop
      exact ⟨x, ends_iff.mpr (Or.inr (Or.inl ⟨(h.more s).mpr hmore, x, hbody, rfl⟩))⟩
    | cons t ts ih =>
      obtain ⟨hmore', hitem, hpath⟩ := hpath
      obtain ⟨s', hbody, hnext⟩ := h.item s t hitem
      rw [← hnext] at hpath
      obtain ⟨x, hends⟩ := ih s' hpath
      exact ⟨x, ends_iff.mpr (Or.inr (Or.inr ⟨(h.more s).mpr hmore', s', hbody, hends⟩))⟩

/-- Where a loop that reads items is left: at a place to which items lead and where there is no more
to read. -/
theorem Reads.ends_inr_iff {κ τ : Type*} {g : Grammar κ τ} {p : σ → κ} {cond : σ → Bool}
    {body : σ → Except Fault (ρ ⊕ σ)} (h : Reads g p cond body) (s : σ) (k : κ) :
    (∃ s', Ends cond body s (.inr s') ∧ p s' = k) ↔ (∃ ts, g.Path ts (p s) k) ∧ ¬g.More k := by
  constructor
  · rintro ⟨s', ⟨fuel, hrun⟩, rfl⟩
    induction fuel generalizing s with
    | zero => cases hrun
    | succ fuel ih =>
      rcases whileLoop_eq_ok.mp hrun with ⟨hcond, heq⟩ | ⟨_, x, _, heq⟩ | ⟨hcond, s'', hbody, hrest⟩
      · cases heq
        refine ⟨⟨[], rfl⟩, fun hmore => ?_⟩
        rw [(h.more s').mpr hmore] at hcond
        cases hcond
      · cases heq
      · obtain ⟨t, hitem, hnext⟩ := h.exists_item s s'' hbody
        obtain ⟨⟨ts, hpath⟩, hlast⟩ := ih s'' hrest
        rw [hnext] at hpath
        exact ⟨⟨t :: ts, (h.more s).mp hcond, hitem, hpath⟩, hlast⟩
  · rintro ⟨⟨ts, hpath⟩, hlast⟩
    induction ts generalizing s with
    | nil =>
      obtain rfl : p s = k := hpath
      have hcond : cond s = false := by
        rw [← Bool.not_eq_true, h.more]
        exact hlast
      exact ⟨s, ends_iff.mpr (Or.inl ⟨hcond, rfl⟩), rfl⟩
    | cons t ts ih =>
      obtain ⟨hmore, hitem, hpath⟩ := hpath
      obtain ⟨s'', hbody, hnext⟩ := h.item s t hitem
      rw [← hnext] at hpath
      obtain ⟨s', hends, hp⟩ := ih s'' hpath
      exact ⟨s', ends_iff.mpr (Or.inr (Or.inr ⟨(h.more s).mpr hmore, s'', hbody, hends⟩)), hp⟩

/-- **Loops that read items.**  The loop ends without a fault if and only if its input has the
shape that the grammar describes. -/
theorem Reads.ends_iff_fits {κ τ : Type*} {g : Grammar κ τ} {p : σ → κ} {cond : σ → Bool}
    {body : σ → Except Fault (ρ ⊕ σ)} (h : Reads g p cond body) (s : σ) :
    (∃ r, Ends cond body s r) ↔ ∃ ts, g.Fits ts (p s) := by
  rw [Grammar.exists_fits_iff, ← h.ends_inl_iff]
  constructor
  · rintro ⟨x | s', hends⟩
    · exact Or.inl ⟨x, hends⟩
    · exact Or.inr ⟨p s', (h.ends_inr_iff s _).mp ⟨s', hends, rfl⟩⟩
  · rintro (⟨x, hends⟩ | ⟨k', hread⟩)
    · exact ⟨_, hends⟩
    · obtain ⟨s', hends, _⟩ := (h.ends_inr_iff s k').mpr hread
      exact ⟨_, hends⟩

end Lab1
