import Mathlib.Data.List.Basic

/-!
# Fallible computations and their runs

A C++ computation that may abort or step outside an object is a value of `Except Fault α`: the
checks `require f c` name the fault that an unmet condition is.

`exec step s ops` runs a fallible transition function over a list of operations and collects
the outputs.  It stops at the first fault, so `exec step s ops = .ok (t, outs)` says that every
step of the run was taken.  `exec_invariant` is the one induction over runs: a property of the
history and the state which holds at the start and is kept by every step holds at the end of
every run.  `exec_simulation` is the rule for a program that does what a specification does.
-/

namespace Lab1

/-! ### Faults -/

/-- What can stop a C++ computation before it returns. -/
inductive Fault where
  /-- an `assert` whose argument is false -/
  | assertFailed
  /-- an access outside the object it is meant for -/
  | outOfBounds
  /-- a null (or past-the-end) pointer is followed -/
  | nullPointer
  /-- not a fault of the program: the model's bound on loop iterations is used up -/
  | noFuel
  deriving DecidableEq, Repr

/-- Go on only if `c` holds; otherwise stop with the fault `f`. -/
def require (f : Fault) (c : Prop) [Decidable c] : Except Fault Unit :=
  if c then .ok () else .error f

@[simp] theorem require_true {f : Fault} {c : Prop} [Decidable c] (h : c) :
    require f c = .ok () := if_pos h

@[simp] theorem require_false {f : Fault} {c : Prop} [Decidable c] (h : ¬c) :
    require f c = .error f := if_neg h

theorem require_eq_ok {f : Fault} {c : Prop} [Decidable c] {u : Unit} :
    require f c = .ok u ↔ c := by
  unfold require
  split_ifs with h <;> simp [h]

theorem require_eq_error {f g : Fault} {c : Prop} [Decidable c] :
    require f c = .error g ↔ ¬c ∧ f = g := by
  unfold require
  split_ifs with h <;> simp [h]

theorem ok_pair_inj {ε α β : Type*} {a a' : α} {b b' : β}
    (h : (Except.ok (a, b) : Except ε (α × β)) = .ok (a', b')) : a = a' ∧ b = b' :=
  Prod.mk.inj (Except.ok.inj h)

section Bind

universe u v

variable {ε : Type u} {α β : Type v}

@[simp] theorem ok_bind (a : α) (g : α → Except ε β) : ((Except.ok a : Except ε α) >>= g) = g a :=
  rfl

@[simp] theorem error_bind (e : ε) (g : α → Except ε β) :
    ((Except.error e : Except ε α) >>= g) = .error e := rfl

theorem bind_eq_ok {x : Except ε α} {g : α → Except ε β} {b : β} :
    (x >>= g) = .ok b ↔ ∃ a, x = .ok a ∧ g a = .ok b := by
  cases x with
  | error e => simp
  | ok a => simp

theorem bind_eq_error {x : Except ε α} {g : α → Except ε β} {e : ε} :
    (x >>= g) = .error e ↔ x = .error e ∨ ∃ a, x = .ok a ∧ g a = .error e := by
  cases x with
  | error e' => simp
  | ok a => simp

theorem pure_eq_ok {a b : α} : (pure a : Except ε α) = .ok b ↔ a = b := ⟨Except.ok.inj, congrArg _⟩

theorem pure_ne_error (a : α) (e : ε) : (pure a : Except ε α) ≠ .error e := nofun

/-- A fault that neither part gives is not given by the whole. -/
theorem bind_ne_error {x : Except ε α} {g : α → Except ε β} {e : ε} (hx : x ≠ .error e)
    (hg : ∀ a, x = .ok a → g a ≠ .error e) : (x >>= g) ≠ .error e := by
  intro h
  rcases bind_eq_error.mp h with h | ⟨a, ha, h⟩
  · exact hx h
  · exact hg a ha h

end Bind

theorem require_ne_error {f g : Fault} {c : Prop} [Decidable c] (h : f ≠ g) :
    require f c ≠ .error g := fun hreq => h (require_eq_error.mp hreq).2

/-! ### Every element of a list -/

section MapM

universe u v w

variable {ε : Type u} {α : Type w} {β : Type v} {f : α → Except ε β}

theorem mapM_cons_eq_ok {x : α} {xs : List α} {ys : List β} :
    (x :: xs).mapM f = .ok ys ↔
      ∃ y ys', f x = .ok y ∧ xs.mapM f = .ok ys' ∧ ys = y :: ys' := by
  rw [List.mapM_cons, bind_eq_ok]
  constructor
  · rintro ⟨y, hy, h⟩
    obtain ⟨ys', hys', h⟩ := bind_eq_ok.mp h
    cases h
    exact ⟨y, ys', hy, hys', rfl⟩
  · rintro ⟨y, ys', hy, hys', rfl⟩
    exact ⟨y, hy, bind_eq_ok.mpr ⟨ys', hys', rfl⟩⟩

theorem length_mapM {xs : List α} {ys : List β} (h : xs.mapM f = .ok ys) :
    ys.length = xs.length := by
  induction xs generalizing ys with
  | nil =>
    cases h
    rfl
  | cons x xs ih =>
    obtain ⟨y, ys', _, hys', rfl⟩ := mapM_cons_eq_ok.mp h
    rw [List.length_cons, List.length_cons, ih hys']

theorem exists_mapM {xs : List α} (h : ∀ x ∈ xs, ∃ y, f x = .ok y) : ∃ ys, xs.mapM f = .ok ys := by
  induction xs with
  | nil => exact ⟨[], rfl⟩
  | cons x xs ih =>
    obtain ⟨y, hy⟩ := h x List.mem_cons_self
    obtain ⟨ys, hys⟩ := ih fun x' hx' => h x' (List.mem_cons_of_mem _ hx')
    exact ⟨y :: ys, mapM_cons_eq_ok.mpr ⟨y, ys, hy, hys, rfl⟩⟩

end MapM

/-! ### Runs -/

section Exec

variable {ε σ α β : Type*} (step : σ → α → Except ε (σ × β))

/-- Run `step` over the operations, from `s` on, and collect the outputs. -/
def exec (s : σ) : List α → Except ε (σ × List β)
  | [] => .ok (s, [])
  | a :: as => do
    let (s', b) ← step s a
    let (t, bs) ← exec s' as
    return (t, b :: bs)

variable {step} {s t : σ}

@[simp] theorem exec_nil : exec step s [] = .ok (s, []) := rfl

theorem exec_cons_eq_ok {a : α} {as : List α} {bs : List β} :
    exec step s (a :: as) = .ok (t, bs) ↔
      ∃ s' b bs', step s a = .ok (s', b) ∧ exec step s' as = .ok (t, bs') ∧ bs = b :: bs' := by
  rw [exec, bind_eq_ok]
  constructor
  · rintro ⟨⟨s', b⟩, hstep, h⟩
    rw [bind_eq_ok] at h
    obtain ⟨⟨t', bs'⟩, hrest, hpure⟩ := h
    cases hpure
    exact ⟨s', b, bs', hstep, hrest, rfl⟩
  · rintro ⟨s', b, bs', hstep, hrest, rfl⟩
    exact ⟨(s', b), hstep, by simp only [hrest, ok_bind]; rfl⟩

theorem exec_cons_eq_error {a : α} {as : List α} {e : ε} :
    exec step s (a :: as) = .error e ↔ step s a = .error e ∨
      ∃ s' b, step s a = .ok (s', b) ∧ exec step s' as = .error e := by
  rw [exec, bind_eq_error]
  refine or_congr_right ⟨?_, ?_⟩
  · rintro ⟨⟨s', b⟩, hstep, h⟩
    rcases bind_eq_error.mp h with hrest | ⟨_, _, hpure⟩
    · exact ⟨s', b, hstep, hrest⟩
    · exact absurd hpure (pure_ne_error _ _)
  · rintro ⟨s', b, hstep, hrest⟩
    exact ⟨(s', b), hstep, bind_eq_error.mpr (Or.inl hrest)⟩

theorem exec_append_eq_ok {xs ys : List α} {bs : List β} :
    exec step s (xs ++ ys) = .ok (t, bs) ↔
      ∃ m b₁ b₂, exec step s xs = .ok (m, b₁) ∧ exec step m ys = .ok (t, b₂) ∧ bs = b₁ ++ b₂ := by
  induction xs generalizing s bs with
  | nil => simp
  | cons x xs ih =>
    simp only [List.cons_append, exec_cons_eq_ok, ih]
    constructor
    · rintro ⟨s', b, _, hstep, ⟨m, b₁, b₂, hxs, hys, rfl⟩, rfl⟩
      exact ⟨m, b :: b₁, b₂, ⟨s', b, b₁, hstep, hxs, rfl⟩, hys, rfl⟩
    · rintro ⟨m, _, b₂, ⟨s', b, b₁, hstep, hxs, rfl⟩, hys, rfl⟩
      exact ⟨s', b, b₁ ++ b₂, hstep, ⟨m, b₁, b₂, hxs, hys, rfl⟩, rfl⟩

theorem exec_singleton_eq_ok {a : α} {bs : List β} :
    exec step s [a] = .ok (t, bs) ↔ ∃ b, step s a = .ok (t, b) ∧ bs = [b] := by
  rw [exec_cons_eq_ok]
  constructor
  · rintro ⟨s', b, bs', hstep, hnil, rfl⟩
    cases hnil
    exact ⟨b, hstep, rfl⟩
  · rintro ⟨b, hstep, rfl⟩
    exact ⟨t, b, [], hstep, rfl, rfl⟩

/-- A run gives one output for each operation. -/
theorem length_exec {as : List α} {bs : List β} (h : exec step s as = .ok (t, bs)) :
    bs.length = as.length := by
  induction as generalizing s bs with
  | nil => cases h; rfl
  | cons a as ih =>
    obtain ⟨s', b, bs', _, hrest, rfl⟩ := exec_cons_eq_ok.mp h
    simp [ih hrest]

private theorem exec_history_invariant_aux (I : List (α × β) → σ → Prop)
    (hstep : ∀ hist s a s' b, I hist s → step s a = .ok (s', b) → I (hist ++ [(a, b)]) s')
    {hist : List (α × β)} {as : List α} {bs : List β} (hs : I hist s)
    (h : exec step s as = .ok (t, bs)) : I (hist ++ as.zip bs) t := by
  induction as generalizing hist s bs with
  | nil =>
    cases h
    simpa using hs
  | cons a as ih =>
    obtain ⟨s', b, bs', h1, hrest, rfl⟩ := exec_cons_eq_ok.mp h
    have hnext := ih (hstep _ _ _ _ _ hs h1) hrest
    rwa [List.append_assoc] at hnext

/-- **The induction over runs.**  `I` may speak about the operations done so far and about what
they gave. -/
theorem exec_history_invariant (I : List (α × β) → σ → Prop)
    (hstep : ∀ hist s a s' b, I hist s → step s a = .ok (s', b) → I (hist ++ [(a, b)]) s')
    {as : List α} {bs : List β} (hs : I [] s) (h : exec step s as = .ok (t, bs)) :
    I (as.zip bs) t := by
  have hrun := exec_history_invariant_aux I hstep hs h
  rwa [List.nil_append] at hrun

/-- The same for a property of the operations only. -/
theorem exec_invariant (I : List α → σ → Prop)
    (hstep : ∀ pre s a s' b, I pre s → step s a = .ok (s', b) → I (pre ++ [a]) s')
    {as : List α} {bs : List β} (hs : I [] s) (h : exec step s as = .ok (t, bs)) : I as t := by
  have hrun := exec_history_invariant (fun hist s => I (hist.map Prod.fst) s) ?_ hs h
  · have hmap : (as.zip bs).map Prod.fst = as :=
      List.map_fst_zip (Nat.le_of_eq (length_exec h).symm)
    rwa [hmap] at hrun
  · intro hist s a s' b hI ha
    rw [List.map_append]
    exact hstep _ _ _ _ _ hI ha

/-- The same where the steps are known to satisfy `P`, for a property of the outputs so far. -/
theorem exec_invariant_along {P : σ → α → Prop} (I : List β → σ → Prop)
    (hstep : ∀ outs s a s' b, I outs s → P s a → step s a = .ok (s', b) → I (outs ++ [b]) s')
    {as : List α} {bs : List β} (hs : I [] s)
    (hP : ∀ pre a post t' bs', as = pre ++ a :: post → exec step s pre = .ok (t', bs') → P t' a)
    (h : exec step s as = .ok (t, bs)) : I bs t := by
  suffices haux : ∀ outs, I outs s → I (outs ++ bs) t by simpa using haux [] hs
  clear hs
  induction as generalizing s bs with
  | nil =>
    cases h
    intro outs hI
    simpa using hI
  | cons a as ih =>
    obtain ⟨s', b, bs', hfirst, hrest, rfl⟩ := exec_cons_eq_ok.mp h
    intro outs hI
    have hnext := hstep outs s a s' b hI (hP [] a as s [] rfl rfl) hfirst
    have hlater := ih (fun pre a' post t' bs'' has hpre =>
      hP (a :: pre) a' post t' (b :: bs'') (by rw [has]; rfl)
        (exec_cons_eq_ok.mpr ⟨s', b, bs'', hfirst, hpre, rfl⟩)) hrest _ hnext
    rwa [List.append_assoc] at hlater

/-- The same for a property of the outputs only. -/
theorem exec_invariant_outputs (I : List β → σ → Prop)
    (hstep : ∀ outs s a s' b, I outs s → step s a = .ok (s', b) → I (outs ++ [b]) s')
    {as : List α} {bs : List β} (hs : I [] s) (h : exec step s as = .ok (t, bs)) : I bs t :=
  exec_invariant_along (P := fun _ _ => True) I (fun outs s a s' b hI _ => hstep outs s a s' b hI)
    hs (fun _ _ _ _ _ _ _ => trivial) h

variable (step) in
/-- Every operation of the run meets `P` in the state that it is done in. -/
def Throughout (P : σ → α → Prop) : σ → List α → Prop
  | _, [] => True
  | s, a :: as => P s a ∧ ∀ s' b, step s a = .ok (s', b) → Throughout P s' as

theorem throughout_cons_of_ok {P : σ → α → Prop} {a : α} {as : List α} {s' : σ} {b : β}
    (h : step s a = .ok (s', b)) :
    Throughout step P s (a :: as) ↔ P s a ∧ Throughout step P s' as := by
  refine and_congr_right fun _ => ⟨fun hall => hall s' b h, fun hall s'' b' h' => ?_⟩
  obtain ⟨rfl, _⟩ := ok_pair_inj (h.symm.trans h')
  exact hall

theorem Throughout.of_run {P : σ → α → Prop} {pre post : List α} {a : α} {bs : List β}
    (hP : Throughout step P s (pre ++ a :: post)) (hpre : exec step s pre = .ok (t, bs)) :
    P t a := by
  induction pre generalizing s bs with
  | nil =>
    cases hpre
    exact hP.1
  | cons x pre ih =>
    obtain ⟨s', b, bs', hfirst, hrest, _⟩ := exec_cons_eq_ok.mp hpre
    exact ih (hP.2 s' b hfirst) hrest

theorem throughout_append_of_run {P : σ → α → Prop} {xs ys : List α} {bs : List β}
    (h : exec step s xs = .ok (t, bs)) :
    Throughout step P s (xs ++ ys) ↔ Throughout step P s xs ∧ Throughout step P t ys := by
  induction xs generalizing s bs with
  | nil =>
    cases h
    exact (and_iff_right trivial).symm
  | cons x xs ih =>
    obtain ⟨s', b, bs', hfirst, hrest, _⟩ := exec_cons_eq_ok.mp h
    rw [List.cons_append, throughout_cons_of_ok hfirst, throughout_cons_of_ok hfirst, ih hrest,
      and_assoc]

theorem throughout_of_forall {P : σ → α → Prop} {as : List α}
    (h : ∀ pre a post t bs, as = pre ++ a :: post → exec step s pre = .ok (t, bs) → P t a) :
    Throughout step P s as := by
  induction as generalizing s with
  | nil => trivial
  | cons x as ih =>
    refine ⟨h [] x as s [] rfl rfl, fun s' b hfirst => ih fun pre a post t bs has hpre => ?_⟩
    exact h (x :: pre) a post t (b :: bs) (congrArg (x :: ·) has)
      (exec_cons_eq_ok.mpr ⟨s', b, bs, hfirst, hpre, rfl⟩)

/-- A run whose steps all leave the state as it is. -/
theorem exec_eq_ok_iff_of_fixed {P : α → Prop} {out : α → β}
    (hstep : ∀ a s' b, step s a = .ok (s', b) ↔ P a ∧ s' = s ∧ b = out a) {as : List α}
    {bs : List β} :
    exec step s as = .ok (t, bs) ↔ (∀ a ∈ as, P a) ∧ t = s ∧ bs = as.map out := by
  induction as generalizing bs with
  | nil =>
    constructor
    · rintro ⟨⟩
      exact ⟨List.forall_mem_nil P, rfl, rfl⟩
    · rintro ⟨_, rfl, rfl⟩
      rfl
  | cons a as ih =>
    rw [exec_cons_eq_ok, List.forall_mem_cons]
    constructor
    · rintro ⟨s', b, bs', hfirst, hrest, rfl⟩
      obtain ⟨ha, rfl, rfl⟩ := (hstep a s' b).mp hfirst
      obtain ⟨hall, rfl, rfl⟩ := ih.mp hrest
      exact ⟨⟨ha, hall⟩, rfl, rfl⟩
    · rintro ⟨⟨ha, hall⟩, rfl, rfl⟩
      exact ⟨t, out a, as.map out, (hstep a t _).mpr ⟨ha, rfl, rfl⟩, ih.mpr ⟨hall, rfl, rfl⟩, rfl⟩

end Exec

/-- Every operation of a run was taken from some state. -/
theorem exists_step_of_mem {ε σ α β : Type*} {step : σ → α → Except ε (σ × β)} {s t : σ}
    {as : List α} {bs : List β} (h : exec step s as = .ok (t, bs)) {a : α} (ha : a ∈ as) :
    ∃ u r, step u a = .ok r := by
  obtain ⟨pre, post, rfl⟩ := List.append_of_mem ha
  obtain ⟨m, _, _, _, hpost, _⟩ := exec_append_eq_ok.mp h
  obtain ⟨m', b, _, hstep, _, _⟩ := exec_cons_eq_ok.mp hpost
  exact ⟨m, (m', b), hstep⟩

/-- **Progress.**  Where every operation of the list can be done and keeps `I`, the run gets to its
end.  `I` may speak about the operations done so far and about what they gave. -/
theorem exec_progress {ε σ α β : Type*} {step : σ → α → Except ε (σ × β)}
    (I : List α → List β → σ → Prop) {as : List α}
    (hstep : ∀ pre a post bs u, as = pre ++ a :: post → I pre bs u →
      ∃ u' b, step u a = .ok (u', b) ∧ I (pre ++ [a]) (bs ++ [b]) u') {s : σ} (hs : I [] [] s) :
    ∃ t bs, exec step s as = .ok (t, bs) ∧ I as bs t := by
  induction as generalizing s I with
  | nil => exact ⟨s, [], rfl, hs⟩
  | cons a as ih =>
    obtain ⟨s', b, hfirst, hs'⟩ := hstep [] a as [] s rfl hs
    -- what is left of the list starts with `a` done
    obtain ⟨t, bs, hrest, ht⟩ := ih (fun pre bs => I (a :: pre) (b :: bs))
      (fun pre a' post bs u has => hstep (a :: pre) a' post (b :: bs) u (congrArg (a :: ·) has)) hs'
    exact ⟨t, b :: bs, exec_cons_eq_ok.mpr ⟨s', b, bs, hfirst, hrest, rfl⟩, ht⟩

/-- Where every step can be taken and keeps `I`, every run gets to its end. -/
theorem exec_total {ε σ α β : Type*} {step : σ → α → Except ε (σ × β)} (I : σ → Prop)
    (hstep : ∀ s a, I s → ∃ s' b, step s a = .ok (s', b) ∧ I s') {s : σ} (hs : I s)
    (as : List α) : ∃ t bs, exec step s as = .ok (t, bs) ∧ I t :=
  exec_progress (fun _ _ => I) (fun _ a _ _ u _ hu => hstep u a hu) hs

/-- Transition functions that agree on the operations have the same runs. -/
theorem exec_congr {ε σ α β : Type*} {f g : σ → α → Except ε (σ × β)} {as : List α}
    (h : ∀ s, ∀ a ∈ as, f s a = g s a) (s : σ) : exec f s as = exec g s as := by
  induction as generalizing s with
  | nil => rfl
  | cons a as ih =>
    rw [exec, exec, h s a List.mem_cons_self]
    refine congrArg (g s a >>= ·) (funext fun ⟨s', b⟩ => ?_)
    show (exec f s' as >>= _) = _
    rw [ih fun s a ha => h s a (List.mem_cons_of_mem _ ha)]

/-! ### Runs beside those of a specification -/

section Simulation

variable {ε σ τ α β γ : Type*}

/-- A run of a transition function that cannot fail. -/
def replay (f : τ → α → τ × γ) (t : τ) : List α → τ × List γ
  | [] => (t, [])
  | a :: as => ((replay f (f t a).1 as).1, (f t a).2 :: (replay f (f t a).1 as).2)

theorem replay_invariant {f : τ → α → τ × γ} {t : τ} {as : List α} (I : τ → Prop)
    (hstep : ∀ t, ∀ a ∈ as, I t → I (f t a).1) (ht : I t) : I (replay f t as).1 := by
  induction as generalizing t with
  | nil => exact ht
  | cons a as ih =>
    obtain ⟨hfirst, hrest⟩ : (∀ t, I t → I (f t a).1) ∧ ∀ t, ∀ a ∈ as, I t → I (f t a).1 :=
      ⟨fun t => hstep t a List.mem_cons_self, fun t a ha => hstep t a (List.mem_cons_of_mem _ ha)⟩
    exact ih hrest (hfirst t ht)

/-- **Forward simulation.**  Where every step is one that the specification makes as well, with the
same output, no run fails, and all of them end beside the run of the specification. -/
theorem exec_simulation {step : σ → α → Except ε (σ × β)} {f : τ → α → τ × γ} {out : γ → β}
    (R : σ → τ → Prop)
    (hstep : ∀ s t a, R s t → ∃ s', step s a = .ok (s', out (f t a).2) ∧ R s' (f t a).1)
    {s : σ} {t : τ} (h : R s t) (as : List α) :
    ∃ s', exec step s as = .ok (s', (replay f t as).2.map out) ∧ R s' (replay f t as).1 := by
  induction as generalizing s t with
  | nil => exact ⟨s, rfl, h⟩
  | cons a as ih =>
    obtain ⟨s', hfirst, hR⟩ := hstep s t a h
    obtain ⟨u, hrest, hR'⟩ := ih hR
    exact ⟨u, exec_cons_eq_ok.mpr ⟨s', _, _, hfirst, hrest, rfl⟩, hR'⟩

end Simulation

end Lab1
