import Lab1.Library.Exec

/-!
# One computation follows another

`Follows y x` says that `y` returns what `x` returns, whenever `x` returns at all: the relation
between a program without its checks and the program with them.  It passes through sequential
composition and loops.

For runs, `follows_prefixes_iff` reduces the question to single steps: after every part of a run of
`f`, the same part of a run of `g` is in the same state with the same outputs if and only if every
step that is taken is the same in both.
-/

namespace Lab1

/-- `y` gives every result that `x` gives. -/
def Follows {ε α : Type*} (y x : Except ε α) : Prop := ∀ a, x = .ok a → y = .ok a

theorem Follows.refl {ε α : Type*} (x : Except ε α) : Follows x x := fun _ h => h

section Bind

universe u v

variable {ε : Type u} {α β : Type v}

theorem Follows.bind {x y : Except ε α} {f g : α → Except ε β} (hxy : Follows y x)
    (hfg : ∀ a, Follows (g a) (f a)) : Follows (y >>= g) (x >>= f) := by
  intro b h
  obtain ⟨a, hx, hf⟩ := bind_eq_ok.mp h
  rw [hxy a hx, ok_bind]
  exact hfg a b hf

theorem Follows.foldlM {f g : β → α → Except ε β} (h : ∀ s a, Follows (g s a) (f s a))
    (as : List α) (s : β) : Follows (as.foldlM g s) (as.foldlM f s) := by
  induction as generalizing s with
  | nil => exact Follows.refl _
  | cons a as ih =>
    rw [List.foldlM_cons, List.foldlM_cons]
    exact (h s a).bind ih

end Bind

/-! ### Images -/

section Image

universe u v

variable {ε : Type u} {α β γ δ : Type v} {f : α → β} {g : γ → δ}

/-- `y` gives the image of every result that `x` gives. -/
def FollowsBy (f : α → β) (y : Except ε β) (x : Except ε α) : Prop := ∀ a, x = .ok a → y = .ok (f a)

theorem FollowsBy.ok {a : α} {b : β} (h : f a = b) :
    FollowsBy f (.ok b : Except ε β) (.ok a) := by
  rintro _ ⟨⟩
  rw [h]

theorem FollowsBy.refl (x : Except ε α) : FollowsBy id x x := fun _ h => h

theorem FollowsBy.error (y : Except ε β) (e : ε) : FollowsBy f y (.error e) := nofun

theorem FollowsBy.ite {c : Prop} [Decidable c] {x x' : Except ε α} {y y' : Except ε β}
    (h : FollowsBy f y x) (h' : FollowsBy f y' x') :
    FollowsBy f (if c then y else y') (if c then x else x') := by
  split_ifs
  · exact h
  · exact h'

theorem FollowsBy.bind {x : Except ε α} {y : Except ε β} {k : α → Except ε γ} {l : β → Except ε δ}
    (hxy : FollowsBy f y x) (hkl : ∀ a, FollowsBy g (l (f a)) (k a)) :
    FollowsBy g (y >>= l) (x >>= k) := by
  intro c h
  obtain ⟨a, hx, hk⟩ := bind_eq_ok.mp h
  rw [hxy a hx, ok_bind]
  exact hkl a c hk

end Image

/-! ### Runs -/

section Exec

variable {ε σ α β : Type*} {f g : σ → α → Except ε (σ × β)}

/-- In every state that `f` reaches on the way, the next step of `g` follows the one of `f`. -/
def FollowsAlong (g f : σ → α → Except ε (σ × β)) (s : σ) (as : List α) : Prop :=
  ∀ pre a post t bs, as = pre ++ a :: post → exec f s pre = .ok (t, bs) → Follows (g t a) (f t a)

theorem exec_follows {s : σ} {as : List α} (h : FollowsAlong g f s as) :
    Follows (exec g s as) (exec f s as) := by
  induction as generalizing s with
  | nil => exact Follows.refl _
  | cons a as ih =>
    rintro ⟨t, bs⟩ hrun
    obtain ⟨s', b, bs', hstep, hrest, rfl⟩ := exec_cons_eq_ok.mp hrun
    have hfirst : g s a = .ok (s', b) := h [] a as s [] rfl rfl _ hstep
    refine exec_cons_eq_ok.mpr ⟨s', b, bs', hfirst, ih ?_ _ hrest, rfl⟩
    intro pre a' post t' bs'' has hpre
    exact h (a :: pre) a' post t' (b :: bs'') (by rw [has]; rfl)
      (exec_cons_eq_ok.mpr ⟨s', b, bs'', hstep, hpre, rfl⟩)

theorem FollowsAlong.of_prefix {s : σ} {as pre : List α} (h : FollowsAlong g f s as)
    (hpre : pre <+: as) : FollowsAlong g f s pre := by
  obtain ⟨rest, rfl⟩ := hpre
  intro pre' a post t bs heq hrun
  exact h pre' a (post ++ rest) t bs (by rw [heq, List.append_assoc]; rfl) hrun

/-- **From steps to runs and back.** -/
theorem follows_prefixes_iff {s : σ} {as : List α} :
    (∀ pre, pre <+: as → Follows (exec g s pre) (exec f s pre)) ↔ FollowsAlong g f s as := by
  constructor
  · rintro h pre a post t bs rfl hrun ⟨t', b⟩ hstep
    -- the run as far as this step, in `f` and so in `g`
    have hlast : exec f t [a] = .ok (t', [b]) := exec_singleton_eq_ok.mpr ⟨b, hstep, rfl⟩
    have hlong : exec f s (pre ++ [a]) = .ok (t', bs ++ [b]) :=
      exec_append_eq_ok.mpr ⟨t, bs, [b], hrun, hlast, rfl⟩
    have hpre := h pre ⟨a :: post, rfl⟩ _ hrun
    have hg := h (pre ++ [a]) ⟨post, by rw [List.append_assoc]; rfl⟩ _ hlong
    obtain ⟨m, b₁, b₂, hm, hga, hbs⟩ := exec_append_eq_ok.mp hg
    obtain ⟨rfl, rfl⟩ := ok_pair_inj (hpre.symm.trans hm)
    obtain ⟨b', hga', rfl⟩ := exec_singleton_eq_ok.mp hga
    rw [hga', List.head_eq_of_cons_eq (List.append_cancel_left hbs)]
  · exact fun h pre hpre => exec_follows (h.of_prefix hpre)

end Exec

end Lab1
