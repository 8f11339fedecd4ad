import Lab1.Library.Exec

/-!
# Loops that call the system

In a loop around a call such as `read`, how much a call moves is up to the operating system.
`drive next call choices s` runs such a loop over the choices that the system makes, one for each
call: `next` goes on to the next call, or leaves the loop; `call` is the call with what follows it
up to the end of the turn.  A run finishes, with the choices that were not needed, or is waiting for
a call to return when there are no choices left.

`drive_history_rule` is the rule for such loops, with an invariant for the head of the loop and one
for the call.
-/

namespace Lab1

variable {σ κ ρ : Type*}

/-- How far a loop gets. -/
inductive Driven (σ κ ρ : Type*) where
  | finished (x : ρ) (unused : List κ)
  | waiting (s : σ)
  deriving DecidableEq, Repr

def drive (next : σ → ρ ⊕ σ) (call : σ → κ → Except Fault (ρ ⊕ σ)) :
    List κ → σ → Except Fault (Driven σ κ ρ)
  | [], s =>
    match next s with
    | .inl x => .ok (.finished x [])
    | .inr s => .ok (.waiting s)
  | c :: cs, s =>
    match next s with
    | .inl x => .ok (.finished x (c :: cs))
    | .inr s =>
      match call s c with
      | .ok (.inl x) => .ok (.finished x cs)
      | .ok (.inr s) => drive next call cs s
      | .error f => .error f

section Drive

variable {next : σ → ρ ⊕ σ} {call : σ → κ → Except Fault (ρ ⊕ σ)} {s s' : σ} {x : ρ} {c : κ}
  {cs : List κ}

/-! ### One turn -/

theorem drive_of_inl (h : next s = .inl x) : drive next call cs s = .ok (.finished x cs) := by
  cases cs <;> rw [drive, h]

theorem drive_nil_of_inr (h : next s = .inr s') : drive next call [] s = .ok (.waiting s') := by
  rw [drive, h]

theorem drive_cons_of_inl (h : next s = .inr s') (hcall : call s' c = .ok (.inl x)) :
    drive next call (c :: cs) s = .ok (.finished x cs) := by
  rw [drive, h]
  simp only [hcall]

theorem drive_cons_of_inr {s'' : σ} (h : next s = .inr s') (hcall : call s' c = .ok (.inr s'')) :
    drive next call (c :: cs) s = drive next call cs s'' := by
  rw [drive, h]
  simp only [hcall]

theorem drive_cons_of_error {f : Fault} (h : next s = .inr s') (hcall : call s' c = .error f) :
    drive next call (c :: cs) s = .error f := by
  rw [drive, h]
  simp only [hcall]

/-! ### The rule -/

private theorem drive_history_aux {I J : List κ → σ → Prop} {Q : List κ → ρ → Prop}
    {all used : List κ}
    (hnext : ∀ used s, I used s →
      (∃ x, next s = .inl x ∧ Q used x) ∨ ∃ s', next s = .inr s' ∧ J used s')
    (hcall : ∀ used s c, J used s → used ++ [c] <+: all →
      (∃ x, call s c = .ok (.inl x) ∧ Q (used ++ [c]) x) ∨
        ∃ s', call s c = .ok (.inr s') ∧ I (used ++ [c]) s')
    (hs : I used s) (hall : all = used ++ cs) :
    (∃ x used' unused, drive next call cs s = .ok (.finished x unused) ∧ all = used' ++ unused ∧
        Q used' x) ∨
      ∃ s', drive next call cs s = .ok (.waiting s') ∧ J all s' := by
  induction cs generalizing used s with
  | nil =>
    rcases hnext used s hs with ⟨x, hx, hQ⟩ | ⟨s', hs', hJ⟩
    · exact Or.inl ⟨x, used, [], drive_of_inl hx, hall, hQ⟩
    · rw [List.append_nil] at hall
      exact Or.inr ⟨s', drive_nil_of_inr hs', hall ▸ hJ⟩
  | cons c cs ih =>
    rcases hnext used s hs with ⟨x, hx, hQ⟩ | ⟨s', hs', hJ⟩
    · exact Or.inl ⟨x, used, c :: cs, drive_of_inl hx, hall, hQ⟩
    have hall' : all = (used ++ [c]) ++ cs := by rw [hall, List.append_assoc, List.singleton_append]
    rcases hcall used s' c hJ ⟨cs, hall'.symm⟩ with ⟨x, hx, hQ⟩ | ⟨s'', hs'', hI⟩
    · exact Or.inl ⟨x, used ++ [c], cs, drive_cons_of_inl hs' hx, hall', hQ⟩
    · rw [drive_cons_of_inr hs' hs'']
      exact ih hI hall'

/-- The rule for loops that call the system.  `I`, `J` and `Q` may speak about the choices that the
calls so far have used. -/
theorem drive_history_rule (next : σ → ρ ⊕ σ) (call : σ → κ → Except Fault (ρ ⊕ σ)) (cs : List κ)
    (I J : List κ → σ → Prop) (Q : List κ → ρ → Prop)
    (hnext : ∀ used s, I used s →
      (∃ x, next s = .inl x ∧ Q used x) ∨ ∃ s', next s = .inr s' ∧ J used s')
    (hcall : ∀ used s c, J used s → used ++ [c] <+: cs →
      (∃ x, call s c = .ok (.inl x) ∧ Q (used ++ [c]) x) ∨
        ∃ s', call s c = .ok (.inr s') ∧ I (used ++ [c]) s')
    (hs : I [] s) :
    (∃ x used unused, drive next call cs s = .ok (.finished x unused) ∧ cs = used ++ unused ∧
        Q used x) ∨
      ∃ s', drive next call cs s = .ok (.waiting s') ∧ J cs s' :=
  drive_history_aux hnext hcall hs rfl

end Drive

end Lab1
