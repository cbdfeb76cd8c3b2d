import MyOS.Lib.Effect

/-! Computations with a log beside their state. Forgetting the log gives the computation
without it. -/

namespace Logged

open Effect

variable {ε σ α γ β : Type}

/-- The computation, with nothing added to the log. -/
def quiet (x : EStateM ε σ α) : EStateM ε (σ × List β) α := fun p =>
  match x p.1 with
  | .ok a t => .ok a (t, p.2)
  | .error e t => .error e (t, p.2)

/-- One more entry in the log, the newest last. -/
def note (b : β) : EStateM ε (σ × List β) Unit := modify fun p => (p.1, p.2 ++ [b])

theorem quiet_ok {x : EStateM ε σ α} {s t : σ} {a : α} (h : x s = .ok a t) (l : List β) :
    quiet x (s, l) = .ok a (t, l) := by
  simp [quiet, h]

theorem quiet_error {x : EStateM ε σ α} {s t : σ} {e : ε} (h : x s = .error e t) (l : List β) :
    quiet x (s, l) = .error e (t, l) := by
  simp [quiet, h]

/-- Without the log, the one computation is the other. -/
structure Erases (x : EStateM ε (σ × List β) α) (y : EStateM ε σ α) : Prop where
  run : ∀ p,
    match x p with
    | .ok a q => y p.1 = .ok a q.1
    | .error e q => y p.1 = .error e q.1

section Erases

variable {x x' : EStateM ε (σ × List β) α} {y y' : EStateM ε σ α}

theorem Erases.ok (h : Erases x y) {p q : σ × List β} {a : α} (hx : x p = .ok a q) :
    y p.1 = .ok a q.1 := by
  have hp := h.run p
  rw [hx] at hp
  exact hp

theorem erases_pure (a : α) : Erases (pure a : EStateM ε (σ × List β) α) (pure a) :=
  ⟨fun _ => rfl⟩

theorem erases_quiet (y : EStateM ε σ α) : Erases (quiet y : EStateM ε (σ × List β) α) y := by
  constructor
  intro p
  unfold quiet
  cases y p.1 <;> rfl

/-- The rest need only agree on what the computation can return. -/
theorem Erases.bind_ok {f : α → EStateM ε (σ × List β) γ} {g : α → EStateM ε σ γ}
    (h : Erases x y) (hf : ∀ a s t, y s = .ok a t → Erases (f a) (g a)) :
    Erases (x >>= f) (y >>= g) := by
  constructor
  intro p
  have hp := h.run p
  cases hrun : x p with
  | ok a q =>
      rw [hrun] at hp
      rw [bind_of_ok hrun, bind_of_ok hp]
      exact (hf a _ _ hp).run q
  | error e q =>
      rw [hrun] at hp
      rw [bind_of_error hrun, bind_of_error hp]

theorem Erases.bind {f : α → EStateM ε (σ × List β) γ} {g : α → EStateM ε σ γ} (h : Erases x y)
    (hf : ∀ a, Erases (f a) (g a)) : Erases (x >>= f) (y >>= g) := h.bind_ok fun a _ _ _ => hf a

/-- A value read from the state. -/
theorem erases_read {g : σ → α} {f : α → EStateM ε (σ × List β) γ} {k : σ → EStateM ε σ γ}
    (h : ∀ s, Erases (f (g s)) (k s)) : Erases (quiet (do return g (← get)) >>= f) (get >>= k) :=
  ⟨fun p => (h p.1).run p⟩

/-- An entry of the log is forgotten, before a computation and behind it. -/
theorem Erases.note_bind (h : Erases x y) (b : β) : Erases (note b >>= fun _ => x) y :=
  ⟨fun p => h.run (p.1, p.2 ++ [b])⟩

theorem Erases.bind_note {x : EStateM ε (σ × List β) Unit} {y : EStateM ε σ Unit} (h : Erases x y)
    (b : β) : Erases (x >>= fun _ => note b) y := by
  constructor
  intro p
  have hp := h.run p
  cases hrun : x p with
  | ok a q =>
      rw [hrun] at hp
      rw [bind_of_ok hrun]
      exact hp
  | error e q =>
      rw [hrun] at hp
      rw [bind_of_error hrun]
      exact hp

theorem Erases.ite {p : Prop} [Decidable p] (h : Erases x y) (h' : Erases x' y') :
    Erases (if p then x else x') (if p then y else y') := by
  split
  · exact h
  · exact h'

theorem erases_forRange {body : ℕ → EStateM ε (σ × List β) Unit} {body' : ℕ → EStateM ε σ Unit}
    (h : ∀ i, Erases (body i) (body' i)) (n : ℕ) :
    Erases (forRange n body) (forRange n body') := by
  induction n with
  | zero => exact erases_pure ()
  | succ n ih => exact ih.bind fun _ => h n

end Erases

end Logged
