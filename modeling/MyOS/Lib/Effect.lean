import Mathlib.Algebra.Group.Nat.Defs
import Mathlib.Data.Nat.Notation
import Mathlib.Tactic.Common

/-! Computations that change a state and may stop, with rules for what holds when they
return: sequencing, counted loops, and projections of the state that stay as they are. -/

namespace Effect

variable {ε σ α β : Type}

/-- Run the body for `0, 1, …, n - 1`, in this order. -/
def forRange (n : ℕ) (body : ℕ → EStateM ε σ Unit) : EStateM ε σ Unit :=
  match n with
  | 0 => pure ()
  | n + 1 => do
      forRange n body
      body n

theorem bind_eq_ok {x : EStateM ε σ α} {f : α → EStateM ε σ β} {s s' : σ} {b : β} :
    (x >>= f) s = .ok b s' ↔ ∃ a t, x s = .ok a t ∧ f a t = .ok b s' := by
  change EStateM.bind x f s = .ok b s' ↔ _
  unfold EStateM.bind
  cases x s with
  | ok a t => simp
  | error e t => simp

theorem bind_of_ok {x : EStateM ε σ α} {f : α → EStateM ε σ β} {s t : σ} {a : α}
    (h : x s = .ok a t) : (x >>= f) s = f a t := by
  change EStateM.bind x f s = _
  simp [EStateM.bind, h]

theorem bind_of_error {x : EStateM ε σ α} {f : α → EStateM ε σ β} {s t : σ} {e : ε}
    (h : x s = .error e t) : (x >>= f) s = .error e t := by
  change EStateM.bind x f s = _
  simp [EStateM.bind, h]

theorem bind_congr {x y : EStateM ε σ α} {f : α → EStateM ε σ β} {s t : σ} (h : x s = y t) :
    (x >>= f) s = (y >>= f) t := by
  change EStateM.bind x f s = EStateM.bind y f t
  simp only [EStateM.bind, h]

@[simp] theorem pure_apply (a : α) (s : σ) : (pure a : EStateM ε σ α) s = .ok a s := rfl

@[simp] theorem get_apply (s : σ) : (get : EStateM ε σ σ) s = .ok s s := rfl

@[simp] theorem set_apply (s t : σ) : (set t : EStateM ε σ PUnit) s = .ok ⟨⟩ t := rfl

@[simp] theorem modify_apply (f : σ → σ) (s : σ) :
    (modify f : EStateM ε σ PUnit) s = .ok ⟨⟩ (f s) := rfl

@[simp] theorem throw_apply (e : ε) (s : σ) : (throw e : EStateM ε σ α) s = .error e s := rfl

/-- State in which a computation ends, whether it returns or stops. -/
def final (c : EStateM ε σ α) (s : σ) : σ :=
  match c s with
  | .ok _ t => t
  | .error _ t => t

theorem final_bind_of_ok {x : EStateM ε σ α} {f : α → EStateM ε σ β} {s t : σ} {a : α}
    (h : x s = .ok a t) : final (x >>= f) s = final (f a) t := by
  rw [final, final, bind_of_ok h]

theorem final_bind_of_error {x : EStateM ε σ α} {f : α → EStateM ε σ β} {s t : σ} {e : ε}
    (h : x s = .error e t) : final (x >>= f) s = t := by
  rw [final, bind_of_error h]

/-- The computation returns from every state. -/
def Total (c : EStateM ε σ α) : Prop := ∀ s, ∃ a t, c s = .ok a t

section Total

theorem total_modify (f : σ → σ) : Total (modify f : EStateM ε σ PUnit) := fun s => ⟨⟨⟩, f s, rfl⟩

theorem total_get : Total (get : EStateM ε σ σ) := fun s => ⟨s, s, rfl⟩

theorem Total.bind {x : EStateM ε σ α} {f : α → EStateM ε σ β} (hx : Total x)
    (hf : ∀ a, Total (f a)) : Total (x >>= f) := by
  intro s
  obtain ⟨a, t, ht⟩ := hx s
  obtain ⟨b, u, hu⟩ := hf a t
  exact ⟨b, u, (bind_of_ok ht).trans hu⟩

theorem total_ite {p : Prop} [Decidable p] {x y : EStateM ε σ α} (hx : Total x) (hy : Total y) :
    Total (if p then x else y) := by
  split
  · exact hx
  · exact hy

end Total

/-- The computation leads from every state to a related one, also when it stops. -/
def Leads (R : σ → σ → Prop) (c : EStateM ε σ α) : Prop := ∀ s, R s (final c s)

section Leads

variable {R : σ → σ → Prop}

theorem Leads.ok {c : EStateM ε σ α} (h : Leads R c) {s t : σ} {a : α} (hc : c s = .ok a t) :
    R s t := by
  have hs := h s
  rwa [final, hc] at hs

theorem Leads.error {c : EStateM ε σ α} (h : Leads R c) {s t : σ} {e : ε}
    (hc : c s = .error e t) : R s t := by
  have hs := h s
  rwa [final, hc] at hs

theorem leads_modify {g : σ → σ} (h : ∀ s, R s (g s)) :
    Leads R (modify g : EStateM ε σ PUnit) := h

theorem leads_ite {p : Prop} [Decidable p] {x y : EStateM ε σ α} (hx : Leads R x)
    (hy : Leads R y) : Leads R (if p then x else y) := by
  split
  · exact hx
  · exact hy

/-- A relation along which computations can be chained. -/
structure Chain (R : σ → σ → Prop) : Prop where
  refl : ∀ s, R s s
  trans : ∀ {s t u}, R s t → R t u → R s u

/-- Keeping a projection of the state is such a relation. -/
theorem chain_eq (f : σ → β) : Chain fun s t => f t = f s :=
  ⟨fun _ => rfl, fun h h' => h'.trans h⟩

namespace Chain

theorem pure (h : Chain R) (a : α) : Leads R (pure a : EStateM ε σ α) := h.refl

theorem throw (h : Chain R) (e : ε) : Leads R (throw e : EStateM ε σ α) := h.refl

theorem get (h : Chain R) : Leads R (get : EStateM ε σ σ) := h.refl

theorem bind (h : Chain R) {x : EStateM ε σ α} {k : α → EStateM ε σ β} (hx : Leads R x)
    (hk : ∀ a, Leads R (k a)) : Leads R (x >>= k) := by
  intro s
  unfold final
  cases hs : x s with
  | ok a t => rw [bind_of_ok hs]; exact h.trans (hx.ok hs) (hk a t)
  | error e t => rw [bind_of_error hs]; exact hx.error hs

theorem forRange (h : Chain R) {body : ℕ → EStateM ε σ Unit} (hbody : ∀ i, Leads R (body i))
    (n : ℕ) : Leads R (forRange n body) := by
  induction n with
  | zero => exact h.pure ()
  | succ n ih => exact h.bind ih fun _ => hbody n

end Chain

end Leads

/-- An invariant indexed by the rounds done holds when a counted loop returns. -/
theorem forRange_invariant {body : ℕ → EStateM ε σ Unit} {n : ℕ} (inv : ℕ → σ → Prop)
    (hstep : ∀ i s s', i < n → inv i s → body i s = .ok () s' → inv (i + 1) s')
    {s s' : σ} (h0 : inv 0 s) (hrun : forRange n body s = .ok () s') : inv n s' := by
  induction n generalizing s' with
  | zero =>
      simp only [forRange, pure_apply, EStateM.Result.ok.injEq, true_and] at hrun
      exact hrun ▸ h0
  | succ n ih =>
      rw [forRange, bind_eq_ok] at hrun
      obtain ⟨u, t, hpre, hlast⟩ := hrun
      have hn := ih (fun i s s' hi => hstep i s s' (by omega)) hpre
      exact hstep n t s' (by omega) hn hlast

/-- A counted loop returns when every round does from the states the invariant allows. -/
theorem forRange_total {body : ℕ → EStateM ε σ Unit} {n : ℕ} (inv : ℕ → σ → Prop)
    (hstep : ∀ i s, i < n → inv i s → ∃ s', body i s = .ok () s' ∧ inv (i + 1) s') {s : σ}
    (h0 : inv 0 s) : ∃ s', forRange n body s = .ok () s' ∧ inv n s' := by
  induction n with
  | zero => exact ⟨s, rfl, h0⟩
  | succ n ih =>
      obtain ⟨t, hpre, hn⟩ := ih fun i s hi => hstep i s (by omega)
      obtain ⟨s', hlast, hn'⟩ := hstep n t (by omega) hn
      exact ⟨s', by rw [forRange, bind_of_ok hpre]; exact hlast, hn'⟩

/-- A counted loop returns when every round does, and leads through the states named. -/
theorem forRange_ok {body : ℕ → EStateM ε σ Unit} {n : ℕ} (states : ℕ → σ)
    (hstep : ∀ i < n, body i (states i) = .ok () (states (i + 1))) :
    forRange n body (states 0) = .ok () (states n) := by
  induction n with
  | zero => rfl
  | succ n ih =>
      rw [forRange, bind_of_ok (ih fun i hi => hstep i (by omega))]
      exact hstep n (by omega)

/-- Where the computation returns, `Q` holds. -/
def Returns (c : EStateM ε σ α) (Q : α → σ → Prop) (s : σ) : Prop := ∀ a t, c s = .ok a t → Q a t

section Returns

variable {Q : β → σ → Prop}

theorem returns_pure (b : β) : Returns (pure b : EStateM ε σ β) Q = Q b := by
  funext s
  simp [Returns]

theorem returns_bind (x : EStateM ε σ α) (f : α → EStateM ε σ β) :
    Returns (x >>= f) Q = Returns x fun a => Returns (f a) Q := by
  funext s
  apply propext
  constructor
  · intro h a t hx b u hf
    exact h b u (bind_eq_ok.mpr ⟨a, t, hx, hf⟩)
  · intro h b u hrun
    obtain ⟨a, t, hx, hf⟩ := bind_eq_ok.mp hrun
    exact h a t hx b u hf

theorem returns_get {Q : σ → σ → Prop} : Returns (get : EStateM ε σ σ) Q = fun s => Q s s := by
  funext s
  simp [Returns]

theorem returns_ite {p : Prop} [Decidable p] (x y : EStateM ε σ β) :
    Returns (if p then x else y) Q = fun s => if p then Returns x Q s else Returns y Q s := by
  funext s
  split <;> rfl

theorem returns_of_ok {x : EStateM ε σ β} {s t : σ} {b : β} (h : x s = .ok b t) :
    Returns x Q s ↔ Q b t := by
  simp [Returns, h]

theorem returns_of_error {x : EStateM ε σ β} {s t : σ} {e : ε} (h : x s = .error e t) :
    Returns x Q s := by
  simp [Returns, h]

end Returns

/-- Where a run ends: it returns with `Q`, or stops with `E`. -/
def Ends (Q : α → σ → Prop) (E : σ → Prop) : EStateM.Result ε σ α → Prop
  | .ok a s => Q a s
  | .error _ s => E s

section Ends

variable {P Q : α → σ → Prop} {E : σ → Prop}

theorem Ends.ok {r : EStateM.Result ε σ α} (h : Ends Q E r) {a : α} {t : σ} (hr : r = .ok a t) :
    Q a t := by
  rwa [hr] at h

theorem Ends.error {r : EStateM.Result ε σ α} (h : Ends Q E r) {e : ε} {t : σ}
    (hr : r = .error e t) : E t := by
  rwa [hr] at h

theorem ends_of_ok {r : EStateM.Result ε σ α} {a : α} {t : σ} (hr : r = .ok a t) (h : Q a t) :
    Ends Q E r := by
  rw [hr]
  exact h

theorem ends_of_error {r : EStateM.Result ε σ α} {e : ε} {t : σ} (hr : r = .error e t) (h : E t) :
    Ends Q E r := by
  rw [hr]
  exact h

theorem Ends.mono {r : EStateM.Result ε σ α} (h : Ends P E r) (hPQ : ∀ a t, P a t → Q a t) :
    Ends Q E r := by
  cases r with
  | ok a t => exact hPQ a t h
  | error e t => exact h

theorem ends_bind {Q : β → σ → Prop} {x : EStateM ε σ α} {f : α → EStateM ε σ β} {s : σ}
    (hx : Ends P E (x s)) (hf : ∀ a t, P a t → Ends Q E (f a t)) : Ends Q E ((x >>= f) s) := by
  cases hs : x s with
  | ok a t =>
      rw [bind_of_ok hs]
      exact hf a t (hx.ok hs)
  | error e t =>
      rw [bind_of_error hs]
      exact hx.error hs

theorem ends_get_bind {Q : β → σ → Prop} {f : σ → EStateM ε σ β} {s : σ}
    (h : Ends Q E (f s s)) : Ends Q E ((get >>= f) s) := h

theorem Ends.final {c : EStateM ε σ α} {s : σ} (h : Ends (fun _ t => E t) E (c s)) :
    E (final c s) := by
  unfold Effect.final
  cases hc : c s with
  | ok a t => exact h.ok hc
  | error e t => exact h.error hc

end Ends

/-- The result with the state changed by `f`. -/
def mapState (f : σ → σ) : EStateM.Result ε σ α → EStateM.Result ε σ α
  | .ok a s => .ok a (f s)
  | .error e s => .error e (f s)

/-- It makes no difference whether the state is changed by `f` before or after. -/
def Commutes (f : σ → σ) (c : EStateM ε σ α) : Prop := ∀ s, c (f s) = mapState f (c s)

section Commutes

variable {f : σ → σ}

theorem Commutes.ok {c : EStateM ε σ α} (h : Commutes f c) {s t : σ} {a : α}
    (hc : c s = .ok a t) : c (f s) = .ok a (f t) := by
  rw [h s, hc]
  rfl

theorem commutes_pure (a : α) : Commutes f (pure a : EStateM ε σ α) := fun _ => rfl

theorem commutes_throw (e : ε) : Commutes f (throw e : EStateM ε σ α) := fun _ => rfl

theorem commutes_modify {g : σ → σ} (h : ∀ s, g (f s) = f (g s)) :
    Commutes f (modify g : EStateM ε σ PUnit) := by
  intro s
  rw [modify_apply, modify_apply, h s]
  rfl

theorem commutes_ite {p : Prop} [Decidable p] {x y : EStateM ε σ α} (hx : Commutes f x)
    (hy : Commutes f y) : Commutes f (if p then x else y) := by
  split
  · exact hx
  · exact hy

theorem Commutes.bind {x : EStateM ε σ α} {k : α → EStateM ε σ β} (hx : Commutes f x)
    (hk : ∀ a, Commutes f (k a)) : Commutes f (x >>= k) := by
  intro s
  cases hs : x s with
  | ok a t => rw [bind_of_ok hs, bind_of_ok (hx.ok hs), hk a t]
  | error e t =>
      have hfs : x (f s) = .error e (f t) := by
        rw [hx s, hs]
        rfl
      rw [bind_of_error hs, bind_of_error hfs]
      rfl

/-- Reading the state, when what is done with it does not depend on the change. -/
theorem commutes_get_bind {k : σ → EStateM ε σ β} (hsame : ∀ s, k (f s) = k s)
    (hk : ∀ s, Commutes f (k s)) : Commutes f (get >>= k) := by
  intro s
  rw [bind_of_ok (get_apply s), bind_of_ok (get_apply (f s)), hsame, hk s]

theorem commutes_forRange {body : ℕ → EStateM ε σ Unit} (hbody : ∀ i, Commutes f (body i))
    (n : ℕ) : Commutes f (forRange n body) := by
  induction n with
  | zero => exact commutes_pure ()
  | succ n ih => exact ih.bind fun _ => hbody n

end Commutes

end Effect
