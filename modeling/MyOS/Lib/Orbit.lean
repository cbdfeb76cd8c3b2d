import Mathlib.Data.Fintype.Pigeonhole
import Mathlib.Data.Set.Finite.Basic
import Mathlib.Logic.Function.Iterate
import Mathlib.Data.List.Nodup

/-! Following a function from a starting point until it leaves a set: as a list of the points
passed, and as a question of repetition when the set is finite. -/

namespace Orbit

variable {α : Type*}

/-- The points from `x` on, up to the first one outside of `live`. -/
inductive Path (f : α → α) (live : α → Prop) : α → List α → Prop where
  | stop {x : α} : ¬live x → Path f live x []
  | step {x : α} {xs : List α} : live x → Path f live (f x) xs → Path f live x (x :: xs)

variable {f : α → α} {live : α → Prop} {x : α} {xs ys : List α}

theorem Path.unique (h : Path f live x xs) (k : Path f live x ys) : xs = ys := by
  induction h generalizing ys with
  | stop hx =>
      cases k with
      | stop _ => rfl
      | step hlive _ => exact absurd hlive hx
  | step hlive _ ih =>
      cases k with
      | stop hx => exact absurd hlive hx
      | step _ k => rw [ih k]

/-- Point `k` of the path is the `k`-th iterate. -/
theorem Path.getElem? (h : Path f live x xs) {k : ℕ} (hk : k < xs.length) :
    xs[k]? = some (f^[k] x) := by
  induction h generalizing k with
  | stop _ => simp at hk
  | step _ _ ih =>
      cases k with
      | zero => rfl
      | succ k => exact ih (by simpa using hk)

theorem Path.mem_live (h : Path f live x xs) : ∀ y ∈ xs, live y := by
  induction h with
  | stop _ => simp
  | step hlive _ ih =>
      intro y hy
      rcases List.mem_cons.mp hy with rfl | hy
      · exact hlive
      · exact ih y hy

/-- The iterate behind the path is outside. -/
theorem Path.iterate_length (h : Path f live x xs) : ¬live (f^[xs.length] x) := by
  induction h with
  | stop hx => exact hx
  | step _ _ ih => exact ih

/-- No point of the set is passed twice. -/
def NoRepeat (f : α → α) (live : α → Prop) (x : α) : Prop :=
  ∀ i j, i < j → (∀ k ≤ j, live (f^[k] x)) → f^[i] x ≠ f^[j] x

/-- A point passed twice is passed over and over again. -/
theorem live_of_repeat {i j : ℕ} (hij : i < j) (hlive : ∀ k ≤ j, live (f^[k] x))
    (heq : f^[i] x = f^[j] x) (n : ℕ) : live (f^[n] x) := by
  induction n using Nat.strong_induction_on with
  | h n ih =>
      by_cases hn : n ≤ j
      · exact hlive n hn
      · -- one period back
        have hback : f^[n] x = f^[n - (j - i)] x := by
          rw [show n = (n - j) + j by omega, Function.iterate_add_apply, ← heq,
            ← Function.iterate_add_apply, show n - j + j - (j - i) = n - j + i by omega]
        rw [hback]
        exact ih _ (by omega)

theorem exists_path_iff : (∃ xs, Path f live x xs) ↔ ∃ n, ¬live (f^[n] x) := by
  constructor
  · rintro ⟨xs, h⟩
    induction h with
    | @stop y hy => exact ⟨0, hy⟩
    | step _ _ ih =>
        obtain ⟨n, hn⟩ := ih
        exact ⟨n + 1, hn⟩
  · rintro ⟨n, hn⟩
    induction n generalizing x with
    | zero => exact ⟨[], .stop hn⟩
    | succ n ih =>
        by_cases hx : live x
        · obtain ⟨xs, hxs⟩ := ih hn
          exact ⟨x :: xs, .step hx hxs⟩
        · exact ⟨[], .stop hx⟩

/-- Inside a finite set, what never repeats ends. -/
theorem exists_path_iff_noRepeat (hfinite : {y | live y}.Finite) :
    (∃ xs, Path f live x xs) ↔ NoRepeat f live x := by
  rw [exists_path_iff]
  constructor
  · rintro ⟨n, hn⟩ i j hij hlive heq
    exact hn (live_of_repeat hij hlive heq n)
  · intro hrepeat
    by_contra hnever
    push Not at hnever
    have : Finite {y | live y} := hfinite
    obtain ⟨i, j, hne, heq⟩ := Finite.exists_ne_map_eq_of_infinite
      fun n : ℕ => (⟨f^[n] x, hnever n⟩ : {y | live y})
    have heq : f^[i] x = f^[j] x := congrArg Subtype.val heq
    rcases Nat.lt_or_gt_of_ne hne with hij | hji
    · exact hrepeat i j hij (fun k _ => hnever k) heq
    · exact hrepeat j i hji (fun k _ => hnever k) heq.symm

/-- So a path has no point twice. -/
theorem Path.nodup (h : Path f live x xs) : xs.Nodup := by
  rw [List.nodup_iff_getElem?_ne_getElem?]
  intro i j hij hj heq
  have hij' : f^[i] x = f^[j] x := by
    rw [h.getElem? (by omega), h.getElem? hj] at heq
    exact Option.some.inj heq
  obtain ⟨n, hn⟩ := exists_path_iff.mp ⟨xs, h⟩
  refine hn (live_of_repeat hij ?_ hij' n)
  intro k hk
  exact h.mem_live _ (List.mem_of_getElem? (h.getElem? (by omega)))

end Orbit
