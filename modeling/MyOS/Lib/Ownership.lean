import Mathlib.Tactic.Common

/-! Ownership of resources: every resource in use has exactly one owner. The rules say how
taking, passing on and giving back a resource keep it so. -/

namespace Ownership

variable {O F : Type} {owns owns' : O → F → Prop} {used used' : F → Prop}

/-- The resources in use are those with an owner, and no resource has two. -/
structure Exact (owns : O → F → Prop) (used : F → Prop) : Prop where
  exclusive : ∀ o o' f, owns o f → owns o' f → o = o'
  used_iff : ∀ f, used f ↔ ∃ o, owns o f

theorem Exact.ne_of_owner_ne (h : Exact owns used) {o o' : O} {f f' : F} (hf : owns o f)
    (hf' : owns o' f') (hne : o ≠ o') : f ≠ f' := by
  intro hff
  rw [hff] at hf
  exact hne (h.exclusive o o' f' hf hf')

/-- A free resource goes to an owner. -/
theorem Exact.give (h : Exact owns used) {o : O} {f : F} (hfree : ¬used f)
    (howns : ∀ o' f', owns' o' f' ↔ owns o' f' ∨ o' = o ∧ f' = f)
    (hused : ∀ f', used' f' ↔ used f' ∨ f' = f) : Exact owns' used' := by
  have hnone : ∀ o', ¬owns o' f := fun o' ho => hfree ((h.used_iff f).mpr ⟨o', ho⟩)
  refine ⟨?_, ?_⟩
  · intro o₁ o₂ x h₁ h₂
    rcases (howns o₁ x).mp h₁ with h₁ | ⟨rfl, rfl⟩
    · rcases (howns o₂ x).mp h₂ with h₂ | ⟨rfl, rfl⟩
      · exact h.exclusive o₁ o₂ x h₁ h₂
      · exact absurd h₁ (hnone o₁)
    · rcases (howns o₂ x).mp h₂ with h₂ | ⟨rfl, -⟩
      · exact absurd h₂ (hnone o₂)
      · rfl
  · intro x
    rw [hused x, h.used_iff x]
    refine ⟨?_, ?_⟩
    · rintro (⟨o', ho⟩ | hx)
      · exact ⟨o', (howns o' x).mpr (.inl ho)⟩
      · exact ⟨o, (howns o x).mpr (.inr ⟨rfl, hx⟩)⟩
    · rintro ⟨o', ho⟩
      rcases (howns o' x).mp ho with ho | ⟨-, hx⟩
      · exact .inl ⟨o', ho⟩
      · exact .inr hx

/-- A resource passes from one owner to another. -/
theorem Exact.pass (h : Exact owns used) {o o' : O} {f : F} (hf : owns o f)
    (howns : ∀ p x, owns' p x ↔ owns p x ∧ p ≠ o ∨ p = o' ∧ x = f)
    (honly : ∀ x, owns o x → x = f) : Exact owns' used := by
  refine ⟨?_, ?_⟩
  · intro p₁ p₂ x h₁ h₂
    rcases (howns p₁ x).mp h₁ with ⟨h₁, hne₁⟩ | ⟨rfl, rfl⟩
    · rcases (howns p₂ x).mp h₂ with ⟨h₂, -⟩ | ⟨rfl, rfl⟩
      · exact h.exclusive p₁ p₂ x h₁ h₂
      · exact absurd (h.exclusive p₁ o x h₁ hf) hne₁
    · rcases (howns p₂ x).mp h₂ with ⟨h₂, hne₂⟩ | ⟨rfl, -⟩
      · exact absurd (h.exclusive p₂ o x h₂ hf) hne₂
      · rfl
  · intro x
    rw [h.used_iff x]
    refine ⟨?_, ?_⟩
    · rintro ⟨p, hp⟩
      by_cases hpo : p = o
      · rw [hpo] at hp
        exact ⟨o', (howns o' x).mpr (.inr ⟨rfl, honly x hp⟩)⟩
      · exact ⟨p, (howns p x).mpr (.inl ⟨hp, hpo⟩)⟩
    · rintro ⟨p, hp⟩
      rcases (howns p x).mp hp with ⟨hp, -⟩ | ⟨-, hx⟩
      · exact ⟨p, hp⟩
      · rw [hx]
        exact ⟨o, hf⟩

/-- All resources of some owners are given back. -/
theorem Exact.release (h : Exact owns used) (gone : O → Prop)
    (howns : ∀ o f, owns' o f ↔ owns o f ∧ ¬gone o)
    (hused : ∀ f, used' f ↔ used f ∧ ∀ o, gone o → ¬owns o f) : Exact owns' used' := by
  refine ⟨?_, ?_⟩
  · intro o₁ o₂ f h₁ h₂
    exact h.exclusive o₁ o₂ f ((howns o₁ f).mp h₁).1 ((howns o₂ f).mp h₂).1
  · intro f
    rw [hused f, h.used_iff f]
    refine ⟨?_, ?_⟩
    · rintro ⟨⟨o, ho⟩, hgone⟩
      exact ⟨o, (howns o f).mpr ⟨ho, fun hg => hgone o hg ho⟩⟩
    · rintro ⟨o, ho⟩
      obtain ⟨ho, hkept⟩ := (howns o f).mp ho
      refine ⟨⟨o, ho⟩, ?_⟩
      intro o' hg ho'
      rw [h.exclusive o' o f ho' ho] at hg
      exact hkept hg

/-- The resources of all owners, one after the other: each resource in use stands there once. -/
theorem Exact.ledger (h : Exact owns used) {os : List O} {res : O → Option F} (hos : os.Nodup)
    (hres : ∀ o f, owns o f ↔ o ∈ os ∧ res o = some f) :
    (os.filterMap res).Nodup ∧ ∀ f, used f ↔ f ∈ os.filterMap res := by
  refine ⟨?_, ?_⟩
  · rw [List.Nodup, List.pairwise_filterMap]
    refine List.Pairwise.imp_of_mem ?_ hos
    intro o o' ho ho' hne f hf f' hf' heq
    rw [← heq] at hf'
    exact hne (h.exclusive o o' f ((hres o f).mpr ⟨ho, hf⟩) ((hres o' f).mpr ⟨ho', hf'⟩))
  · intro f
    rw [h.used_iff f, List.mem_filterMap]
    exact exists_congr fun o => hres o f

end Ownership
