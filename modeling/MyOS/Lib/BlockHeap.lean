import Mathlib.Algebra.Group.Nat.Defs
import Mathlib.Data.List.Perm.Basic
import Mathlib.Data.List.Pairwise
import Mathlib.Data.Nat.Notation
import Mathlib.Tactic.Common

/-! A heap of blocks in word-addressed memory. A block at `a` has its size in the word at `a`,
a link to the next free block in the word at `a + 4`, and its area from `a + 8` on. Blocks are
cut off the top one after the other, and freed blocks form a linked list. -/

namespace BlockHeap

variable {W W' : ℕ → ℕ}

/-- Following the links from `p` leads through the blocks of the list and ends at `0`. -/
def Linked (W : ℕ → ℕ) : ℕ → List ℕ → Prop
  | p, [] => p = 0
  | p, a :: l => p = a ∧ a ≠ 0 ∧ Linked W (W (a + 4)) l

theorem Linked.congr {p : ℕ} {l : List ℕ} (h : Linked W p l)
    (hW : ∀ a ∈ l, W' (a + 4) = W (a + 4)) : Linked W' p l := by
  induction l generalizing p with
  | nil => exact h
  | cons a l ih =>
      obtain ⟨hp, ha, hl⟩ := h
      refine ⟨hp, ha, ?_⟩
      rw [hW a List.mem_cons_self]
      exact ih hl fun b hb => hW b (List.mem_cons_of_mem a hb)

/-- The list behind a block is what its link leads to. -/
theorem Linked.after {p b : ℕ} {pre rest : List ℕ} (h : Linked W p (pre ++ b :: rest)) :
    Linked W (W (b + 4)) rest := by
  induction pre generalizing p with
  | nil => exact h.2.2
  | cons x pre ih => exact ih h.2.2

/-- Redirecting the link of `b` takes the block behind `b` out of the list. -/
theorem Linked.unlink {p a b : ℕ} {pre post : List ℕ} (h : Linked W p (pre ++ b :: a :: post))
    (hb : W' (b + 4) = W (a + 4)) (hpre : ∀ x ∈ pre, W' (x + 4) = W (x + 4))
    (hpost : ∀ x ∈ post, W' (x + 4) = W (x + 4)) : Linked W' p (pre ++ b :: post) := by
  induction pre generalizing p with
  | nil =>
      obtain ⟨hp, hne, -, -, hl⟩ := h
      refine ⟨hp, hne, ?_⟩
      rw [hb]
      exact hl.congr hpost
  | cons x pre ih =>
      obtain ⟨hp, hne, hl⟩ := h
      refine ⟨hp, hne, ?_⟩
      rw [hpre x List.mem_cons_self]
      exact ih hl fun y hy => hpre y (List.mem_cons_of_mem x hy)

/-! ## The invariant -/

/-- `blocks` lists all blocks with their size, the newest first; each is free or live. A live
block comes with the size asked for. -/
structure Heap (W : ℕ → ℕ) (start top head : ℕ) (blocks : List (ℕ × ℕ)) (free : List ℕ)
    (live : List (ℕ × ℕ)) : Prop where
  start_pos : 0 < start
  start_le : start ≤ top
  apart : blocks.Pairwise fun x y => y.1 + 8 + y.2 ≤ x.1
  bounds : ∀ b ∈ blocks, start ≤ b.1 ∧ b.1 + 8 + b.2 ≤ top ∧ b.1 % 4 = 0
  sizes : ∀ b ∈ blocks, W b.1 = b.2
  linked : Linked W head free
  complete : (live.map Prod.fst ++ free).Perm (blocks.map Prod.fst)
  fits : ∀ l ∈ live, ∃ n, (l.1, n) ∈ blocks ∧ l.2 ≤ n

variable {start top head : ℕ} {blocks : List (ℕ × ℕ)} {free : List ℕ} {live : List (ℕ × ℕ)}

/-- No block yet. -/
theorem heap_empty (W : ℕ → ℕ) (h : 0 < start) : Heap W start start 0 [] [] [] :=
  ⟨h, Nat.le_refl start, .nil, by simp, by simp, rfl, by simp, by simp⟩

theorem Heap.nodup (h : Heap W start top head blocks free live) :
    (live.map Prod.fst ++ free).Nodup := by
  have hblocks : (blocks.map Prod.fst).Nodup := by
    refine (List.pairwise_map).mpr (h.apart.imp ?_)
    intro x y hxy
    omega
  exact h.complete.nodup_iff.mpr hblocks

theorem Heap.free_block (h : Heap W start top head blocks free live) {a : ℕ} (ha : a ∈ free) :
    ∃ n, (a, n) ∈ blocks := by
  have hmem := h.complete.subset (List.mem_append_right _ ha)
  obtain ⟨⟨b, n⟩, hb, rfl⟩ := List.mem_map.mp hmem
  exact ⟨n, hb⟩

theorem Heap.live_block (h : Heap W start top head blocks free live) {a n : ℕ}
    (ha : (a, n) ∈ live) : ∃ m, (a, m) ∈ blocks ∧ n ≤ m :=
  h.fits (a, n) ha

/-- Two blocks are one, or one ends before the other begins. -/
theorem Heap.separate (h : Heap W start top head blocks free live) {x y : ℕ × ℕ}
    (hx : x ∈ blocks) (hy : y ∈ blocks) :
    x = y ∨ x.1 + 8 + x.2 ≤ y.1 ∨ y.1 + 8 + y.2 ≤ x.1 := by
  have hrel : blocks.Pairwise fun x y : ℕ × ℕ =>
      x = y ∨ x.1 + 8 + x.2 ≤ y.1 ∨ y.1 + 8 + y.2 ≤ x.1 :=
    h.apart.imp fun hxy => .inr (.inr hxy)
  have hflip : blocks.Pairwise fun x y : ℕ × ℕ =>
      y = x ∨ y.1 + 8 + y.2 ≤ x.1 ∨ x.1 + 8 + x.2 ≤ y.1 :=
    h.apart.imp fun hxy => .inr (.inl hxy)
  exact List.Pairwise.forall_of_forall_of_flip (fun x _ => .inl rfl) hrel hflip hx hy

/-! ## Operations -/

/-- Only the header words matter. -/
theorem Heap.congr (h : Heap W start top head blocks free live)
    (hW : ∀ b ∈ blocks, W' b.1 = W b.1 ∧ W' (b.1 + 4) = W (b.1 + 4)) :
    Heap W' start top head blocks free live := by
  refine ⟨h.start_pos, h.start_le, h.apart, h.bounds, ?_, ?_, h.complete, h.fits⟩
  · intro b hb
    rw [(hW b hb).1]
    exact h.sizes b hb
  · refine h.linked.congr ?_
    intro a ha
    obtain ⟨n, hn⟩ := h.free_block ha
    exact (hW (a, n) hn).2

theorem Heap.raise (h : Heap W start top head blocks free live) {top' : ℕ} (htop : top ≤ top') :
    Heap W start top' head blocks free live := by
  refine ⟨h.start_pos, Nat.le_trans h.start_le htop, h.apart, ?_, h.sizes, h.linked, h.complete,
    h.fits⟩
  intro b hb
  obtain ⟨h1, h2, h3⟩ := h.bounds b hb
  exact ⟨h1, Nat.le_trans h2 htop, h3⟩

private theorem perm_take (live : List (ℕ × ℕ)) (pre post : List ℕ) (a n : ℕ) :
    ((((a, n) :: live).map Prod.fst) ++ (pre ++ post)).Perm
      (live.map Prod.fst ++ (pre ++ a :: post)) := by
  have hmid : (live.map Prod.fst ++ (pre ++ a :: post)).Perm
      (a :: (live.map Prod.fst ++ (pre ++ post))) := by
    rw [← List.append_assoc, ← List.append_assoc]
    exact List.perm_middle
  exact hmid.symm

private theorem Heap.fits_take (h : Heap W start top head blocks free live) {a n : ℕ}
    (ha : a ∈ free) (hn : n ≤ W a) : ∀ l ∈ (a, n) :: live, ∃ m, (l.1, m) ∈ blocks ∧ l.2 ≤ m := by
  intro l hl
  rcases List.mem_cons.mp hl with rfl | hl
  · obtain ⟨m, hm⟩ := h.free_block ha
    have hsize : W a = m := h.sizes (a, m) hm
    exact ⟨m, hm, by rw [← hsize]; exact hn⟩
  · exact h.fits l hl

/-- The first free block is handed out. -/
theorem Heap.take_head {a n : ℕ} {post : List ℕ}
    (h : Heap W start top head blocks (a :: post) live) (hn : n ≤ W a) :
    Heap W start top (W (a + 4)) blocks post ((a, n) :: live) := by
  refine ⟨h.start_pos, h.start_le, h.apart, h.bounds, h.sizes, h.linked.2.2, ?_,
    h.fits_take List.mem_cons_self hn⟩
  exact (perm_take live [] post a n).trans h.complete

/-- A later free block is handed out: the link of its predecessor is redirected. -/
theorem Heap.take_next {a b n : ℕ} {pre post : List ℕ}
    (h : Heap W start top head blocks (pre ++ b :: a :: post) live) (hn : n ≤ W a)
    (hb : W' (b + 4) = W (a + 4))
    (hW : ∀ x ∈ blocks, W' x.1 = W x.1 ∧ (x.1 ≠ b → W' (x.1 + 4) = W (x.1 + 4))) :
    Heap W' start top head blocks (pre ++ b :: post) ((a, n) :: live) := by
  have hnodup := (List.nodup_append.mp h.nodup).2.1
  have hmem : ∀ x ∈ pre ++ b :: a :: post, x ≠ b → W' (x + 4) = W (x + 4) := by
    intro x hx hxb
    obtain ⟨m, hm⟩ := h.free_block hx
    exact (hW (x, m) hm).2 hxb
  have hb_notin : b ∉ pre ∧ b ∉ post := by
    rw [List.nodup_append] at hnodup
    obtain ⟨-, hpost, hdisj⟩ := hnodup
    refine ⟨fun hpre => hdisj b hpre b List.mem_cons_self rfl, ?_⟩
    intro hin
    exact (List.nodup_cons.mp hpost).1 (List.mem_cons_of_mem a hin)
  refine ⟨h.start_pos, h.start_le, h.apart, h.bounds, ?_, ?_, ?_,
    h.fits_take (List.mem_append_right _ (by simp)) hn⟩
  · intro x hx
    rw [(hW x hx).1]
    exact h.sizes x hx
  · refine h.linked.unlink hb ?_ ?_
    · intro x hx
      exact hmem x (List.mem_append_left _ hx) fun hxb => hb_notin.1 (hxb ▸ hx)
    · intro x hx
      refine hmem x (List.mem_append_right _ ?_) fun hxb => hb_notin.2 (hxb ▸ hx)
      exact List.mem_cons_of_mem b (List.mem_cons_of_mem a hx)
  · have hperm := perm_take live (pre ++ [b]) post a n
    rw [List.append_assoc, List.append_assoc] at hperm
    exact hperm.trans h.complete

/-- A new block behind the top. -/
theorem Heap.carve {a n : ℕ} (h : Heap W start top head blocks free live) (ha : top ≤ a)
    (haligned : a % 4 = 0) (hsize : W' a = n)
    (hW : ∀ x ∈ blocks, W' x.1 = W x.1 ∧ W' (x.1 + 4) = W (x.1 + 4)) :
    Heap W' start (a + 8 + n) head ((a, n) :: blocks) free ((a, n) :: live) := by
  have hstart := h.start_le
  have hold := h.congr hW
  refine ⟨h.start_pos, by omega, ?_, ?_, ?_, hold.linked, h.complete.cons a, ?_⟩
  · refine List.pairwise_cons.mpr ⟨?_, h.apart⟩
    intro y hy
    have := (h.bounds y hy).2.1
    omega
  · intro b hb
    rcases List.mem_cons.mp hb with rfl | hb
    · exact ⟨by omega, Nat.le_refl _, haligned⟩
    · obtain ⟨h1, h2, h3⟩ := h.bounds b hb
      exact ⟨h1, by omega, h3⟩
  · intro b hb
    rcases List.mem_cons.mp hb with rfl | hb
    · exact hsize
    · exact hold.sizes b hb
  · intro l hl
    rcases List.mem_cons.mp hl with rfl | hl
    · exact ⟨n, List.mem_cons_self, Nat.le_refl n⟩
    · obtain ⟨m, hm, hle⟩ := h.fits l hl
      exact ⟨m, List.mem_cons_of_mem _ hm, hle⟩

/-- A live block goes to the front of the free list. -/
theorem Heap.release {a n : ℕ} (h : Heap W start top head blocks free live)
    (ha : (a, n) ∈ live) (hlink : W' (a + 4) = head)
    (hW : ∀ x ∈ blocks, W' x.1 = W x.1 ∧ (x.1 ≠ a → W' (x.1 + 4) = W (x.1 + 4))) :
    Heap W' start top a blocks (a :: free) (live.erase (a, n)) := by
  obtain ⟨m, hm, -⟩ := h.live_block ha
  have hpos := h.start_pos
  have hbound := h.bounds (a, m) hm
  have hnot : a ∉ free := by
    intro hin
    exact (List.nodup_append.mp h.nodup).2.2 a (List.mem_map.mpr ⟨(a, n), ha, rfl⟩) a hin rfl
  refine ⟨h.start_pos, h.start_le, h.apart, h.bounds, ?_, ?_, ?_, ?_⟩
  · intro x hx
    rw [(hW x hx).1]
    exact h.sizes x hx
  · refine ⟨rfl, by omega, ?_⟩
    rw [hlink]
    refine h.linked.congr ?_
    intro x hx
    obtain ⟨k, hk⟩ := h.free_block hx
    exact (hW (x, k) hk).2 fun hxa => hnot (hxa ▸ hx)
  · have herase : (live.map Prod.fst).Perm (a :: (live.erase (a, n)).map Prod.fst) :=
      (List.perm_cons_erase ha).map Prod.fst
    have hmid := (herase.append_right free).symm
    exact (List.perm_middle.trans hmid).trans h.complete
  · intro l hl
    exact h.fits l (List.mem_of_mem_erase hl)

end BlockHeap
