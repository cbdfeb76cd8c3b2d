import MyOS.Verification.Memory.Words

/-! The free list of the heap and the walk of `malloc` along it. The walk stands at the list head
or at the `next` field of the block it passed last, and takes a block out where it stands. -/

namespace MyOS

open Effect X86Paging ByteMemory PageTables Ownership BlockHeap

variable {s s' : Machine} {g : Layout} {free : List ℕ} {size : ℕ}

/-- The list leads through headers in the heap's pages that do not overlap. -/
structure FreeList (s : Machine) (g : Layout) (free : List ℕ) : Prop where
  inHeap : ∀ a ∈ free, g.InHeap a ∧ g.InHeap (a + 4) ∧ a % 4 = 0
  apart : free.Pairwise fun a b => a + 8 ≤ b ∨ b + 8 ≤ a
  linked : Linked (s.word g) s.freeListHead free

theorem FreeList.nodup (hf : FreeList s g free) : free.Nodup := by
  refine hf.apart.imp ?_
  rintro a b h rfl
  omega

theorem FreeList.length_lt (hf : FreeList s g free) (h : KernelSpace s g) :
    free.length < 2 ^ 32 := by
  have hsub : free ⊆ List.range (2 ^ 22) := fun a ha =>
    List.mem_range.mpr (h.inHeap_lt (hf.inHeap a ha).1)
  have hlen := (List.subperm_of_subset hf.nodup hsub).length_le
  rw [List.length_range] at hlen
  omega

theorem FreeList.head_lt (hf : FreeList s g free) (h : KernelSpace s g) :
    s.freeListHead < 2 ^ 32 := by
  have hlinked := hf.linked
  cases free with
  | nil =>
      have hzero : s.freeListHead = 0 := hlinked
      omega
  | cons a rest =>
      have hlt := h.inHeap_lt (hf.inHeap a List.mem_cons_self).1
      have hhead : s.freeListHead = a := hlinked.1
      omega

theorem FreeList.of_words {g' : Layout} (hf : FreeList s g free)
    (hhead : s'.freeListHead = s.freeListHead)
    (hinHeap : ∀ a ∈ free, g'.InHeap a ∧ g'.InHeap (a + 4))
    (hword : ∀ a ∈ free, s'.word g' (a + 4) = s.word g (a + 4)) : FreeList s' g' free := by
  refine ⟨fun a ha => ⟨(hinHeap a ha).1, (hinHeap a ha).2, (hf.inHeap a ha).2.2⟩, hf.apart, ?_⟩
  rw [hhead]
  exact hf.linked.congr hword

/-! ## The walk -/

/-- The link a walk looks at when it has passed the blocks of the list. -/
inductive Link.After : List ℕ → Link → Prop where
  | head : Link.After [] .head
  | next (pre : List ℕ) (b : ℕ) : Link.After (pre ++ [b]) (.next (b + 4))

/-- What a step of the walk reads: the rest of the list hangs at the link. -/
theorem FreeList.link_read (hf : FreeList s g free) (h : KernelSpace s g) (hdir : g.IsDir s.cr3)
    {link : Link} {pre rest : List ℕ} (hlink : link.After pre) (hfree : free = pre ++ rest) :
    ∃ p, link.read s = .ok p s ∧ Linked (s.word g) p rest := by
  have hlinked := hf.linked
  rw [hfree] at hlinked
  cases hlink with
  | head => exact ⟨s.freeListHead, rfl, hlinked⟩
  | next pre b =>
      rw [List.append_assoc] at hlinked hfree
      obtain ⟨-, h2, h3⟩ := hf.inHeap b (by rw [hfree]; simp)
      exact ⟨_, h.load32_word hdir (h.inHeap_lt h2) (by omega), hlinked.after⟩

/-- The walk passes over blocks that are too small. -/
theorem FreeList.walk_pass (hf : FreeList s g free) (h : KernelSpace s g) (hdir : g.IsDir s.cr3)
    (fuel : ℕ) {link : Link} {pre mid rest : List ℕ} (hlink : link.After pre)
    (hfree : free = pre ++ (mid ++ rest)) (hsmall : ∀ b ∈ mid, s.word g b < size) :
    ∃ link', Link.After (pre ++ mid) link' ∧
      mallocWalk size (mid.length + fuel) link s = mallocWalk size fuel link' s := by
  induction mid generalizing link pre with
  | nil => exact ⟨link, by rwa [List.append_nil], by rw [List.length_nil, Nat.zero_add]⟩
  | cons b mid ih =>
      obtain ⟨p, hread, rfl, hne, -⟩ := hf.link_read h hdir hlink hfree
      obtain ⟨h1, -, h3⟩ := hf.inHeap p (by rw [hfree]; simp)
      have hblock := h.load32_word hdir (h.inHeap_lt h1) h3
      have hp := hsmall p List.mem_cons_self
      obtain ⟨link', hafter, hwalk⟩ := ih (.next pre p)
        (by rw [hfree, List.append_assoc, List.singleton_append, List.cons_append])
        fun b hb => hsmall b (List.mem_cons_of_mem p hb)
      rw [List.append_assoc, List.singleton_append] at hafter
      refine ⟨link', hafter, ?_⟩
      rw [List.length_cons, Nat.add_right_comm, mallocWalk, bind_of_ok hread, if_neg hne,
        bind_of_ok hblock, if_neg (by omega), hwalk]

theorem FreeList.walk_none (hf : FreeList s g free) (h : KernelSpace s g) (hdir : g.IsDir s.cr3)
    (hsmall : ∀ b ∈ free, s.word g b < size) : mallocWalk size (2 ^ 32) .head s = .ok none s := by
  have hlength := hf.length_lt h
  obtain ⟨fuel, hfuel⟩ : ∃ fuel, 2 ^ 32 = free.length + (fuel + 1) :=
    ⟨2 ^ 32 - free.length - 1, by omega⟩
  have hfree : free = [] ++ (free ++ []) := by simp
  obtain ⟨link, hafter, hwalk⟩ := hf.walk_pass h hdir (fuel + 1) .head hfree hsmall
  obtain ⟨p, hread, hp⟩ := hf.link_read h hdir hafter hfree
  have hzero : p = 0 := hp
  rw [hfuel, hwalk, mallocWalk, bind_of_ok hread, if_pos hzero]
  rfl

theorem FreeList.walk_some (hf : FreeList s g free) (h : KernelSpace s g) (hdir : g.IsDir s.cr3)
    {pre post : List ℕ} {a : ℕ} (hfree : free = pre ++ a :: post)
    (hsmall : ∀ b ∈ pre, s.word g b < size) (hsize : size ≤ s.word g a) :
    ∃ link, Link.After pre link ∧ ∀ s', link.write (s.word g (a + 4)) s = .ok () s' →
      mallocWalk size (2 ^ 32) .head s = .ok (some (a + 8)) s' := by
  have hlength := hf.length_lt h
  have hpre : pre.length < free.length := by
    rw [hfree, List.length_append, List.length_cons]
    omega
  obtain ⟨fuel, hfuel⟩ : ∃ fuel, 2 ^ 32 = pre.length + (fuel + 1) :=
    ⟨2 ^ 32 - pre.length - 1, by omega⟩
  have hpass : free = [] ++ (pre ++ a :: post) := hfree
  obtain ⟨link, hafter, hwalk⟩ := hf.walk_pass h hdir (fuel + 1) .head hpass hsmall
  refine ⟨link, hafter, ?_⟩
  intro s' hwrite
  obtain ⟨p, hread, rfl, hne, -⟩ := hf.link_read h hdir hafter (by simpa using hfree)
  obtain ⟨h1, h2, h3⟩ := hf.inHeap p (by rw [hfree]; simp)
  have hblock := h.load32_word hdir (h.inHeap_lt h1) h3
  have hnext := h.load32_word hdir (h.inHeap_lt h2) (by omega)
  rw [hfuel, hwalk, mallocWalk, bind_of_ok hread, if_neg hne, bind_of_ok hblock, if_pos hsize,
    bind_of_ok hnext, bind_of_ok hwrite]
  rfl

theorem exists_first_fit {W : ℕ → ℕ} (h : ∃ a ∈ free, size ≤ W a) :
    ∃ pre a post, free = pre ++ a :: post ∧ (∀ b ∈ pre, W b < size) ∧ size ≤ W a := by
  induction free with
  | nil =>
      obtain ⟨a, ha, -⟩ := h
      cases ha
  | cons b rest ih =>
      by_cases hb : size ≤ W b
      · exact ⟨[], b, rest, rfl, by simp, hb⟩
      · obtain ⟨a, ha, hsize⟩ := h
        have hrest : ∃ a ∈ rest, size ≤ W a := by
          rcases List.mem_cons.mp ha with rfl | ha
          · exact absurd hsize hb
          · exact ⟨a, ha, hsize⟩
        obtain ⟨pre, a, post, hfree, hsmall, hsize⟩ := ih hrest
        refine ⟨b :: pre, a, post, by rw [hfree, List.cons_append], ?_, hsize⟩
        exact List.forall_mem_cons.mpr ⟨by omega, hsmall⟩

end MyOS
