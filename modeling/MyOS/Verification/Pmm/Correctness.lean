import MyOS.Lib.WordBitmap
import MyOS.Model.Pmm
import Mathlib.Data.Finset.Card
import Mathlib.Data.Finset.Image
import Mathlib.Tactic

/-! # Correctness of the physical frame allocator -/

namespace MyOS

open WordBitmap

/-- The bitmap marks frame `f` as used. -/
def Pmm.frameUsed (s : Pmm) (f : ℕ) : Bool := bit s.pmmBitmap f

/-- Number of frames the bitmap has a bit for. -/
def Pmm.capacity (s : Pmm) : ℕ := s.pmmBitmapSize / 4 * 32

/-! ## The bitmap operations -/

@[simp] theorem bit_pmmSetBit (bitmap : ℕ → BitVec 32) (f g : ℕ) :
    bit (pmmSetBit bitmap f) g = (decide (g = f) || bit bitmap g) :=
  bit_update_or (by decide) bitmap f g

@[simp] theorem bit_pmmClearBit (bitmap : ℕ → BitVec 32) (f g : ℕ) :
    bit (pmmClearBit bitmap f) g = (!decide (g = f) && bit bitmap g) :=
  bit_update_and_not (by decide) bitmap f g

theorem bit_foldl_pmmSetBit (bitmap : ℕ → BitVec 32) (n f : ℕ) :
    bit ((List.range n).foldl pmmSetBit bitmap) f = (decide (f < n) || bit bitmap f) := by
  induction n with
  | zero => simp
  | succ n ih =>
      rw [List.range_succ, List.foldl_append, List.foldl_cons, List.foldl_nil, bit_pmmSetBit, ih,
        ← Bool.or_assoc]
      congr 1
      simp only [← Bool.decide_or, decide_eq_decide]
      omega

theorem findFreeFrame_eq (s : Pmm) :
    findFreeFrame s = firstClear s.pmmBitmap (s.pmmBitmapSize / 4) := rfl

theorem pmmGetFreeFrameCount_eq (s : Pmm) :
    pmmGetFreeFrameCount s = (List.range s.capacity).countP fun f => !s.frameUsed f :=
  clearCount_eq (by decide) s.pmmBitmap (s.pmmBitmapSize / 4)

/-- What one allocation can do: take the lowest free frame, or fail on a full bitmap. -/
theorem pmmAllocFrame_cases (s : Pmm) :
    (∃ f, f < s.capacity ∧ s.frameUsed f = false ∧ (∀ g < f, s.frameUsed g = true) ∧
      pmmAllocFrame s = (f * 4096, { s with pmmBitmap := pmmSetBit s.pmmBitmap f })) ∨
    ((∀ f < s.capacity, s.frameUsed f = true) ∧ pmmAllocFrame s = (0, s)) := by
  cases h : findFreeFrame s with
  | none =>
      right
      refine ⟨?_, by simp [pmmAllocFrame, h]⟩
      rw [findFreeFrame_eq] at h
      exact (firstClear_eq_none_iff (by decide) _ _).mp h
  | some f =>
      left
      have hf := h
      rw [findFreeFrame_eq] at hf
      obtain ⟨hlt, hfree, hlow⟩ := firstClear_eq_some (by decide) hf
      exact ⟨f, hlt, hfree, hlow, by simp [pmmAllocFrame, h, pmmFrameSize]⟩

@[simp] theorem pmmAllocFrame_totalFrames (s : Pmm) :
    (pmmAllocFrame s).2.pmmTotalFrames = s.pmmTotalFrames := by
  obtain ⟨f, -, -, -, h⟩ | ⟨-, h⟩ := pmmAllocFrame_cases s <;> simp [h]

@[simp] theorem pmmAllocFrame_bitmapSize (s : Pmm) :
    (pmmAllocFrame s).2.pmmBitmapSize = s.pmmBitmapSize := by
  obtain ⟨f, -, -, -, h⟩ | ⟨-, h⟩ := pmmAllocFrame_cases s <;> simp [h]

@[simp] theorem pmmAllocFrame_capacity (s : Pmm) :
    (pmmAllocFrame s).2.capacity = s.capacity := by
  simp [Pmm.capacity]

@[simp] theorem pmmFreeFrame_totalFrames (s : Pmm) (addr : ℕ) :
    (pmmFreeFrame s addr).pmmTotalFrames = s.pmmTotalFrames := rfl

@[simp] theorem pmmFreeFrame_capacity (s : Pmm) (addr : ℕ) :
    (pmmFreeFrame s addr).capacity = s.capacity := rfl

@[simp] theorem frameUsed_pmmFreeFrame (s : Pmm) (addr f : ℕ) :
    (pmmFreeFrame s addr).frameUsed f = (!decide (f = addr / 4096) && s.frameUsed f) := by
  simp [Pmm.frameUsed, pmmFreeFrame, pmmFrameSize]

/-! ## Runs of the allocator -/

/-- States reached from `init` by allocations and by frees of addresses held at the time.
The list holds the addresses handed out and not yet freed. -/
inductive PmmReachable (init : Pmm) : Pmm → List ℕ → Prop where
  | init : PmmReachable init init []
  | alloc {s held} : PmmReachable init s held →
      PmmReachable init (pmmAllocFrame s).2
        (if (pmmAllocFrame s).1 = 0 then held else (pmmAllocFrame s).1 :: held)
  | free {s held addr} : PmmReachable init s held → addr ∈ held →
      PmmReachable init (pmmFreeFrame s addr) (held.erase addr)

/-- The set bits are the first `reserved` frames and the held ones; held addresses are
distinct and point behind the reserved area. -/
structure PmmInvariant (total reserved : ℕ) (s : Pmm) (held : List ℕ) : Prop where
  totalFrames : s.pmmTotalFrames = total
  capacity : s.capacity = total
  used_iff : ∀ f < total, s.frameUsed f = true ↔ f < reserved ∨ f * 4096 ∈ held
  held_frame : ∀ addr ∈ held, ∃ f, reserved ≤ f ∧ f < total ∧ addr = f * 4096
  nodup : held.Nodup

theorem pmmInvariant_pmmAllocFrame {total reserved : ℕ} {s : Pmm} {held : List ℕ}
    (hpos : total = 0 ∨ 0 < reserved) (h : PmmInvariant total reserved s held) :
    PmmInvariant total reserved (pmmAllocFrame s).2
      (if (pmmAllocFrame s).1 = 0 then held else (pmmAllocFrame s).1 :: held) := by
  obtain ⟨f, hlt, hfree, -, hs⟩ | ⟨-, hs⟩ := pmmAllocFrame_cases s
  swap
  · rw [hs]
    simpa using h
  rw [h.capacity] at hlt
  have hnot : ¬ (f < reserved ∨ f * 4096 ∈ held) := by
    rw [← h.used_iff f hlt, hfree]
    simp
  push Not at hnot
  have hne : f * 4096 ≠ 0 := by omega
  refine ⟨by simp [h.totalFrames], by simp [h.capacity], ?_, ?_, ?_⟩
  · intro g hg
    rw [hs]
    have hmul : g * 4096 = f * 4096 ↔ g = f := by omega
    simp only [Pmm.frameUsed, bit_pmmSetBit, Bool.or_eq_true, decide_eq_true_eq, hne, if_false,
      List.mem_cons, hmul]
    have hg' := h.used_iff g hg
    unfold Pmm.frameUsed at hg'
    rw [hg']
    exact or_left_comm
  · intro addr haddr
    rw [hs] at haddr
    simp only [hne, if_false, List.mem_cons] at haddr
    rcases haddr with rfl | haddr
    · exact ⟨f, hnot.1, hlt, rfl⟩
    · exact h.held_frame addr haddr
  · rw [hs]
    simp only [hne, if_false]
    exact List.nodup_cons.mpr ⟨hnot.2, h.nodup⟩

theorem pmmInvariant_pmmFreeFrame {total reserved : ℕ} {s : Pmm} {held : List ℕ} {addr : ℕ}
    (haddr : addr ∈ held) (h : PmmInvariant total reserved s held) :
    PmmInvariant total reserved (pmmFreeFrame s addr) (held.erase addr) := by
  obtain ⟨f, hf, hlt, rfl⟩ := h.held_frame addr haddr
  refine ⟨h.totalFrames, h.capacity, ?_, ?_, h.nodup.erase _⟩
  · intro g hg
    have hmul : g * 4096 ≠ f * 4096 ↔ g ≠ f := by omega
    have hdiv : f * 4096 / 4096 = f := by omega
    rw [frameUsed_pmmFreeFrame, hdiv, h.nodup.mem_erase_iff, hmul]
    simp only [Bool.and_eq_true, Bool.not_eq_true', decide_eq_false_iff_not, h.used_iff g hg]
    constructor
    · rintro ⟨hne, hg' | hg'⟩
      · exact .inl hg'
      · exact .inr ⟨hne, hg'⟩
    · rintro (hg' | ⟨hne, hg'⟩)
      · exact ⟨by omega, .inl hg'⟩
      · exact ⟨hne, .inr hg'⟩
  · intro a ha
    exact h.held_frame a (List.mem_of_mem_erase ha)

theorem PmmReachable.invariant {total reserved : ℕ} {init s : Pmm} {held : List ℕ}
    (hpos : total = 0 ∨ 0 < reserved) (hinit : PmmInvariant total reserved init [])
    (h : PmmReachable init s held) : PmmInvariant total reserved s held := by
  induction h with
  | init => exact hinit
  | alloc _ ih => exact pmmInvariant_pmmAllocFrame hpos ih
  | free _ haddr ih => exact pmmInvariant_pmmFreeFrame haddr ih

/-! ## Consequences of the invariant -/

/-- The used frames are counted by the reserved area and the held list. -/
theorem PmmInvariant.count_used {total reserved : ℕ} {s : Pmm} {held : List ℕ}
    (h : PmmInvariant total reserved s held) :
    ((List.range total).countP fun f => s.frameUsed f) = min reserved total + held.length := by
  have hcard : ((List.range total).countP fun f => s.frameUsed f) =
      ((Finset.range total).filter fun f => s.frameUsed f = true).card := by
    rw [List.countP_eq_length_filter]
    simp only [Finset.card, Finset.filter_val, Finset.range_val, Multiset.range,
      Multiset.filter_coe, Multiset.coe_card, Bool.decide_eq_true]
  have hset : ((Finset.range total).filter fun f => s.frameUsed f = true) =
      Finset.range (min reserved total) ∪ held.toFinset.image (· / 4096) := by
    ext f
    simp only [Finset.mem_filter, Finset.mem_range, Finset.mem_union, Finset.mem_image,
      List.mem_toFinset, lt_min_iff]
    constructor
    · rintro ⟨hf, hused⟩
      rcases (h.used_iff f hf).mp hused with hres | hheld
      · exact .inl ⟨hres, hf⟩
      · exact .inr ⟨f * 4096, hheld, by omega⟩
    · rintro (⟨hres, hf⟩ | ⟨addr, haddr, rfl⟩)
      · exact ⟨hf, (h.used_iff f hf).mpr (.inl hres)⟩
      · obtain ⟨g, -, hg, rfl⟩ := h.held_frame addr haddr
        have hdiv : g * 4096 / 4096 = g := by omega
        rw [hdiv]
        exact ⟨hg, (h.used_iff g hg).mpr (.inr haddr)⟩
  have hdisj : Disjoint (Finset.range (min reserved total)) (held.toFinset.image (· / 4096)) := by
    rw [Finset.disjoint_right]
    intro f hf
    obtain ⟨addr, haddr, rfl⟩ := Finset.mem_image.mp hf
    obtain ⟨g, hg, -, rfl⟩ := h.held_frame addr (List.mem_toFinset.mp haddr)
    simp only [Finset.mem_range, lt_min_iff]
    omega
  have hinj : (held.toFinset.image (· / 4096)).card = held.length := by
    rw [Finset.card_image_of_injOn, List.toFinset_card_of_nodup h.nodup]
    intro a ha b hb hab
    obtain ⟨f, -, -, rfl⟩ := h.held_frame a (by simpa using ha)
    obtain ⟨g, -, -, rfl⟩ := h.held_frame b (by simpa using hb)
    simp only at hab
    omega
  rw [hcard, hset, Finset.card_union_of_disjoint hdisj, Finset.card_range, hinj]

theorem PmmInvariant.free_count {total reserved : ℕ} {s : Pmm} {held : List ℕ}
    (h : PmmInvariant total reserved s held) :
    pmmGetFreeFrameCount s = total - reserved - held.length := by
  have hlen := List.length_eq_countP_add_countP (fun f => s.frameUsed f) (l := List.range total)
  have hclear : ((List.range total).countP fun f => !s.frameUsed f) =
      (List.range total).countP fun f => ¬ s.frameUsed f := by
    apply List.countP_congr
    simp
  rw [h.count_used, List.length_range] at hlen
  rw [pmmGetFreeFrameCount_eq, h.capacity, hclear]
  omega

/-- Contract of the allocator in one state of a run. Addresses below `areaEnd` belong to the
kernel and its bitmap. -/
structure PmmSpec (total reserved areaEnd : ℕ) (s : Pmm) (held : List ℕ) : Prop where
  totalFrames : s.pmmTotalFrames = total
  bits : s.pmmBitmapSize * 8 = total
  used_iff : ∀ f < total, s.frameUsed f = true ↔ f < reserved ∨ f * 4096 ∈ held
  alloc_lowest : (pmmAllocFrame s).1 ≠ 0 →
    ∃ f, (pmmAllocFrame s).1 = f * 4096 ∧ f < total ∧ reserved ≤ f ∧ areaEnd ≤ f * 4096 ∧
      f * 4096 ∉ held ∧ s.frameUsed f = false ∧ ∀ g < f, s.frameUsed g = true
  alloc_null : (pmmAllocFrame s).1 = 0 ↔
    ∀ f, reserved ≤ f → f < total → f * 4096 ∈ held
  free_count : pmmGetFreeFrameCount s = total - reserved - held.length

theorem PmmInvariant.spec {total reserved areaEnd : ℕ} {s : Pmm} {held : List ℕ}
    (hpos : total = 0 ∨ 0 < reserved) (harea : areaEnd ≤ reserved * 4096)
    (hbits : s.pmmBitmapSize * 8 = total)
    (h : PmmInvariant total reserved s held) : PmmSpec total reserved areaEnd s held := by
  refine ⟨h.totalFrames, hbits, h.used_iff, ?_, ?_, h.free_count⟩
  · intro hne
    obtain ⟨f, hlt, hfree, hlow, hs⟩ | ⟨-, hs⟩ := pmmAllocFrame_cases s
    swap
    · simp [hs] at hne
    rw [h.capacity] at hlt
    have hnot : ¬ (f < reserved ∨ f * 4096 ∈ held) := by
      rw [← h.used_iff f hlt, hfree]
      simp
    push Not at hnot
    have hbehind : areaEnd ≤ f * 4096 := harea.trans (Nat.mul_le_mul_right _ hnot.1)
    exact ⟨f, by rw [hs], hlt, hnot.1, hbehind, hnot.2, hfree, hlow⟩
  · obtain ⟨f, hlt, hfree, -, hs⟩ | ⟨hfull, hs⟩ := pmmAllocFrame_cases s
    · rw [h.capacity] at hlt
      have hnot : ¬ (f < reserved ∨ f * 4096 ∈ held) := by
        rw [← h.used_iff f hlt, hfree]
        simp
      push Not at hnot
      rw [hs]
      constructor
      · intro hzero
        simp only at hzero
        omega
      · intro hall
        exact (hnot.2 (hall f hnot.1 hlt)).elim
    · rw [hs, h.capacity] at *
      simp only [true_iff]
      intro f hres hlt
      rcases (h.used_iff f hlt).mp (hfull f hlt) with hf | hf
      · omega
      · exact hf

/-! ## Initialisation -/

private theorem pmmInit_sizes (memSizeBytes : UInt32)
    (hframes : memSizeBytes.toNat / 4096 % 32 = 0) :
    bitmapBytes memSizeBytes * 8 = memSizeBytes.toNat / 4096 ∧
      bitmapBytes memSizeBytes / 4 * 32 = memSizeBytes.toNat / 4096 := by
  unfold bitmapBytes pmmFrameSize
  grind

theorem pmmInit_invariant (stale : ℕ → BitVec 32) (memSizeBytes kernelEnd : UInt32)
    (hframes : memSizeBytes.toNat / 4096 % 32 = 0) :
    PmmInvariant (memSizeBytes.toNat / 4096) (reservedFrames memSizeBytes kernelEnd)
      (pmmInit stale memSizeBytes kernelEnd) [] := by
  have hsize := pmmInit_sizes memSizeBytes hframes
  refine ⟨rfl, hsize.2, ?_, by simp, List.nodup_nil⟩
  intro f hf
  have hzero : bit (fun dword => if dword < bitmapBytes memSizeBytes / 4 then 0#32 else stale dword)
      f = false := by
    have hdword : f / 32 < bitmapBytes memSizeBytes / 4 := by omega
    simp [bit, hdword]
  simp only [Pmm.frameUsed, pmmInit]
  rw [bit_foldl_pmmSetBit, hzero]
  simp

/-- Every state of every run of the allocator meets its contract, on any memory whose frame
count is a multiple of 32 and that holds the kernel and the bitmap. -/
theorem pmm_run_spec (stale : ℕ → BitVec 32) (memSizeBytes kernelEnd : UInt32)
    (hframes : memSizeBytes.toNat / 4096 % 32 = 0)
    (hfit : kernelEnd.toNat + bitmapBytes memSizeBytes ≤ memSizeBytes.toNat)
    {s : Pmm} {held : List ℕ}
    (h : PmmReachable (pmmInit stale memSizeBytes kernelEnd) s held) :
    PmmSpec (memSizeBytes.toNat / 4096) (reservedFrames memSizeBytes kernelEnd)
      (kernelEnd.toNat + bitmapBytes memSizeBytes) s held := by
  have hmem := memSizeBytes.toNat_lt
  have hsize := pmmInit_sizes memSizeBytes hframes
  -- the highest multiple of 32 frames leaves room for the rounding up, so nothing wraps
  have hreserved : reservedFrames memSizeBytes kernelEnd =
      (kernelEnd.toNat + bitmapBytes memSizeBytes + 4095) / 4096 := by
    unfold reservedFrames pmmFrameSize
    have h1 : (kernelEnd.toNat + bitmapBytes memSizeBytes) % 2 ^ 32 =
        kernelEnd.toNat + bitmapBytes memSizeBytes := Nat.mod_eq_of_lt (by omega)
    simp only [h1]
    rw [Nat.mod_eq_of_lt (by omega)]
    rfl
  have hpos : memSizeBytes.toNat / 4096 = 0 ∨ 0 < reservedFrames memSizeBytes kernelEnd := by
    rw [hreserved]
    omega
  have hinv := h.invariant hpos (pmmInit_invariant stale memSizeBytes kernelEnd hframes)
  apply hinv.spec hpos
  · rw [hreserved]
    omega
  · have hcap := hinv.capacity
    unfold Pmm.capacity at hcap
    have hbytes : s.pmmBitmapSize = bitmapBytes memSizeBytes := by
      clear hinv hcap
      induction h with
      | init => rfl
      | alloc _ ih => simpa using ih
      | free _ _ ih => exact ih
    rw [hbytes]
    exact hsize.1

/-- The allocator `kmain` sets up for 16 MiB, for a kernel that ends at 128 KiB. -/
def bootPmm : Pmm := pmmInit (fun _ => 0#32) 16777216 131072

/-- The state after the first allocation at boot: the bitmap takes one more frame, so
frame 33 is handed out. -/
theorem pmm_run_spec_boot :
    PmmReachable bootPmm (pmmAllocFrame bootPmm).2 [135168] ∧
      PmmSpec 4096 33 131584 (pmmAllocFrame bootPmm).2 [135168] := by
  have haddr : (pmmAllocFrame bootPmm).1 = 135168 := by decide +kernel
  have hrun : PmmReachable bootPmm (pmmAllocFrame bootPmm).2 [135168] := by
    simpa [haddr] using PmmReachable.alloc (@PmmReachable.init bootPmm)
  exact ⟨hrun, pmm_run_spec (fun _ => 0#32) 16777216 131072 (by decide) (by decide) hrun⟩

end MyOS
