import Mathlib.Data.Finset.Card
import Mathlib.Order.Interval.Finset.Nat
import MyOS.Lib.Orbit
import MyOS.Verification.Fs.Fat

/-! The cluster loop of `fs_read_file` on a volume of any geometry and with any FAT: what each
round copies, and where the loop ends. -/

namespace MyOS

open Effect X86Paging Orbit

/-! ## The volume -/

/-- The numbers of the BPB that reading a file depends on. -/
structure Geometry where
  bytesPerSector : ℕ
  sectorsPerCluster : UInt8
  sectorsPerFat : ℕ

def Geometry.fatBytes (g : Geometry) : ℕ := g.sectorsPerFat * g.bytesPerSector

/-- `bytes_per_cluster` -/
def Geometry.clusterBytes (g : Geometry) : ℕ := g.sectorsPerCluster.toNat * g.bytesPerSector

/-- The driver has a volume of this geometry, and its FAT in memory. -/
structure FatVolume (s : Machine) (fat : ℕ → UInt8) (g : Geometry) : Prop
    extends CachedFat s fat g.sectorsPerFat g.bytesPerSector where
  cluster_size : load8 (s.bpb + 13) s = .ok g.sectorsPerCluster s

/-- The addresses at which the driver reads the volume. -/
def FatCell (s : Machine) (fatBytes va : ℕ) : Prop :=
  (∃ k < 36, va = s.bpb + k) ∨ ∃ o < fatBytes, va = s.fatBuffer + o

/-- Memory of the caller's own: every byte is mapped, no two share a byte of memory, and none
lies in the page tables or at one of the given addresses. -/
structure OwnMemory (s : Machine) (cell : ℕ → Prop) (buf size : ℕ) : Prop where
  mapped : ∀ i < size, ∃ pa, s.translate (buf + i) = some pa
  apart : ∀ i < size, ∀ j < size, s.translate (buf + i) = s.translate (buf + j) → i = j
  tables : ∀ i < size, ∀ pa, s.translate (buf + i) = some pa → ¬InTables s.mem s.cr3 pa
  cells : ∀ i < size, ∀ va, cell va → s.translate va ≠ s.translate (buf + i)

/-- What follows a cluster, with the end of the FAT as the end of every chain. -/
abbrev Geometry.next (g : Geometry) (fat : ℕ → UInt8) : ℕ → ℕ := fatNext fat g.fatBytes

/-- The loop goes on: `0xFF8` and what is above it are end marks. -/
def IsCluster (c : ℕ) : Prop := c < 0xFF8

/-- The sector read for a cluster, by its 28-bit address. -/
def clusterLba (s : Machine) (c : ℕ) : ℕ :=
  (s.dataAreaStartSector + c + (2 ^ 32 - 2)) % 2 ^ 32 % 2 ^ 28

/-- What the bounce buffer holds at `o` when the sector of the cluster has been read. It has 512
bytes; behind it are other variables of the kernel. -/
def bounceByte (s : Machine) (c o : ℕ) : UInt8 :=
  if o < 512 then s.disk (clusterLba s c) o else s.dmaBuffer o

/-- The bytes copied, one cluster after the other. -/
def chainByte (s : Machine) (next : ℕ → ℕ) (first clusterBytes i : ℕ) : UInt8 :=
  bounceByte s (next^[i / clusterBytes] first) (i % clusterBytes)

/-- `to_copy` in round `k`. -/
def toCopy (size clusterBytes k : ℕ) : ℕ :=
  let remaining := size - min size (k * clusterBytes)
  if remaining > clusterBytes then clusterBytes else remaining

/-! ## Filling the buffer -/

/-- The first `n` bytes of the buffer are in place, and no other byte has changed. -/
structure Filled (s : Machine) (buf : ℕ) (content : ℕ → UInt8) (n : ℕ) (t : Machine) : Prop where
  same : t = { s with mem := t.mem, dmaBuffer := t.dmaBuffer }
  outside : ∀ pa, (∀ i < n, s.translate (buf + i) ≠ some pa) → t.mem pa = s.mem pa
  inside : ∀ i < n, ∀ pa, s.translate (buf + i) = some pa → t.mem pa = content i
  bounce : ∀ o, 512 ≤ o → t.dmaBuffer o = s.dmaBuffer o

variable {s t : Machine} {fat : ℕ → UInt8} {g : Geometry} {cell : ℕ → Prop}
  {buf size area n first : ℕ} {content : ℕ → UInt8}

theorem filled_zero (s : Machine) (buf : ℕ) (content : ℕ → UInt8) : Filled s buf content 0 s :=
  ⟨rfl, fun _ _ => rfl, fun _ hi => absurd hi (Nat.not_lt_zero _), fun _ _ => rfl⟩

/-- Filling the buffer leaves the page tables. -/
theorem Filled.translate (hown : OwnMemory s cell buf size) (h : Filled s buf content n t)
    (hn : n ≤ size) (va : ℕ) : t.translate va = s.translate va := by
  have hpaging : t.paging = s.paging := by rw [h.same]
  have hcr3 : t.cr3 = s.cr3 := by rw [h.same]
  rw [Machine.translate, Machine.translate, hpaging, hcr3,
    translate_of_tables (Nat.mod_lt _ (by omega))]
  intro pa hpa
  refine h.outside pa ?_
  intro i hi htr
  exact hown.tables i (by omega) pa htr hpa

/-- And the addresses apart from it. -/
theorem Filled.load8 (hown : OwnMemory s cell buf size) (h : Filled s buf content n t)
    (hn : n ≤ size) {va : ℕ} (hva : cell va) {b : UInt8} (hload : load8 va s = .ok b s) :
    load8 va t = .ok b t := by
  obtain ⟨pa, hpa, hb, -⟩ := load8_ok hload
  have hkept : t.mem pa = s.mem pa := by
    refine h.outside pa ?_
    intro i hi htr
    exact hown.cells i (by omega) va hva (hpa.trans htr.symm)
  rw [load8_eq ((h.translate hown hn va).trans hpa), hkept, hb]

theorem load16_transfer {va v : ℕ} (h : ∀ k < 2, ∀ b, load8 (va + k) s = .ok b s →
    load8 (va + k) t = .ok b t) (hload : load16 va s = .ok v s) : load16 va t = .ok v t := by
  obtain ⟨b0, u, h0, hload⟩ := bind_eq_ok.mp hload
  obtain ⟨-, -, -, rfl⟩ := load8_ok h0
  obtain ⟨b1, u, h1, hload⟩ := bind_eq_ok.mp hload
  obtain ⟨-, -, -, rfl⟩ := load8_ok h1
  injection hload with hv _
  have h0' := h 0 (by omega) b0 h0
  rw [Nat.add_zero] at h0'
  rw [load16, bind_of_ok h0', bind_of_ok (h 1 (by omega) b1 h1), ← hv]
  rfl

theorem load32_transfer {va v : ℕ} (h : ∀ k < 4, ∀ b, load8 (va + k) s = .ok b s →
    load8 (va + k) t = .ok b t) (hload : load32 va s = .ok v s) : load32 va t = .ok v t := by
  obtain ⟨b0, u, h0, hload⟩ := bind_eq_ok.mp hload
  obtain ⟨-, -, -, rfl⟩ := load8_ok h0
  obtain ⟨b1, u, h1, hload⟩ := bind_eq_ok.mp hload
  obtain ⟨-, -, -, rfl⟩ := load8_ok h1
  obtain ⟨b2, u, h2, hload⟩ := bind_eq_ok.mp hload
  obtain ⟨-, -, -, rfl⟩ := load8_ok h2
  obtain ⟨b3, u, h3, hload⟩ := bind_eq_ok.mp hload
  obtain ⟨-, -, -, rfl⟩ := load8_ok h3
  injection hload with hv _
  have h0' := h 0 (by omega) b0 h0
  rw [Nat.add_zero] at h0'
  rw [load32, bind_of_ok h0', bind_of_ok (h 1 (by omega) b1 h1), bind_of_ok (h 2 (by omega) b2 h2),
    bind_of_ok (h 3 (by omega) b3 h3), ← hv]
  rfl

/-- A volume is one for every machine that reads the same at the cells. -/
theorem FatVolume.transfer (hv : FatVolume s fat g) (hbpb : t.bpb = s.bpb)
    (hfat : t.fatBuffer = s.fatBuffer)
    (h : ∀ va, FatCell s g.fatBytes va → ∀ b, MyOS.load8 va s = .ok b s →
      MyOS.load8 va t = .ok b t) : FatVolume t fat g := by
  refine ⟨⟨?_, ?_, ?_⟩, ?_⟩
  · rw [hbpb]
    refine load16_transfer (fun k hk b hb => h _ (.inl ⟨22 + k, by omega, ?_⟩) b hb) hv.fat_size
    omega
  · rw [hbpb]
    refine load16_transfer (fun k hk b hb => h _ (.inl ⟨11 + k, by omega, ?_⟩) b hb) hv.sector_size
    omega
  · intro o ho
    rw [hfat]
    exact h _ (.inr ⟨o, ho, rfl⟩) _ (hv.fat_bytes o ho)
  · rw [hbpb]
    exact h _ (.inl ⟨13, by omega, rfl⟩) _ hv.cluster_size

theorem Filled.volume (hown : OwnMemory s (FatCell s g.fatBytes) buf size)
    (h : Filled s buf content n t) (hn : n ≤ size) (hv : FatVolume s fat g) :
    FatVolume t fat g := by
  refine hv.transfer (by rw [h.same]) (by rw [h.same]) ?_
  intro va hva b hb
  exact h.load8 hown hn hva hb

/-- One byte more. -/
theorem Filled.store8 (hown : OwnMemory s cell buf size) (h : Filled s buf content n t)
    (hlt : n < size) :
    ∃ t', store8 (buf + n) (content n) t = .ok () t' ∧ Filled s buf content (n + 1) t' := by
  obtain ⟨pa, hpa⟩ := hown.mapped n hlt
  refine ⟨_, store8_eq _ ((h.translate hown (by omega) _).trans hpa), ?_, ?_, ?_, ?_⟩
  · rw [h.same]
  · intro x hx
    have hne : x ≠ pa := by
      rintro rfl
      exact hx n (by omega) hpa
    refine (ByteMemory.set8_of_ne _ _ hne).trans (h.outside x ?_)
    intro i hi
    exact hx i (by omega)
  · intro i hi x hx
    by_cases hlast : i = n
    · rw [hlast, hpa] at hx
      rw [hlast, ← Option.some.inj hx]
      exact ByteMemory.set8_same _ _ _
    · have hne : x ≠ pa := by
        rintro rfl
        exact hlast (hown.apart i (by omega) n hlt (hx.trans hpa.symm))
      exact (ByteMemory.set8_of_ne _ _ hne).trans (h.inside i (by omega) x hx)
  · exact h.bounce

/-- A copy from the bounce buffer. -/
theorem Filled.memcpyFrom (hown : OwnMemory s cell buf size) (h : Filled s buf content n t)
    {m : ℕ} (hm : n + m ≤ size) (src : ℕ → UInt8) (hsrc : ∀ i < m, src i = content (n + i)) :
    ∃ t', memcpyFrom (buf + n) src m t = .ok () t' ∧ Filled s buf content (n + m) t' := by
  refine forRange_total (fun k u => Filled s buf content (n + k) u) ?_ h
  intro k u hk hu
  obtain ⟨u', hstore, hu'⟩ := hu.store8 hown (by omega)
  refine ⟨u', ?_, hu'⟩
  rw [hsrc k hk, Nat.add_assoc]
  exact hstore

/-! ## The rounds -/

theorem toCopy_eq (size clusterBytes k : ℕ) :
    toCopy size clusterBytes k = min clusterBytes (size - k * clusterBytes) := by
  unfold toCopy
  simp only
  split <;> omega

theorem toCopy_done (size clusterBytes k : ℕ) : min size ((k + 1) * clusterBytes) =
    min size (k * clusterBytes) + toCopy size clusterBytes k := by
  rw [toCopy_eq, Nat.succ_mul]
  omega

/-- One round: the sector is read, as much of the bounce buffer as is missing is copied, and
the FAT gives the next cluster. -/
theorem Filled.round (hown : OwnMemory s (FatCell s g.fatBytes) buf area)
    (hv : FatVolume s fat g) {k c : ℕ}
    (h : Filled s buf content (min size (k * g.clusterBytes)) t) (hc : IsCluster c)
    (harea : min size ((k + 1) * g.clusterBytes) ≤ area)
    (hcontent : ∀ o < g.clusterBytes, content (k * g.clusterBytes + o) = bounceByte s c o)
    (fuel : ℕ) :
    ∃ t', Filled s buf content (min size ((k + 1) * g.clusterBytes)) t' ∧
      readClusters buf size g.clusterBytes (fuel + 1) (min size (k * g.clusterBytes)) c t =
        readClusters buf size g.clusterBytes fuel (min size ((k + 1) * g.clusterBytes))
          (g.next fat c) t' := by
  obtain ⟨done, hdone⟩ : ∃ done, done = min size (k * g.clusterBytes) := ⟨_, rfl⟩
  obtain ⟨m, hm⟩ : ∃ m, m = toCopy size g.clusterBytes k := ⟨_, rfl⟩
  have hnext : min size ((k + 1) * g.clusterBytes) = done + m := by
    rw [hdone, hm, toCopy_done]
  rw [hnext] at harea
  have hbounds : m ≤ g.clusterBytes ∧ (0 < m → done = k * g.clusterBytes) := by
    rw [hm, toCopy_eq]
    omega
  rw [toCopy, ← hdone] at hm
  rw [hnext, ← hdone]
  rw [← hdone] at h
  -- the bounce buffer after the sector is read
  obtain ⟨dma, hdma⟩ : ∃ dma : ℕ → UInt8, dma = fun i =>
    if i < 512 then t.disk ((t.dataAreaStartSector + c + (2 ^ 32 - 2)) % 2 ^ 32 % 2 ^ 28) i
    else t.dmaBuffer i := ⟨_, rfl⟩
  have hread : readDiskSector ((t.dataAreaStartSector + c + (2 ^ 32 - 2)) % 2 ^ 32) t =
      .ok () { t with dmaBuffer := dma } := by
    rw [hdma]
    rfl
  have hstart : t.dataAreaStartSector = s.dataAreaStartSector := by rw [h.same]
  have hdisk : t.disk = s.disk := by rw [h.same]
  have hbyte : ∀ o, dma o = bounceByte s c o := by
    intro o
    rw [hdma, bounceByte, clusterLba, hstart, hdisk]
    by_cases ho : o < 512
    · rw [if_pos ho]
      exact if_pos ho
    · rw [if_neg ho, ← h.bounce o (by omega)]
      exact if_neg ho
  have hread' : Filled s buf content done { t with dmaBuffer := dma } := by
    refine ⟨by rw [h.same], h.outside, h.inside, ?_⟩
    intro o ho
    exact (hbyte o).trans (if_neg (by omega))
  obtain ⟨t', hcopy, ht'⟩ := hread'.memcpyFrom hown harea dma (by
    intro i hi
    rw [hbyte, hbounds.2 (by omega), hcontent i (by omega)])
  have hentry := (ht'.volume hown harea hv).fsGetFatEntry c
  have hlt : c < 0xFF8 := hc
  refine ⟨t', ht', ?_⟩
  subst hm
  rw [readClusters, if_pos hlt, bind_of_ok (get_apply t), bind_of_ok hread,
    bind_of_ok (get_apply _), bind_of_ok hcopy, bind_of_ok hentry]
  rfl

/-- `k` rounds, as long as there are clusters. -/
theorem readClusters_rounds (hown : OwnMemory s (FatCell s g.fatBytes) buf area)
    (hv : FatVolume s fat g) (k fuel : ℕ) (harea : min size (k * g.clusterBytes) ≤ area)
    (hlive : ∀ j < k, IsCluster ((g.next fat)^[j] first)) :
    ∃ t, Filled s buf (chainByte s (g.next fat) first g.clusterBytes)
        (min size (k * g.clusterBytes)) t ∧
      readClusters buf size g.clusterBytes (fuel + k) 0 first s =
        readClusters buf size g.clusterBytes fuel (min size (k * g.clusterBytes))
          ((g.next fat)^[k] first) t := by
  induction k generalizing fuel with
  | zero =>
      refine ⟨s, ?_, ?_⟩
      · simpa using filled_zero s buf _
      · simp
  | succ k ih =>
      have hdone := toCopy_done size g.clusterBytes k
      obtain ⟨t, ht, hrun⟩ := ih (fuel + 1) (by omega) fun j hj => hlive j (by omega)
      obtain ⟨t', ht', hround⟩ := ht.round hown hv (hlive k (by omega)) harea (by
        intro o ho
        rw [chainByte, Nat.add_comm, Nat.add_mul_div_right _ _ (by omega),
          Nat.add_mul_mod_self_right, Nat.div_eq_of_lt ho, Nat.mod_eq_of_lt ho, Nat.zero_add]) fuel
      refine ⟨t', ht', ?_⟩
      rw [show fuel + (k + 1) = fuel + 1 + k by omega, hrun, hround,
        Function.iterate_succ_apply']

/-- The loop ends where the chain does. -/
theorem readClusters_path (hown : OwnMemory s (FatCell s g.fatBytes) buf area)
    (hv : FatVolume s fat g) {clusters : List ℕ}
    (hchain : Path (g.next fat) IsCluster first clusters)
    (harea : min size (clusters.length * g.clusterBytes) ≤ area) {fuel : ℕ}
    (hfuel : clusters.length < fuel) :
    ∃ t, Filled s buf (chainByte s (g.next fat) first g.clusterBytes)
        (min size (clusters.length * g.clusterBytes)) t ∧
      readClusters buf size g.clusterBytes fuel 0 first s = .ok () t := by
  obtain ⟨more, rfl⟩ : ∃ more, fuel = more + 1 + clusters.length :=
    ⟨fuel - 1 - clusters.length, by omega⟩
  obtain ⟨t, ht, hrun⟩ := readClusters_rounds hown hv clusters.length (more + 1) harea
    (fun j hj => hchain.mem_live _ (List.mem_of_getElem? (hchain.getElem? hj)))
  have hend : ¬(g.next fat)^[clusters.length] first < 0xFF8 := hchain.iterate_length
  refine ⟨t, ht, ?_⟩
  rw [hrun, readClusters, if_neg hend]
  rfl

/-- It does not end in a chain that does not. -/
theorem readClusters_endless (hown : OwnMemory s (FatCell s g.fatBytes) buf size)
    (hv : FatVolume s fat g) (hlive : ∀ j, IsCluster ((g.next fat)^[j] first)) (fuel : ℕ) :
    ∃ t, readClusters buf size g.clusterBytes fuel 0 first s = .error .spin t := by
  obtain ⟨t, -, hrun⟩ := readClusters_rounds hown hv fuel 0 (Nat.min_le_left _ _) fun j _ => hlive j
  rw [Nat.zero_add] at hrun
  exact ⟨t, hrun⟩

/-- A chain is no longer than there are clusters. -/
theorem length_chain_le {next : ℕ → ℕ} {clusters : List ℕ}
    (hchain : Path next IsCluster first clusters) : clusters.length ≤ 0xFF8 := by
  have hsub : clusters.toFinset ⊆ Finset.range 0xFF8 := by
    intro c hc
    exact Finset.mem_range.mpr (hchain.mem_live c (List.mem_toFinset.mp hc))
  have hcard := Finset.card_le_card hsub
  rwa [List.toFinset_card_of_nodup hchain.nodup, Finset.card_range] at hcard

theorem finite_isCluster : {c | IsCluster c}.Finite := Set.finite_lt_nat 0xFF8

end MyOS
