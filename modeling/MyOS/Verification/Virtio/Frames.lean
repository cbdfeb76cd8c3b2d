import MyOS.Model.Virtq

/-! The three parts of a queue as arrays. Each part has a frame of its own, so a store to one part
does not show in the others as long as it stays in the frame. -/

namespace MyOS

open Effect ByteMemory

/-- A queue as the arrays that its parts stand for. -/
@[ext]
structure Rings where
  size : ℕ
  lastUsedIdx : UInt16
  nextAvailIdx : ℕ
  desc : ℕ → VirtqDesc
  availIdx : UInt16
  availRing : ℕ → ℕ
  usedIdx : UInt16

/-- The arrays in memory. A frame has room for 256 descriptors. -/
def Virtq.rings (v : Virtq) (m : ByteMemory) : Rings where
  size := v.size
  lastUsedIdx := v.lastUsedIdx
  nextAvailIdx := v.nextAvailIdx
  desc := fun i => if i < 256 then v.desc m i else ⟨0, 0, 0, 0⟩
  availIdx := v.availIdx m
  availRing := fun i => if i < 256 then v.availEntry m i else 0
  usedIdx := v.usedIdx m

/-- The byte lies in the page at `a`. -/
def InPage (a x : ℕ) : Prop := a ≤ x ∧ x < a + 4096

/-- Two pages that share no byte. -/
def PagesApart (a b : ℕ) : Prop := a + 4096 ≤ b ∨ b + 4096 ≤ a

def Virtq.parts (v : Virtq) : List ℕ := [v.descTable, v.availRing, v.usedRing]

/-- The parts of the queue lie in three frames that the driver can reach. -/
structure Virtq.Framed (v : Virtq) : Prop where
  desc_avail : PagesApart v.descTable v.availRing
  desc_used : PagesApart v.descTable v.usedRing
  avail_used : PagesApart v.availRing v.usedRing
  low : ∀ a ∈ v.parts, a + 4096 ≤ 2 ^ 22

/-- The fields of the descriptor have the widths of `struct virtq_desc`. -/
structure VirtqDesc.Encodable (d : VirtqDesc) : Prop where
  addr : d.addr < 2 ^ 64
  len : d.len < 2 ^ 32
  flags : d.flags < 2 ^ 16
  next : d.next < 2 ^ 16

theorem PagesApart.not_inPage {a b x : ℕ} (h : PagesApart a b) (hx : InPage a x) :
    ¬InPage b x := by
  unfold PagesApart at h
  unfold InPage at *
  omega

theorem PagesApart.symm {a b : ℕ} (h : PagesApart a b) : PagesApart b a := Or.symm h

namespace Virtq

variable {v : Virtq} {m m' : ByteMemory} {i : ℕ} {d : VirtqDesc}

theorem descTable_mem (v : Virtq) : v.descTable ∈ v.parts := by simp [parts]

theorem availRing_mem (v : Virtq) : v.availRing ∈ v.parts := by simp [parts]

theorem usedRing_mem (v : Virtq) : v.usedRing ∈ v.parts := by simp [parts]

theorem Framed.congr {v' : Virtq} (h : v.Framed) (hparts : v'.parts = v.parts) : v'.Framed := by
  have hlow := h.low
  rw [← hparts] at hlow
  obtain ⟨hdesc, havail, hused, -⟩ : v'.descTable = v.descTable ∧ v'.availRing = v.availRing ∧
      v'.usedRing = v.usedRing ∧ True := by simpa [parts] using hparts
  refine ⟨?_, ?_, ?_, hlow⟩
  · rw [hdesc, havail]
    exact h.desc_avail
  · rw [hdesc, hused]
    exact h.desc_used
  · rw [havail, hused]
    exact h.avail_used

/-! ## What each array depends on -/

theorem desc_congr (h : ∀ k < 16, m' (v.descAddr i + k) = m (v.descAddr i + k)) :
    v.desc m' i = v.desc m i := by
  have hlow : m'.get32 (v.descAddr i) = m.get32 (v.descAddr i) :=
    get32_congr fun k hk => h k (by omega)
  have hhigh : m'.get32 (v.descAddr i + 4) = m.get32 (v.descAddr i + 4) :=
    get32_congr fun k hk => by simpa [Nat.add_assoc] using h (4 + k) (by omega)
  have hlen : m'.get32 (v.descAddr i + 8) = m.get32 (v.descAddr i + 8) :=
    get32_congr fun k hk => by simpa [Nat.add_assoc] using h (8 + k) (by omega)
  have hflags : m'.get16 (v.descAddr i + 12) = m.get16 (v.descAddr i + 12) :=
    get16_congr fun k hk => by simpa [Nat.add_assoc] using h (12 + k) (by omega)
  have hnext : m'.get16 (v.descAddr i + 14) = m.get16 (v.descAddr i + 14) :=
    get16_congr fun k hk => by simpa [Nat.add_assoc] using h (14 + k) (by omega)
  simp only [desc, hlow, hhigh, hlen, hflags, hnext]

theorem rings_desc_congr (h : ∀ x, InPage v.descTable x → m' x = m x) :
    (v.rings m').desc = (v.rings m).desc := by
  funext i
  by_cases hi : i < 256
  · have hsame : v.desc m' i = v.desc m i := desc_congr fun k hk => h _ (by
      unfold InPage descAddr
      omega)
    simp only [rings, hi, if_true, hsame]
  · simp only [rings, hi, if_false]

theorem rings_availIdx_congr
    (h : ∀ k < 2, m' (v.availRing + 2 + k) = m (v.availRing + 2 + k)) :
    (v.rings m').availIdx = (v.rings m).availIdx :=
  congrArg UInt16.ofNat (get16_congr h)

theorem rings_availRing_congr
    (h : ∀ k < 512, m' (v.availRing + 4 + k) = m (v.availRing + 4 + k)) :
    (v.rings m').availRing = (v.rings m).availRing := by
  funext i
  by_cases hi : i < 256
  · have hsame : v.availEntry m' i = v.availEntry m i := get16_congr fun k hk => by
      simpa [availEntryAddr, Nat.add_assoc] using h (2 * i + k) (by omega)
    simp only [rings, hi, if_true, hsame]
  · simp only [rings, hi, if_false]

theorem rings_usedIdx_congr (h : ∀ k < 2, m' (v.usedRing + 2 + k) = m (v.usedRing + 2 + k)) :
    (v.rings m').usedIdx = (v.rings m).usedIdx :=
  congrArg UInt16.ofNat (get16_congr h)

/-- The arrays are in the three frames. -/
theorem rings_congr (h : ∀ a ∈ v.parts, ∀ x, InPage a x → m' x = m x) :
    v.rings m' = v.rings m := by
  have havail := h _ v.availRing_mem
  have hused := h _ v.usedRing_mem
  ext1
  · rfl
  · rfl
  · rfl
  · exact rings_desc_congr (h _ v.descTable_mem)
  · exact rings_availIdx_congr fun k hk => havail _ (by unfold InPage; omega)
  · exact rings_availRing_congr fun k hk => havail _ (by unfold InPage; omega)
  · exact rings_usedIdx_congr fun k hk => hused _ (by unfold InPage; omega)

/-! ## Stores -/

theorem setDesc_outside {x : ℕ} (h : x < v.descAddr i ∨ v.descAddr i + 16 ≤ x) :
    v.setDesc m i d x = m x := by
  unfold setDesc
  rw [set16_of_outside _ _ (by omega), set16_of_outside _ _ (by omega),
    set32_of_outside _ _ (by omega), set32_of_outside _ _ (by omega),
    set32_of_outside _ _ (by omega)]

theorem setDesc_inPage (hi : i < 256) {x : ℕ} (hx : ¬InPage v.descTable x) :
    v.setDesc m i d x = m x := by
  unfold InPage at hx
  exact setDesc_outside (by unfold descAddr; omega)

/-- A descriptor is read back as it was written. -/
theorem desc_setDesc_same (hd : d.Encodable) : v.desc (v.setDesc m i d) i = d := by
  obtain ⟨haddr, hlen, hflags, hnext⟩ := hd
  obtain ⟨a, ha⟩ : ∃ a, a = v.descAddr i := ⟨_, rfl⟩
  unfold desc setDesc
  rw [← ha]
  simp (disch := omega) only [get32_set16_of_disjoint, get16_set16_of_disjoint,
    get32_set32_of_disjoint, get32_set32_same, get16_set16_same]
  have hsplit : d.addr % 2 ^ 32 + 2 ^ 32 * (d.addr / 2 ^ 32 % 2 ^ 32) = d.addr := by omega
  rw [hsplit, Nat.mod_eq_of_lt hlen, Nat.mod_eq_of_lt hflags, Nat.mod_eq_of_lt hnext]

theorem rings_setDesc (hv : v.Framed) (hi : i < 256) (hd : d.Encodable) :
    v.rings (v.setDesc m i d) =
      { v.rings m with desc := Function.update (v.rings m).desc i d } := by
  have hout : ∀ a, PagesApart v.descTable a → ∀ x, InPage a x → v.setDesc m i d x = m x :=
    fun a ha x hx => setDesc_inPage hi (ha.symm.not_inPage hx)
  ext1
  · rfl
  · rfl
  · rfl
  · funext j
    change _ = Function.update (v.rings m).desc i d j
    by_cases hj : j = i
    · rw [hj, Function.update_self]
      simp only [rings, hi, if_true, desc_setDesc_same hd]
    · rw [Function.update_of_ne hj]
      by_cases hlt : j < 256
      · have hsame : v.desc (v.setDesc m i d) j = v.desc m j := desc_congr fun k hk =>
          setDesc_outside (by unfold descAddr; omega)
        simp only [rings, hlt, if_true, hsame]
      · simp only [rings, hlt, if_false]
  · exact rings_availIdx_congr fun k hk => hout _ hv.desc_avail _ (by unfold InPage; omega)
  · exact rings_availRing_congr fun k hk => hout _ hv.desc_avail _ (by unfold InPage; omega)
  · exact rings_usedIdx_congr fun k hk => hout _ hv.desc_used _ (by unfold InPage; omega)

theorem setAvail_inPage (hi : i < 256) {head x : ℕ} (hx : ¬InPage v.availRing x) :
    m.set16 (v.availEntryAddr i) head x = m x := by
  unfold InPage at hx
  exact set16_of_outside _ _ (by unfold availEntryAddr; omega)

theorem rings_setAvail (hv : v.Framed) (hi : i < 256) {head : ℕ} (hhead : head < 256) :
    v.rings (m.set16 (v.availEntryAddr i) head) =
      { v.rings m with availRing := Function.update (v.rings m).availRing i head } := by
  have hout : ∀ a, PagesApart v.availRing a → ∀ x, InPage a x →
      m.set16 (v.availEntryAddr i) head x = m x :=
    fun a ha x hx => setAvail_inPage hi (ha.symm.not_inPage hx)
  ext1
  · rfl
  · rfl
  · rfl
  · exact rings_desc_congr (hout _ hv.desc_avail.symm)
  · exact rings_availIdx_congr fun k hk =>
      set16_of_outside _ _ (by unfold availEntryAddr; omega)
  · funext j
    change _ = Function.update (v.rings m).availRing i head j
    by_cases hj : j = i
    · rw [hj, Function.update_self]
      have hsame : v.availEntry (m.set16 (v.availEntryAddr i) head) i = head := by
        rw [availEntry, get16_set16_same]
        omega
      simp only [rings, hi, if_true, hsame]
    · rw [Function.update_of_ne hj]
      by_cases hlt : j < 256
      · have hsame : v.availEntry (m.set16 (v.availEntryAddr i) head) j = v.availEntry m j :=
          get16_set16_of_disjoint _ _ (by unfold availEntryAddr; omega)
        simp only [rings, hlt, if_true, hsame]
      · simp only [rings, hlt, if_false]
  · exact rings_usedIdx_congr fun k hk => hout _ hv.avail_used _ (by unfold InPage; omega)

/-- The indices are 16-bit counters. -/
theorem ofNat_succ_toNat (c : UInt16) : UInt16.ofNat ((c.toNat + 1) % 2 ^ 16) = c + 1 := by
  rw [← UInt16.toNat_inj, UInt16.toNat_ofNat', UInt16.toNat_add]
  simp

theorem setAvailIdx_inPage {n x : ℕ} (hx : ¬InPage v.availRing x) :
    m.set16 (v.availRing + 2) n x = m x := by
  unfold InPage at hx
  exact set16_of_outside _ _ (by omega)

theorem rings_publish (hv : v.Framed) :
    v.rings (m.set16 (v.availRing + 2) ((v.availIdx m).toNat + 1)) =
      { v.rings m with availIdx := (v.rings m).availIdx + 1 } := by
  have hout : ∀ a, PagesApart v.availRing a → ∀ x, InPage a x →
      m.set16 (v.availRing + 2) ((v.availIdx m).toNat + 1) x = m x :=
    fun a ha x hx => setAvailIdx_inPage (ha.symm.not_inPage hx)
  ext1
  · rfl
  · rfl
  · rfl
  · exact rings_desc_congr (hout _ hv.desc_avail.symm)
  · change UInt16.ofNat (get16 _ _) = _
    rw [get16_set16_same, ofNat_succ_toNat]
    rfl
  · exact rings_availRing_congr fun k hk => set16_of_outside _ _ (by omega)
  · exact rings_usedIdx_congr fun k hk => hout _ hv.avail_used _ (by unfold InPage; omega)

/-- With at most 256 descriptors the used ring stays in its frame. -/
theorem pushUsed_inPage (hsize : v.size ≤ 256) (hpos : 0 < v.size) {head len x : ℕ}
    (hx : ¬InPage v.usedRing x) : v.pushUsed m head len x = m x := by
  have hslot := Nat.mod_lt (v.usedIdx m).toNat hpos
  unfold InPage at hx
  unfold pushUsed usedElemAddr
  rw [set16_of_outside _ _ (by omega), set32_of_outside _ _ (by omega),
    set32_of_outside _ _ (by omega)]

theorem rings_pushUsed (hv : v.Framed) (hsize : v.size ≤ 256) (hpos : 0 < v.size)
    (head len : ℕ) :
    v.rings (v.pushUsed m head len) =
      { v.rings m with usedIdx := (v.rings m).usedIdx + 1 } := by
  have hout : ∀ a, PagesApart v.usedRing a → ∀ x, InPage a x → v.pushUsed m head len x = m x :=
    fun a ha x hx => pushUsed_inPage hsize hpos (ha.symm.not_inPage hx)
  ext1
  · rfl
  · rfl
  · rfl
  · exact rings_desc_congr (hout _ hv.desc_used.symm)
  · exact rings_availIdx_congr fun k hk =>
      hout _ hv.avail_used.symm _ (by unfold InPage; omega)
  · exact rings_availRing_congr fun k hk =>
      hout _ hv.avail_used.symm _ (by unfold InPage; omega)
  · change UInt16.ofNat (get16 _ _) = _
    rw [pushUsed, get16_set16_same, ofNat_succ_toNat]
    rfl

end Virtq

end MyOS
