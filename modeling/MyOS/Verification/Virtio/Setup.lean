import MyOS.Model.Virtio
import Mathlib.Logic.Function.Iterate

/-! `virtio_sound_init` as a whole: the state in which it leaves driver and device, and when the
two agree in it. -/

namespace MyOS

open Effect ByteMemory

def framesTaken (p : Pmm) (k : ℕ) : Pmm := (fun p => (pmmAllocFrame p).2)^[k] p

/-- The `k`-th frame that the allocator hands out from now on. -/
def frameGiven (p : Pmm) (k : ℕ) : ℕ := (pmmAllocFrame (framesTaken p k)).1

/-- A new queue in the three frames that the allocator hands out from the `k`-th one on. -/
def newQueue (p : Pmm) (k size : ℕ) : Virtq where
  descTable := frameGiven p k
  availRing := frameGiven p (k + 1)
  usedRing := frameGiven p (k + 2)
  size := size
  lastUsedIdx := 0
  nextAvailIdx := 0

/-- What a run of `virtio_sound_init` has done when the device is live. -/
structure SetUp (s : Sound) (notifyBase multiplier : ℕ) (s' : Sound) : Prop where
  mem : s'.mem = s.mem
  dmaBuffer : s'.dmaBuffer = s.dmaBuffer
  control : s'.queues 0 = newQueue s.pmm 0 (s.virtioSoundCfg.queueSize 0)
  playback : s'.queues 2 = newQueue s.pmm 3 (s.virtioSoundCfg.queueSize 2)
  unused : ∀ q, q ≠ 0 → q ≠ 2 → s'.queues q = s.queues q
  sized : s.virtioSoundCfg.queueSize 0 ≠ 0
  enabled : ∀ q, s'.virtioSoundCfg.queueEnable q = true ↔ q = 0 ∨ q = 2
  counters : s'.deviceIdx = fun _ => 0
  idle : s'.taken = (fun _ => []) ∧ s'.inFlight = fun _ => []
  select : s'.virtioSoundCfg.queueSelect = 2
  offsets : s'.virtioSoundCfg.queueNotifyOff = s.virtioSoundCfg.queueNotifyOff
  base : s'.notifyBaseAddr = notifyBase
  multiplier : s'.notifyOffMultiplier = multiplier
  history : s'.notified = s.notified ∧ s'.overwritten = s.overwritten
  live : s'.virtioSoundCfg.deviceStatus &&& virtioStatusDriverOk ≠ 0

/-- What is still as the reset left it when the queues are set up. -/
structure Fresh (s : Sound) (notifyBase multiplier : ℕ) (t : Sound) : Prop where
  mem : t.mem = s.mem
  dmaBuffer : t.dmaBuffer = s.dmaBuffer
  pmm : t.pmm = s.pmm
  accepts : t.virtioSoundCfg.acceptsFeatures = s.virtioSoundCfg.acceptsFeatures
  sizes : t.virtioSoundCfg.queueSize = s.virtioSoundCfg.queueSize
  offsets : t.virtioSoundCfg.queueNotifyOff = s.virtioSoundCfg.queueNotifyOff
  queues : t.queues = s.queues
  disabled : t.virtioSoundCfg.queueEnable = fun _ => false
  counters : t.deviceIdx = fun _ => 0
  idle : t.taken = (fun _ => []) ∧ t.inFlight = fun _ => []
  base : t.notifyBaseAddr = notifyBase
  multiplier : t.notifyOffMultiplier = multiplier
  history : t.notified = s.notified ∧ t.overwritten = s.overwritten
  offline : t.virtioSoundCfg.deviceStatus &&& virtioStatusDriverOk = 0

variable {s s' : Sound} {notifyBase multiplier : ℕ}

theorem setUpQueue_ok (q size : ℕ) (t : Sound) :
    setUpQueue q size t = .ok ()
      { t with
        pmm := framesTaken t.pmm 3
        queues := Function.update t.queues q (newQueue t.pmm 0 size)
        virtioSoundCfg :=
          { t.virtioSoundCfg with
            queueDesc := Function.update t.virtioSoundCfg.queueDesc
              t.virtioSoundCfg.queueSelect (frameGiven t.pmm 0)
            queueAvail := Function.update t.virtioSoundCfg.queueAvail
              t.virtioSoundCfg.queueSelect (frameGiven t.pmm 1)
            queueUsed := Function.update t.virtioSoundCfg.queueUsed
              t.virtioSoundCfg.queueSelect (frameGiven t.pmm 2)
            queueEnable := Function.update t.virtioSoundCfg.queueEnable
              t.virtioSoundCfg.queueSelect true } } := rfl

theorem frameGiven_framesTaken (p : Pmm) (j k : ℕ) :
    frameGiven (framesTaken p j) k = frameGiven p (k + j) := by
  rw [frameGiven, frameGiven, framesTaken, framesTaken, framesTaken, Function.iterate_add_apply]

theorem setUpQueues_of_empty {t : Sound} (hzero : t.virtioSoundCfg.queueSize 0 = 0) :
    setUpQueues t =
      .ok () { t with virtioSoundCfg := { t.virtioSoundCfg with queueSelect := 0 } } := by
  change (if t.virtioSoundCfg.queueSize 0 = 0 then _ else _ : Driver Unit) _ = _
  rw [if_pos hzero]
  rfl

theorem setUpQueues_of_sized {t : Sound} (hzero : t.virtioSoundCfg.queueSize 0 ≠ 0) :
    setUpQueues t = (do
      setUpQueue 0 (t.virtioSoundCfg.queueSize 0)
      modifyCfg fun cfg => { cfg with queueSelect := 2 }
      let cfg := (← get).virtioSoundCfg
      setUpQueue 2 (cfg.queueSize cfg.queueSelect)
      orStatus virtioStatusDriverOk : Driver Unit)
      { t with virtioSoundCfg := { t.virtioSoundCfg with queueSelect := 0 } } := by
  change (if t.virtioSoundCfg.queueSize 0 = 0 then _ else _ : Driver Unit) _ = _
  rw [if_neg hzero]

theorem orStatus_sets {bit : ℕ} {t u : Sound} (hbit : bit ≠ 0)
    (hkept : t.virtioSoundCfg.acceptsFeatures = true ∨ (255 - 8) &&& bit = bit)
    (hu : orStatus bit t = .ok () u) : u.virtioSoundCfg.deviceStatus &&& bit ≠ 0 := by
  have hor : (t.virtioSoundCfg.deviceStatus ||| bit) &&& bit ≠ 0 := by
    rw [Nat.and_or_distrib_right, Nat.and_self]
    exact fun h => hbit (Nat.or_eq_zero_iff.mp h).2
  cases hu
  change (if t.virtioSoundCfg.acceptsFeatures = true then _ else _) &&& _ ≠ 0
  split
  case isTrue => exact hor
  case isFalse hrejects =>
    rw [Nat.and_assoc, hkept.resolve_left hrejects]
    exact hor

/-- Either the control queue has no descriptors and nothing is set up, or both queues are. -/
theorem setUpQueues_cases {t : Sound} (h : Fresh s notifyBase multiplier t)
    (hrun : setUpQueues t = .ok () s') :
    (s'.virtioSoundCfg.deviceStatus &&& virtioStatusDriverOk = 0 ∧
      s.virtioSoundCfg.queueSize 0 = 0) ∨ SetUp s notifyBase multiplier s' := by
  by_cases hzero : t.virtioSoundCfg.queueSize 0 = 0
  · rw [setUpQueues_of_empty hzero] at hrun
    cases hrun
    rw [h.sizes] at hzero
    exact .inl ⟨h.offline, hzero⟩
  · rw [setUpQueues_of_sized hzero, bind_of_ok (setUpQueue_ok _ _ _)] at hrun
    have hend := (EStateM.Result.ok.inj hrun).2
    subst hend
    right
    rw [h.sizes] at hzero
    refine ⟨h.mem, h.dmaBuffer, ?_, ?_, ?_, hzero, ?_, h.counters, h.idle, rfl, h.offsets, h.base,
      h.multiplier, h.history, orStatus_sets (by decide) (.inr (by decide)) rfl⟩
    · change newQueue t.pmm 0 (t.virtioSoundCfg.queueSize 0) = _
      rw [h.sizes, h.pmm]
    · change newQueue (framesTaken t.pmm 3) 0 (t.virtioSoundCfg.queueSize 2) = _
      unfold newQueue
      simp only [frameGiven_framesTaken, h.sizes, h.pmm]
    · intro q hzero htwo
      change Function.update (Function.update t.queues 0 _) 2 _ q = _
      rw [Function.update_of_ne htwo, Function.update_of_ne hzero, h.queues]
    · intro q
      change Function.update (Function.update t.virtioSoundCfg.queueEnable 0 true) 2 true q =
        true ↔ _
      rw [h.disabled, Function.update_apply, Function.update_apply]
      by_cases htwo : q = 2
      · simp [htwo]
      · by_cases hzero : q = 0
        · simp [hzero]
        · simp [htwo, hzero]

theorem Fresh.orStatus {bit : ℕ} {t u : Sound} (h : Fresh s notifyBase multiplier t)
    (hbit : bit &&& virtioStatusDriverOk = 0) (hu : orStatus bit t = .ok () u) :
    Fresh s notifyBase multiplier u := by
  have hor : (t.virtioSoundCfg.deviceStatus ||| bit) &&& virtioStatusDriverOk = 0 := by
    rw [Nat.and_or_distrib_right, h.offline, hbit, Nat.zero_or]
  have hmask : ((t.virtioSoundCfg.deviceStatus ||| bit) &&& (255 - 8)) &&&
      virtioStatusDriverOk = 0 := by
    rw [Nat.and_assoc, Nat.and_comm (255 - 8), ← Nat.and_assoc, hor, Nat.zero_and]
  cases hu
  refine ⟨h.mem, h.dmaBuffer, h.pmm, h.accepts, h.sizes, h.offsets, h.queues, h.disabled,
    h.counters, h.idle, h.base, h.multiplier, h.history, ?_⟩
  change (if t.virtioSoundCfg.acceptsFeatures = true then _ else _) &&& _ = 0
  split
  · exact hor
  · exact hmask

theorem Fresh.modifyCfg {f : CommonCfg → CommonCfg} {t u : Sound}
    (h : Fresh s notifyBase multiplier t) (hu : modifyCfg f t = .ok () u)
    (hf : ∀ cfg, (f cfg).acceptsFeatures = cfg.acceptsFeatures ∧
      (f cfg).queueSize = cfg.queueSize ∧ (f cfg).queueNotifyOff = cfg.queueNotifyOff ∧
      (f cfg).queueEnable = cfg.queueEnable ∧ (f cfg).deviceStatus = cfg.deviceStatus) :
    Fresh s notifyBase multiplier u := by
  obtain ⟨haccepts, hsizes, hoffsets, henable, hstatus⟩ := hf t.virtioSoundCfg
  cases hu
  have hoffline := (congrArg (· &&& virtioStatusDriverOk) hstatus).trans h.offline
  exact ⟨h.mem, h.dmaBuffer, h.pmm, haccepts.trans h.accepts, hsizes.trans h.sizes,
    hoffsets.trans h.offsets, h.queues, henable.trans h.disabled, h.counters, h.idle, h.base,
    h.multiplier, h.history, hoffline⟩

/-- A run either gives up before `DRIVER_OK` or sets up both queues. -/
theorem virtioSoundInit_cases (hrun : virtioSoundInit notifyBase multiplier s = .ok () s') :
    (s'.virtioSoundCfg.deviceStatus &&& virtioStatusDriverOk = 0 ∧
      (s.virtioSoundCfg.acceptsFeatures = false ∨ s.virtioSoundCfg.queueSize 0 = 0)) ∨
    SetUp s notifyBase multiplier s' := by
  unfold virtioSoundInit at hrun
  obtain ⟨_, s₁, h₁, hrun⟩ := bind_eq_ok.mp hrun
  obtain ⟨_, s₂, h₂, hrun⟩ := bind_eq_ok.mp hrun
  obtain ⟨_, s₃, h₃, hrun⟩ := bind_eq_ok.mp hrun
  obtain ⟨_, s₄, h₄, hrun⟩ := bind_eq_ok.mp hrun
  obtain ⟨_, s₅, h₅, hrun⟩ := bind_eq_ok.mp hrun
  have hreset : Fresh s notifyBase multiplier s₂ := by
    cases h₁
    cases h₂
    exact ⟨rfl, rfl, rfl, rfl, rfl, rfl, rfl, rfl, rfl, ⟨rfl, rfl⟩, rfl, rfl, ⟨rfl, rfl⟩,
      Nat.zero_and _⟩
  have hfresh : Fresh s notifyBase multiplier s₅ :=
    ((hreset.orStatus (by decide) h₃).orStatus (by decide) h₄).modifyCfg h₅
      fun _ => ⟨rfl, rfl, rfl, rfl, rfl⟩
  obtain ⟨_, _, hget, hrun⟩ := bind_eq_ok.mp hrun
  cases hget
  split at hrun
  · obtain ⟨_, s₆, h₆, hrun⟩ := bind_eq_ok.mp hrun
    obtain ⟨_, s₇, h₇, hrun⟩ := bind_eq_ok.mp hrun
    have hmodern : Fresh s notifyBase multiplier s₇ :=
      (hfresh.modifyCfg h₆ fun _ => ⟨rfl, rfl, rfl, rfl, rfl⟩).orStatus (by decide) h₇
    obtain ⟨_, _, hget, hrun⟩ := bind_eq_ok.mp hrun
    cases hget
    split at hrun
    case isTrue hclear =>
      have hrejects : s.virtioSoundCfg.acceptsFeatures = false := by
        by_contra haccepts
        have hnegotiated := (hfresh.modifyCfg h₆ fun _ => ⟨rfl, rfl, rfl, rfl, rfl⟩).accepts
        rw [Bool.not_eq_false] at haccepts
        exact orStatus_sets (by decide) (.inl (hnegotiated.trans haccepts)) h₇ hclear
      exact .inl ⟨(hmodern.orStatus (by decide) hrun).offline, .inl hrejects⟩
    case isFalse =>
      exact (setUpQueues_cases hmodern hrun).imp_left fun h => ⟨h.1, .inr h.2⟩
  · obtain ⟨_, s₆, h₆, hrun⟩ := bind_eq_ok.mp hrun
    have hlegacy := hfresh.modifyCfg h₆ fun _ => ⟨rfl, rfl, rfl, rfl, rfl⟩
    exact (setUpQueues_cases hlegacy hrun).imp_left fun h => ⟨h.1, .inr h.2⟩

theorem total_setUpQueue (q size : ℕ) : Total (setUpQueue q size) := fun t =>
  ⟨(), _, setUpQueue_ok q size t⟩

theorem total_setUpQueues : Total setUpQueues := by
  refine (total_modify _).bind fun _ => total_get.bind fun cfg => total_ite ?_ ?_
  · intro t
    exact ⟨(), t, rfl⟩
  · exact (total_setUpQueue _ _).bind fun _ => (total_modify _).bind fun _ => total_get.bind
      fun _ => (total_setUpQueue _ _).bind fun _ => total_modify _

theorem total_virtioSoundInit (notifyBase multiplier : ℕ) :
    Total (virtioSoundInit notifyBase multiplier) := by
  refine (total_modify _).bind fun _ => (total_modify _).bind fun _ => (total_modify _).bind
    fun _ => (total_modify _).bind fun _ => (total_modify _).bind fun _ => total_get.bind
    fun cfg => total_ite ?_ ?_
  · exact (total_modify _).bind fun _ => (total_modify _).bind fun _ => total_get.bind
      fun _ => total_ite (total_modify _) total_setUpQueues
  · exact (total_modify _).bind fun _ => total_setUpQueues

theorem virtioSoundInit_setUp (notifyBase multiplier : ℕ)
    (haccepts : s.virtioSoundCfg.acceptsFeatures = true)
    (hsize : s.virtioSoundCfg.queueSize 0 ≠ 0) :
    ∃ s', virtioSoundInit notifyBase multiplier s = .ok () s' ∧
      SetUp s notifyBase multiplier s' := by
  obtain ⟨_, s', hrun⟩ := total_virtioSoundInit notifyBase multiplier s
  obtain ⟨-, hrejects | hempty⟩ | h := virtioSoundInit_cases hrun
  · rw [haccepts] at hrejects
    exact absurd hrejects Bool.noConfusion
  · exact absurd hempty hsize
  · exact ⟨s', hrun, h⟩

/-- Driver and device count from 0 on a queue that has room for a chain. -/
structure StartsInAgreement (s : Sound) (q : ℕ) : Prop where
  enabled : s.virtioSoundCfg.queueEnable q = true
  sized : (s.queues q).size ≠ 0
  avail : (s.queues q).availIdx s.mem = 0
  used : (s.queues q).usedIdx s.mem = 0
  lastUsed : (s.queues q).lastUsedIdx = 0
  device : s.deviceIdx q = 0

/-- The frame holds a ring whose index is 0. -/
def zeroIdx (m : ByteMemory) (frame : ℕ) : Prop := m.get16 (frame + 2) = 0

theorem ofNat_get16_eq_zero (m : ByteMemory) (frame : ℕ) :
    UInt16.ofNat (m.get16 (frame + 2)) = 0 ↔ zeroIdx m frame := by
  have hlt := m.get16_lt (frame + 2)
  rw [← UInt16.toNat_inj, UInt16.toNat_ofNat', Nat.mod_eq_of_lt hlt]
  rfl

theorem startsInAgreement_newQueue {q k size : ℕ} {p : Pmm}
    (hqueue : s'.queues q = newQueue p k size)
    (henabled : s'.virtioSoundCfg.queueEnable q = true) (hdevice : s'.deviceIdx q = 0) :
    StartsInAgreement s' q ↔ size ≠ 0 ∧ zeroIdx s'.mem (frameGiven p (k + 1)) ∧
      zeroIdx s'.mem (frameGiven p (k + 2)) := by
  rw [← ofNat_get16_eq_zero, ← ofNat_get16_eq_zero]
  constructor
  · intro h
    refine ⟨?_, ?_, ?_⟩
    · simpa [hqueue, newQueue] using h.sized
    · simpa [hqueue, newQueue, Virtq.availIdx] using h.avail
    · simpa [hqueue, newQueue, Virtq.usedIdx] using h.used
  · rintro ⟨hsize, havail, hused⟩
    refine ⟨henabled, ?_, ?_, ?_, ?_, hdevice⟩
    · simpa [hqueue, newQueue] using hsize
    · simpa [hqueue, newQueue, Virtq.availIdx] using havail
    · simpa [hqueue, newQueue, Virtq.usedIdx] using hused
    · simp [hqueue, newQueue]

theorem distinct_descs {size headIdx : ℕ} (hsize : 2 ≤ size) (hlt : headIdx < size) :
    (headIdx + 1) % size ≠ headIdx := by
  rcases Nat.lt_or_ge (headIdx + 1) size with hin | hin
  · rw [Nat.mod_eq_of_lt hin]
    omega
  · rw [show headIdx + 1 = size by omega, Nat.mod_self]
    omega

theorem distinct_descs_iff {size : ℕ} (hsize : size ≠ 0) :
    (∀ headIdx < size, (headIdx + 1) % size ≠ headIdx) ↔ 2 ≤ size := by
  constructor
  · intro h
    by_contra hlt
    have hone : size = 1 := by omega
    exact h 0 (by omega) (by rw [hone])
  · intro htwo headIdx hlt
    exact distinct_descs htwo hlt

/-- After `virtio_sound_init` with `DRIVER_OK` set, driver and device start in agreement on both
queues exactly if the device has two descriptors for commands and one for playback, and the
frames that became the rings held a zero where the ring's index is. -/
theorem virtio_sound_init_agreement_iff
    (hrun : virtioSoundInit notifyBase multiplier s = .ok () s')
    (hlive : s'.virtioSoundCfg.deviceStatus &&& virtioStatusDriverOk ≠ 0) :
    (StartsInAgreement s' 0 ∧ StartsInAgreement s' 2 ∧
      ∀ headIdx < (s'.queues 0).size, (headIdx + 1) % (s'.queues 0).size ≠ headIdx) ↔
    (2 ≤ s.virtioSoundCfg.queueSize 0 ∧ s.virtioSoundCfg.queueSize 2 ≠ 0 ∧
      ∀ k ∈ [1, 2, 4, 5], s.mem.get16 (frameGiven s.pmm k + 2) = 0) := by
  obtain ⟨hoff, -⟩ | h := virtioSoundInit_cases hrun
  · exact absurd hoff hlive
  have hdevice : ∀ q, s'.deviceIdx q = 0 := fun q => congrFun h.counters q
  have hcontrol := startsInAgreement_newQueue h.control ((h.enabled 0).mpr (.inl rfl))
    (hdevice 0)
  have hplayback := startsInAgreement_newQueue h.playback ((h.enabled 2).mpr (.inr rfl))
    (hdevice 2)
  have hsize : (s'.queues 0).size = s.virtioSoundCfg.queueSize 0 := by
    rw [h.control]
    rfl
  rw [hcontrol, hplayback, hsize, distinct_descs_iff h.sized, h.mem]
  simp only [List.forall_mem_cons, zeroIdx]
  constructor
  · rintro ⟨⟨-, h₁, h₂⟩, ⟨hq, h₄, h₅⟩, htwo⟩
    exact ⟨htwo, hq, h₁, h₂, h₄, h₅, fun _ h => absurd h List.not_mem_nil⟩
  · rintro ⟨htwo, hq, h₁, h₂, h₄, h₅, -⟩
    exact ⟨⟨h.sized, h₁, h₂⟩, ⟨hq, h₄, h₅⟩, htwo⟩

/-- A device with 64 descriptors in each queue, behind memory with some content. -/
def sampleSound (mem : ByteMemory) : Sound where
  mem := mem
  pmm := pmmInit (fun _ => 0) 0x1000000 0x200000
  dmaBuffer := 0x105000
  virtioSoundCfg :=
    { deviceFeature := fun i => if i = 1 then 1 else 0, numQueues := 4
      queueSize := fun _ => 64, queueNotifyOff := fun q => q, acceptsFeatures := true }
  notifyBaseAddr := 0
  notifyOffMultiplier := 0
  queues := fun _ => ⟨0, 0, 0, 0, 0, 0⟩
  deviceIdx := fun _ => 0
  taken := fun _ => []
  served := fun _ => []
  inFlight := fun _ => []
  overwritten := []
  notified := []
  time := 0

theorem virtio_sound_init_agreement_fresh_memory :
    ∃ s', virtioSoundInit 0xE0001000 4 (sampleSound fun _ => 0) = .ok () s' ∧
      StartsInAgreement s' 0 ∧ StartsInAgreement s' 2 ∧
      ∀ headIdx < (s'.queues 0).size, (headIdx + 1) % (s'.queues 0).size ≠ headIdx := by
  obtain ⟨s', hrun, h⟩ := virtioSoundInit_setUp (s := sampleSound fun _ => 0) 0xE0001000 4 rfl
    (by decide)
  have hzero : ∀ a, ByteMemory.get16 (fun _ => 0) a = 0 := fun _ => rfl
  exact ⟨s', hrun, (virtio_sound_init_agreement_iff hrun h.live).mpr
    ⟨by decide, by decide, fun k _ => hzero _⟩⟩

/-- Recycled frames full of fives: the rings start at index 0x0505. -/
theorem virtio_sound_init_stale_rings :
    ∃ s', virtioSoundInit 0xE0001000 4 (sampleSound fun _ => 5) = .ok () s' ∧
      s'.virtioSoundCfg.deviceStatus &&& virtioStatusDriverOk ≠ 0 ∧
      (s'.queues 0).availIdx s'.mem = 0x0505 ∧ (s'.queues 0).usedIdx s'.mem = 0x0505 ∧
      (s'.queues 0).lastUsedIdx = 0 ∧ s'.deviceIdx 0 = 0 ∧ ¬StartsInAgreement s' 0 := by
  obtain ⟨s', hrun, h⟩ := virtioSoundInit_setUp (s := sampleSound fun _ => 5) 0xE0001000 4 rfl
    (by decide)
  have havail : (s'.queues 0).availIdx s'.mem = 0x0505 := by
    rw [h.control, h.mem]
    rfl
  have hused : (s'.queues 0).usedIdx s'.mem = 0x0505 := by
    rw [h.control, h.mem]
    rfl
  have hlast : (s'.queues 0).lastUsedIdx = 0 := by
    rw [h.control]
    rfl
  refine ⟨s', hrun, h.live, havail, hused, hlast, congrFun h.counters 0, fun hagree => ?_⟩
  rw [hagree.avail] at havail
  exact absurd havail (by decide)

end MyOS
