import MyOS.Model.Pci
import MyOS.Verification.Virtio.Control
import Mathlib.Data.Nat.ModEq

/-! Where the notifications go: the register of the queue that is sent on, or another one. -/

namespace MyOS

open Effect ByteMemory

variable {α : Type} {s s' t : Sound} {q : ℕ} {env : Env}

/-- What a notification is made from, and those made so far. -/
structure Doorbell where
  cfg : CommonCfg
  base : ℕ
  multiplier : ℕ
  notified : List (ℕ × ℕ)

def Sound.doorbell (s : Sound) : Doorbell :=
  ⟨s.virtioSoundCfg, s.notifyBaseAddr, s.notifyOffMultiplier, s.notified⟩

/-- The address that `notify_queue` writes to. -/
def Doorbell.addr (d : Doorbell) : ℕ :=
  (d.base + d.cfg.queueNotifyOff d.cfg.queueSelect * d.multiplier % 2 ^ 32) % 2 ^ 32

def Doorbell.ring (d : Doorbell) (q : ℕ) : Doorbell :=
  { d with notified := d.notified ++ [(d.addr, q)] }

/-- Before `notify_queue`, no notification is made. -/
theorem along_doorbell (hlegal : Legal env) :
    Along env fun s t => t.doorbell = s.doorbell where
  chain := chain_eq Sound.doorbell
  turn := leads_modify fun s => by
    have h := hlegal.sameDriver s
    simp [Sound.doorbell, h.virtioSoundCfg, h.notifyBaseAddr, h.notifyOffMultiplier, h.notified]
  stored _ _ _ _ := rfl
  publish _ _ _ := rfl

theorem notifyQueue_doorbell (h : notifyQueue q s = .ok () t) :
    t.doorbell = s.doorbell.ring q := by
  cases h
  rfl

/-- A command makes one notification. -/
theorem virtqSendCommandSync_doorbell {fuel respSize : ℕ} {cmd r : List UInt8}
    (hlegal : Legal env) (h : virtqSendCommandSync env fuel q cmd respSize s = .ok r t) :
    t.doorbell = s.doorbell.ring q := by
  obtain ⟨addr, u, hsubmit, h⟩ := bind_eq_ok.mp h
  have hmute := along_doorbell hlegal
  have hquiet : t.doorbell = u.doorbell :=
    (hmute.chain.bind (hmute.pollUsed q fuel) fun _ =>
      hmute.chain.bind (hmute.consumeUsed q) fun _ => hmute.copyFromDma addr respSize).ok h
  obtain ⟨_, s₁, h₁, hsubmit⟩ := bind_eq_ok.mp hsubmit
  obtain ⟨_, _, hget, hsubmit⟩ := bind_eq_ok.mp hsubmit
  cases hget
  simp only at hsubmit
  split at hsubmit
  · simp at hsubmit
  · obtain ⟨_, s₂, h₂, hsubmit⟩ := bind_eq_ok.mp hsubmit
    obtain ⟨_, s₃, h₃, hsubmit⟩ := bind_eq_ok.mp hsubmit
    obtain ⟨_, s₄, h₄, hsubmit⟩ := bind_eq_ok.mp hsubmit
    obtain ⟨_, s₅, h₅, hsubmit⟩ := bind_eq_ok.mp hsubmit
    obtain ⟨_, s₆, h₆, hsubmit⟩ := bind_eq_ok.mp hsubmit
    obtain ⟨_, s₇, h₇, hsubmit⟩ := bind_eq_ok.mp hsubmit
    obtain ⟨_, s₈, h₈, hsubmit⟩ := bind_eq_ok.mp hsubmit
    cases hsubmit
    rw [hquiet, notifyQueue_doorbell h₈, (hmute.setNextAvailIdx _ _).ok h₇,
      (hmute.makeAvailable _ _ _).ok h₆, hmute.turn.ok h₅, (hmute.writeDesc _ _ _).ok h₄,
      hmute.turn.ok h₃, (hmute.writeDesc _ _ _).ok h₂, (hmute.copyToDma 0 cmd).ok h₁]

/-- And so does a buffer. -/
theorem virtqSendBuffer_doorbell {data len : ℕ} (hlegal : Legal env)
    (h : virtqSendBuffer env q data len s = .ok () t) : t.doorbell = s.doorbell.ring q := by
  obtain ⟨_, _, hget, h⟩ := bind_eq_ok.mp h
  cases hget
  obtain ⟨_, s₁, h₁, h⟩ := bind_eq_ok.mp h
  obtain ⟨_, s₂, h₂, h⟩ := bind_eq_ok.mp h
  split at h
  · simp at h
  · obtain ⟨_, s₃, h₃, h⟩ := bind_eq_ok.mp h
    obtain ⟨_, s₄, h₄, h⟩ := bind_eq_ok.mp h
    have hmute := along_doorbell hlegal
    rw [notifyQueue_doorbell h, (hmute.setNextAvailIdx _ _).ok h₄,
      (hmute.makeAvailable _ _ _).ok h₃, hmute.turn.ok h₂, (hmute.writeDesc _ _ _).ok h₁]

/-! ## A sequence of sends -/

/-- A send on the control queue or on the playback queue. -/
inductive Send where
  | command (cmd : List UInt8) (respSize : ℕ)
  | buffer (data len : ℕ)

def Send.queue : Send → ℕ
  | .command _ _ => 0
  | .buffer _ _ => 2

def send (env : Env) (fuel : ℕ) : Send → Driver Unit
  | .command cmd respSize => do
      let _ ← virtqSendCommandSync env fuel 0 cmd respSize
  | .buffer data len => virtqSendBuffer env 2 data len

def sends (env : Env) (fuel : ℕ) : List Send → Driver Unit
  | [] => return ()
  | x :: xs => do
      send env fuel x
      sends env fuel xs

theorem send_doorbell {fuel : ℕ} {x : Send} (hlegal : Legal env)
    (h : send env fuel x s = .ok () t) : t.doorbell = s.doorbell.ring x.queue := by
  cases x with
  | command cmd respSize =>
      obtain ⟨_, u, hsend, h⟩ := bind_eq_ok.mp h
      cases h
      exact virtqSendCommandSync_doorbell hlegal hsend
  | buffer data len => exact virtqSendBuffer_doorbell hlegal h

/-- Each send notifies at the address of the queue that was selected last. -/
theorem sends_doorbell {fuel : ℕ} {xs : List Send} (hlegal : Legal env)
    (h : sends env fuel xs s = .ok () t) :
    t.doorbell = { s.doorbell with
      notified := s.notified ++ xs.map fun x => (s.doorbell.addr, x.queue) } := by
  induction xs generalizing s with
  | nil =>
      cases h
      simp [Sound.doorbell]
  | cons x xs ih =>
      obtain ⟨_, u, hsend, h⟩ := bind_eq_ok.mp h
      have hring := send_doorbell hlegal hsend
      have hnotified : u.notified = s.notified ++ [(s.doorbell.addr, x.queue)] :=
        congrArg Doorbell.notified hring
      have haddr : u.doorbell.addr = s.doorbell.addr := by
        rw [hring]
        rfl
      rw [ih h, haddr, hnotified, hring, List.append_assoc]
      rfl

/-! ## After the scan of the bus -/

/-- `pci_scan` finds the device in this slot, with both capabilities; the one for notifications is
at `capPtr`. -/
structure Pci.SoundAt (p : Pci) (bus slot capPtr : ℕ) : Prop where
  found : (List.range (256 * 32)).find? (fun k => decide (p.IsSound (k / 32) (k % 32))) =
    some (32 * bus + slot)
  slot_lt : slot < 32
  common : ∃ cap, p.findCapability bus slot virtioPciCapCommonCfg = .ok (some cap)
  notify : p.findPointer bus slot virtioPciCapNotifyCfg 256 (p.readByte bus slot 0x34).toNat =
    .ok (some capPtr)

/-- `notify_off_multiplier`, the four bytes behind the common part of the capability. -/
def Pci.notifyOffMultiplier (p : Pci) (bus slot capPtr : ℕ) : ℕ := p.readWord bus slot (capPtr + 16)

/-- What `pci_scan` takes for it: the first word of the page with the notification region. -/
def Pci.notifyPageWord (p : Pci) (bus slot capPtr : ℕ) : ℕ :=
  p.mmio (p.capAddr bus slot ⟨(p.readByte bus slot (capPtr + 4)).toNat,
    p.readWord bus slot (capPtr + 8), p.readWord bus slot (capPtr + 12)⟩ / 4096 * 4096)

theorem Pci.findCapability_of_pointer {p : Pci} {bus slot capPtr : ℕ} {capId : UInt8}
    (h : p.findPointer bus slot capId 256 (p.readByte bus slot 0x34).toNat = .ok (some capPtr)) :
    p.findCapability bus slot capId = .ok (some ⟨(p.readByte bus slot (capPtr + 4)).toNat,
      p.readWord bus slot (capPtr + 8), p.readWord bus slot (capPtr + 12)⟩) := by
  rw [Pci.findCapability, h]
  rfl

theorem Pci.SoundAt.scan {p : Pci} {bus slot capPtr : ℕ} (h : p.SoundAt bus slot capPtr)
    (s : Sound) :
    p.scan s = virtioSoundInit virtioSndNotifyVirtAddr (p.notifyPageWord bus slot capPtr) s := by
  obtain ⟨cap, hcommon⟩ := h.common
  have hbus : (32 * bus + slot) / 32 = bus := by
    have := h.slot_lt
    omega
  have hslot : (32 * bus + slot) % 32 = slot := by
    have := h.slot_lt
    omega
  have hnotify := Pci.findCapability_of_pointer h.notify
  have hscan : p.scan = p.initSound bus slot := by
    unfold Pci.scan
    rw [h.found]
    simp only [hbus, hslot]
  rw [hscan, Pci.initSound, hcommon]
  simp only [hnotify]
  rfl

theorem add_mod_right_inj (base : ℕ) (a b n : ℕ) :
    (base + a % n) % n = (base + b) % n ↔ a % n = b % n := by
  rw [Nat.add_mod_mod]
  exact ⟨Nat.ModEq.add_left_cancel' base, Nat.ModEq.add_left base⟩

/-- Every send notifies the register of its own queue exactly if the offset of queue 2, times the
word that was taken for the multiplier, is right for each queue that is sent on. -/
theorem notify_queue_register_iff {p : Pci} {bus slot capPtr fuel : ℕ} {xs : List Send}
    (hlegal : Legal env) (hsound : p.SoundAt bus slot capPtr) (hscan : p.scan s = .ok () s')
    (hlive : s'.virtioSoundCfg.deviceStatus &&& virtioStatusDriverOk ≠ 0)
    (hsends : sends env fuel xs s' = .ok () t) :
    (t.notified = s'.notified ++ xs.map fun x =>
      ((virtioSndNotifyVirtAddr + s.virtioSoundCfg.queueNotifyOff x.queue *
        p.notifyOffMultiplier bus slot capPtr) % 2 ^ 32, x.queue)) ↔
    ∀ x ∈ xs, s.virtioSoundCfg.queueNotifyOff 2 * p.notifyPageWord bus slot capPtr % 2 ^ 32 =
      s.virtioSoundCfg.queueNotifyOff x.queue * p.notifyOffMultiplier bus slot capPtr % 2 ^ 32 := by
  rw [hsound.scan] at hscan
  obtain ⟨hoff, -⟩ | hsetUp := virtioSoundInit_cases hscan
  · exact absurd hoff hlive
  have haddr : s'.doorbell.addr = (virtioSndNotifyVirtAddr + s.virtioSoundCfg.queueNotifyOff 2 *
      p.notifyPageWord bus slot capPtr % 2 ^ 32) % 2 ^ 32 := by
    unfold Doorbell.addr Sound.doorbell
    simp only [hsetUp.select, hsetUp.offsets, hsetUp.base, hsetUp.multiplier]
  have hnotified : t.notified = s'.notified ++ xs.map fun x => (s'.doorbell.addr, x.queue) :=
    congrArg Doorbell.notified (sends_doorbell hlegal hsends)
  rw [hnotified, haddr, List.append_right_inj, List.map_inj_left]
  constructor
  · intro h x hx
    exact (add_mod_right_inj _ _ _ _).mp (Prod.mk.inj (h x hx)).1
  · intro h x hx
    exact congrArg (·, x.queue) ((add_mod_right_inj _ _ _ _).mpr (h x hx))

/-- A bus with the device in slot 2. The multiplier of its capability is 4, and `word` is what the
notification region reads as. -/
def samplePci (word : ℕ) : Pci where
  config := fun bus slot offset =>
    if bus = 0 ∧ slot = 2 then
      (List.lookup offset [(0x00, 0xF4), (0x01, 0x1A), (0x02, 0x59), (0x03, 0x10), (0x34, 0x40),
        (0x40, 0x09), (0x41, 0x50), (0x43, 1), (0x50, 0x09), (0x53, 2), (0x60, 4)]).getD 0
    else 0xFF
  mmio := fun _ => word

theorem samplePci_pointers (word : ℕ) :
    (samplePci word).findPointer 0 2 virtioPciCapCommonCfg 256
      ((samplePci word).readByte 0 2 0x34).toNat = .ok (some 0x40) ∧
    (samplePci word).findPointer 0 2 virtioPciCapNotifyCfg 256
      ((samplePci word).readByte 0 2 0x34).toNat = .ok (some 0x50) := by
  simp [Pci.findPointer, Pci.readByte, Pci.readWord, samplePci, List.lookup_cons,
    virtioPciCapCommonCfg, virtioPciCapNotifyCfg]

theorem samplePci_isSound (word slot : ℕ) :
    (samplePci word).IsSound 0 slot ↔ slot = 2 := by
  by_cases hslot : slot = 2
  · simp [Pci.IsSound, Pci.readWord, samplePci, hslot, List.lookup_cons, virtioVendorId,
      virtioDevIdSound]
  · simp [Pci.IsSound, Pci.readWord, samplePci, hslot, virtioVendorId]

theorem samplePci_soundAt (word : ℕ) : (samplePci word).SoundAt 0 2 0x50 := by
  obtain ⟨hcommon, hnotify⟩ := samplePci_pointers word
  refine ⟨?_, by decide, ⟨_, Pci.findCapability_of_pointer hcommon⟩, hnotify⟩
  rw [List.find?_range_eq_some]
  refine ⟨?_, by simp, fun j hj => ?_⟩
  · simp [samplePci_isSound]
  · have hbus : j / 32 = 0 := by omega
    have hslot : j % 32 ≠ 2 := by omega
    simp [hbus, samplePci_isSound, hslot]

/-- A device that does nothing yet. -/
def sleepingDevice : Env := fun _ s => s

theorem legal_sleepingDevice : Legal sleepingDevice := fun _ _ => .refl

/-- The scan of the sample bus, and one buffer for the playback queue after it. -/
theorem samplePci_run (word : ℕ) :
    ∃ s' t, (samplePci word).scan (sampleSound fun _ => 0) = .ok () s' ∧
      SetUp (sampleSound fun _ => 0) virtioSndNotifyVirtAddr word s' ∧
      sends sleepingDevice 0 [.buffer 0x105000 2048] s' = .ok () t := by
  obtain ⟨s', hrun, h⟩ := virtioSoundInit_setUp (s := sampleSound fun _ => 0)
    virtioSndNotifyVirtAddr word rfl (by decide)
  have hroom : (s'.queues 2).Room := by
    have hframes := (roomForRings_sampleSound fun _ => 0).framed (show 3 + 3 ≤ 6 by decide)
    rw [h.playback]
    exact ⟨(hframes 64).low, show 0 < 64 by decide, show 64 ≤ 256 by decide,
      show 0 < 256 by decide⟩
  obtain ⟨t, ht⟩ := virtqSendBuffer_returns legal_sleepingDevice hroom 0x105000 2048
  refine ⟨s', t, ?_, h, ?_⟩
  · rw [(samplePci_soundAt word).scan]
    exact hrun
  · exact bind_eq_ok.mpr ⟨(), t, ht, rfl⟩

theorem samplePci_multiplier (word : ℕ) : (samplePci word).notifyOffMultiplier 0 2 0x50 = 4 := by
  simp [Pci.notifyOffMultiplier, Pci.readWord, samplePci, List.lookup_cons]

/-- If the region happens to read as the multiplier, the playback queue is notified. -/
theorem notify_queue_register_lucky_word :
    ∃ s' t, (samplePci 4).scan (sampleSound fun _ => 0) = .ok () s' ∧
      sends sleepingDevice 0 [.buffer 0x105000 2048] s' = .ok () t ∧
      t.notified = [(0xE0001008, 2)] := by
  obtain ⟨s', t, hscan, h, hsends⟩ := samplePci_run 4
  have hword : ∀ x ∈ [Send.buffer 0x105000 2048],
      (sampleSound fun _ => 0).virtioSoundCfg.queueNotifyOff 2 *
        (samplePci 4).notifyPageWord 0 2 0x50 % 2 ^ 32 =
      (sampleSound fun _ => 0).virtioSoundCfg.queueNotifyOff x.queue *
        (samplePci 4).notifyOffMultiplier 0 2 0x50 % 2 ^ 32 := by
    intro x hx
    rw [List.mem_singleton.mp hx, samplePci_multiplier]
    rfl
  have hnotified := (notify_queue_register_iff legal_sleepingDevice (samplePci_soundAt 4) hscan
    h.live hsends).mpr hword
  rw [h.history.1, samplePci_multiplier] at hnotified
  exact ⟨s', t, hscan, hsends, hnotified⟩

/-- The region reads as 0, and a buffer for queue 2 rings at the register of queue 0. -/
theorem notify_queue_wrong_register :
    ∃ s' t, (samplePci 0).scan (sampleSound fun _ => 0) = .ok () s' ∧
      s'.virtioSoundCfg.deviceStatus &&& virtioStatusDriverOk ≠ 0 ∧
      sends sleepingDevice 0 [.buffer 0x105000 2048] s' = .ok () t ∧
      t.notified = [(virtioSndNotifyVirtAddr, 2)] ∧
      (virtioSndNotifyVirtAddr + s'.virtioSoundCfg.queueNotifyOff 2 *
        (samplePci 0).notifyOffMultiplier 0 2 0x50) % 2 ^ 32 = 0xE0001008 := by
  obtain ⟨s', t, hscan, h, hsends⟩ := samplePci_run 0
  refine ⟨s', t, hscan, h.live, hsends, ?_, ?_⟩
  · have hnotified : t.notified = s'.notified ++ [(s'.doorbell.addr, 2)] :=
      congrArg Doorbell.notified (sends_doorbell legal_sleepingDevice hsends)
    have haddr : s'.doorbell.addr = virtioSndNotifyVirtAddr := by
      unfold Doorbell.addr Sound.doorbell
      simp only [h.base, h.multiplier, Nat.mul_zero]
      rfl
    rw [hnotified, h.history.1, haddr]
    rfl
  · rw [h.offsets, samplePci_multiplier]
    rfl

end MyOS
