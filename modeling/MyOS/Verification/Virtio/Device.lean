import MyOS.Verification.Virtio.Frames
import Mathlib.Logic.Relation

/-! What can happen beside the driver. A step of the device is about one queue; what it does to
the other queues, to the buffer and to the driver's side follows from that. -/

namespace MyOS

open Effect ByteMemory

/-- A device that only does what the ring protocol allows, between any two steps of the driver. -/
def Legal (env : Env) : Prop := ∀ time s, Relation.ReflTransGen DeviceStep s (env time s)

/-- All there is about one queue. -/
structure QueueView where
  queue : Rings
  deviceIdx : UInt16
  taken : List TakenChain
  served : List ServedChain
  inFlight : List InFlight

/-- The arrays of the queue. One that is not enabled shows nothing. -/
def Sound.rings (s : Sound) (q : ℕ) : Rings :=
  if s.virtioSoundCfg.queueEnable q = true then
    (s.queues q).rings s.mem
  else
    { size := 0, lastUsedIdx := 0, nextAvailIdx := 0, desc := fun _ => ⟨0, 0, 0, 0⟩
      availIdx := s.deviceIdx q, availRing := fun _ => 0, usedIdx := 0 }

def Sound.view (s : Sound) (q : ℕ) : QueueView :=
  ⟨s.rings q, s.deviceIdx q, s.taken q, s.served q, s.inFlight q⟩

/-- The page at `dma` holds the same bytes. -/
def SameBuffer (dma : ℕ) (m m' : ByteMemory) : Prop := ∀ x, InPage dma x → m' x = m x

/-- The buffer of the descriptor lies in the page at `dma`. -/
def VirtqDesc.Within (d : VirtqDesc) (dma : ℕ) : Prop := dma ≤ d.addr ∧ d.addr + d.len ≤ dma + 4096

namespace QueueView

def head (w : QueueView) : ℕ := w.queue.availRing (w.deviceIdx.toNat % w.queue.size)

def chain (w : QueueView) : List VirtqDesc :=
  walkChain w.queue.desc w.queue.size w.queue.size w.head

/-- The chain that the device takes next. -/
def next (w : QueueView) (m : ByteMemory) : TakenChain :=
  ⟨w.head, w.chain, chainBytes m false w.chain⟩

/-- `Sound.fetch` for the queue. -/
def fetch (w : QueueView) (m : ByteMemory) : QueueView :=
  { w with deviceIdx := w.deviceIdx + 1, taken := w.taken ++ [w.next m] }

/-- `Sound.complete` for the queue. -/
def complete (w : QueueView) (m : ByteMemory) (j : ℕ) (c : TakenChain) : QueueView :=
  { w with
    queue := { w.queue with usedIdx := w.queue.usedIdx + 1 }
    taken := w.taken.eraseIdx j
    served := w.served ++ [⟨c.chain, c.command, chainBytes m true c.chain⟩]
    inFlight := w.inFlight.eraseP fun f => f.descs.head? = some c.head }

/-- There is nothing for the device to do. -/
structure Rest (w : QueueView) : Prop where
  available : w.queue.availIdx = w.deviceIdx
  taken : w.taken = []
  inFlight : w.inFlight = []

/-- The queue fits its frames, unless the device has nothing to do on it. -/
def Small (w : QueueView) : Prop :=
  w.queue.size ≤ 256 ∨ w.queue.availIdx = w.deviceIdx ∧ w.taken = []

/-- There is nothing for the device to write. -/
structure Harmless (w : QueueView) : Prop where
  taken : ∀ c ∈ w.taken, ∀ d ∈ c.chain, ¬d.writable
  available : w.queue.availIdx = w.deviceIdx ∨ ∀ i, ¬(w.queue.desc i).writable
  small : w.Small

/-- What the device may do on the queue stays in the page at `dma` and in the used ring. -/
structure Fits (w : QueueView) (dma : ℕ) : Prop where
  buffers : ∀ c ∈ w.taken, ∀ d ∈ c.chain, d.writable → d.Within dma
  small : w.Small

theorem Rest.small {w : QueueView} (h : w.Rest) : w.Small := .inr ⟨h.available, h.taken⟩

theorem Rest.harmless {w : QueueView} (h : w.Rest) : w.Harmless := by
  refine ⟨?_, .inl h.available, h.small⟩
  rw [h.taken]
  simp

theorem Harmless.fits {w : QueueView} (h : w.Harmless) (dma : ℕ) : w.Fits dma :=
  ⟨fun c hc d hd hwrite => absurd hwrite (h.taken c hc d hd), h.small⟩

theorem Rest.fits {w : QueueView} (h : w.Rest) (dma : ℕ) : w.Fits dma := h.harmless.fits dma

end QueueView

/-- A step of the device on one queue, with the memory before and after it. -/
inductive QueueStep (dma : ℕ) (w : QueueView) (m : ByteMemory) : QueueView → ByteMemory → Prop where
  | fetch : w.queue.availIdx ≠ w.deviceIdx → QueueStep dma w m (w.fetch m) m
  | write (c : TakenChain) (d : VirtqDesc) (a : ℕ) (b : UInt8) : c ∈ w.taken → d ∈ c.chain →
      d.writable → d.addr ≤ a → a < d.addr + d.len → QueueStep dma w m w (m.set8 a b)
  | complete (j : ℕ) (c : TakenChain) (m' : ByteMemory) : w.taken[j]? = some c →
      SameBuffer dma m m' → QueueStep dma w m (w.complete m j c) m'

/-- The part of the state that only the driver changes. -/
structure SameDriver (s t : Sound) : Prop where
  dmaBuffer : t.dmaBuffer = s.dmaBuffer
  virtioSoundCfg : t.virtioSoundCfg = s.virtioSoundCfg
  notifyBaseAddr : t.notifyBaseAddr = s.notifyBaseAddr
  notifyOffMultiplier : t.notifyOffMultiplier = s.notifyOffMultiplier
  queues : t.queues = s.queues
  overwritten : t.overwritten = s.overwritten
  notified : t.notified = s.notified

/-- The enabled queues and the buffer have frames of their own. -/
structure Sound.Placed (s : Sound) : Prop where
  framed : ∀ q, s.virtioSoundCfg.queueEnable q = true → (s.queues q).Framed
  queues : ∀ p q, s.virtioSoundCfg.queueEnable p = true → s.virtioSoundCfg.queueEnable q = true →
    p ≠ q → ∀ a ∈ (s.queues p).parts, ∀ b ∈ (s.queues q).parts, PagesApart a b
  buffer : ∀ q, s.virtioSoundCfg.queueEnable q = true →
    ∀ a ∈ (s.queues q).parts, PagesApart a s.dmaBuffer
  low : s.dmaBuffer + 4096 ≤ 2 ^ 32

variable {s t : Sound} {q : ℕ} {w w' : QueueView} {m m' : ByteMemory} {dma : ℕ}

theorem DeviceStep.sameDriver (h : DeviceStep s t) : SameDriver s t := by
  cases h <;> exact ⟨rfl, rfl, rfl, rfl, rfl, rfl, rfl⟩

/-- Where the parts lie does not change. -/
theorem Sound.Placed.congr (h : s.Placed) (hparts : ∀ q, (t.queues q).parts = (s.queues q).parts)
    (hcfg : t.virtioSoundCfg = s.virtioSoundCfg) (hdma : t.dmaBuffer = s.dmaBuffer) :
    t.Placed := by
  refine ⟨?_, ?_, ?_, ?_⟩
  · intro q hq
    rw [hcfg] at hq
    exact (h.framed q hq).congr (hparts q)
  · intro p q hp hq hne
    rw [hcfg] at hp hq
    rw [hparts, hparts]
    exact h.queues p q hp hq hne
  · intro q hq
    rw [hcfg] at hq
    rw [hparts, hdma]
    exact h.buffer q hq
  · rw [hdma]
    exact h.low

theorem Sound.rings_of_enabled (h : s.virtioSoundCfg.queueEnable q = true) :
    s.rings q = (s.queues q).rings s.mem := if_pos h

/-- Two states with the same arrays. -/
theorem Sound.rings_congr (hcfg : t.virtioSoundCfg = s.virtioSoundCfg)
    (hdevice : t.deviceIdx q = s.deviceIdx q)
    (hrings : s.virtioSoundCfg.queueEnable q = true →
      (t.queues q).rings t.mem = (s.queues q).rings s.mem) : t.rings q = s.rings q := by
  unfold Sound.rings
  rw [hcfg]
  split
  case isTrue henabled => exact hrings henabled
  case isFalse => rw [hdevice]

/-- A store to a frame of one queue does not show in the others. -/
theorem Sound.Placed.other (h : s.Placed) {p : ℕ} (hq : s.virtioSoundCfg.queueEnable q = true)
    (hp : p ≠ q) {a : ℕ} (ha : a ∈ (s.queues q).parts)
    (hm : ∀ x, ¬InPage a x → m x = s.mem x) (henabled : s.virtioSoundCfg.queueEnable p = true) :
    (s.queues p).rings m = (s.queues p).rings s.mem :=
  Virtq.rings_congr fun b hb x hx =>
    hm x ((h.queues p q henabled hq hp b hb a ha).not_inPage hx)

/-- Nor does a store to the buffer. -/
theorem Sound.Placed.unaffected (h : s.Placed) (hm : ∀ x, ¬InPage s.dmaBuffer x → m x = s.mem x)
    (henabled : s.virtioSoundCfg.queueEnable q = true) :
    (s.queues q).rings m = (s.queues q).rings s.mem :=
  Virtq.rings_congr fun b hb x hx => hm x ((h.buffer q henabled b hb).not_inPage hx)

/-- And none to a frame of a queue shows in the buffer. -/
theorem Sound.Placed.sameBuffer (h : s.Placed) (hq : s.virtioSoundCfg.queueEnable q = true)
    {a : ℕ} (ha : a ∈ (s.queues q).parts) (hm : ∀ x, ¬InPage a x → m x = s.mem x) :
    SameBuffer s.dmaBuffer s.mem m :=
  fun x hx => hm x ((h.buffer q hq a ha).symm.not_inPage hx)

theorem walkChain_congr {d d' : ℕ → VirtqDesc} {size : ℕ} (h : ∀ i < size, d' i = d i)
    (n i : ℕ) : walkChain d' size n i = walkChain d size n i := by
  induction n generalizing i with
  | zero => rfl
  | succ n ih =>
      unfold walkChain
      split
      case isTrue hi => rw [h i hi, ih]
      case isFalse => rfl

/-- The device takes from memory what the arrays say. -/
theorem next_of_enabled (hworks : s.Works q) (hsize : (s.queues q).size ≤ 256) :
    (s.view q).next s.mem =
      let v := s.queues q
      let head := v.availEntry s.mem ((s.deviceIdx q).toNat % v.size)
      let chain := walkChain (v.desc s.mem) v.size v.size head
      ⟨head, chain, chainBytes s.mem false chain⟩ := by
  obtain ⟨henabled, hpos⟩ := hworks
  have hslot := Nat.mod_lt (s.deviceIdx q).toNat hpos
  have hqueue : (s.view q).queue = (s.queues q).rings s.mem := Sound.rings_of_enabled henabled
  have hhead : (s.view q).head =
      (s.queues q).availEntry s.mem ((s.deviceIdx q).toNat % (s.queues q).size) := by
    rw [QueueView.head, hqueue]
    exact if_pos (Nat.lt_of_lt_of_le hslot hsize)
  have hchain : (s.view q).chain = walkChain ((s.queues q).desc s.mem) (s.queues q).size
      (s.queues q).size (s.view q).head := by
    rw [QueueView.chain, hqueue]
    exact walkChain_congr (fun i hi => if_pos (Nat.lt_of_lt_of_le hi hsize)) _ _
  rw [QueueView.next, hchain, hhead]

theorem Sound.view_congr (hrings : t.rings q = s.rings q)
    (hdevice : t.deviceIdx q = s.deviceIdx q) (htaken : t.taken q = s.taken q)
    (hserved : t.served q = s.served q) (hflight : t.inFlight q = s.inFlight q) :
    t.view q = s.view q := by
  unfold Sound.view
  rw [hrings, hdevice, htaken, hserved, hflight]

theorem Sound.view_queue (henabled : s.virtioSoundCfg.queueEnable q = true) :
    (s.view q).queue = (s.queues q).rings s.mem := Sound.rings_of_enabled henabled

/-- A chain comes back: the used ring of the queue changes, and nothing else in memory. -/
theorem DeviceStep.queueStep_complete {j len : ℕ} {c : TakenChain} (hplaced : s.Placed)
    (hfits : (s.view q).Fits s.dmaBuffer) (hworks : s.Works q) (hc : (s.taken q)[j]? = some c) :
    QueueStep s.dmaBuffer (s.view q) s.mem ((s.complete q j len c).view q)
        (s.complete q j len c).mem ∧
      ∀ p ≠ q, (s.complete q j len c).view p = s.view p := by
  obtain ⟨henabled, hpos⟩ := hworks
  have hqueue := Sound.view_queue henabled
  have hsize : (s.queues q).size ≤ 256 := by
    obtain hsmall | ⟨-, hnone⟩ := hfits.small
    · rw [hqueue] at hsmall
      exact hsmall
    · have htaken : s.taken q = [] := hnone
      rw [htaken] at hc
      simp at hc
  have hout : ∀ x, ¬InPage (s.queues q).usedRing x →
      (s.queues q).pushUsed s.mem c.head len x = s.mem x :=
    fun x hx => Virtq.pushUsed_inPage hsize hpos hx
  have hview : (s.complete q j len c).view q = (s.view q).complete s.mem j c := by
    have hrings : (s.complete q j len c).rings q =
        { s.rings q with usedIdx := (s.rings q).usedIdx + 1 } := by
      rw [Sound.rings_of_enabled (s := s.complete q j len c) henabled,
        Sound.rings_of_enabled henabled]
      exact Virtq.rings_pushUsed (hplaced.framed q henabled) hsize hpos c.head len
    unfold Sound.view
    rw [hrings]
    simp [Sound.complete, QueueView.complete]
  refine ⟨?_, fun p hp => ?_⟩
  · rw [hview]
    exact .complete j c _ hc (hplaced.sameBuffer henabled (Virtq.usedRing_mem _) hout)
  · refine Sound.view_congr ?_ rfl ?_ ?_ ?_
    · exact Sound.rings_congr rfl rfl (hplaced.other henabled hp (Virtq.usedRing_mem _) hout)
    · exact Function.update_of_ne hp _ _
    · exact Function.update_of_ne hp _ _
    · exact Function.update_of_ne hp _ _

/-- Everything that a step of the device can do to the queues and the buffer. -/
theorem DeviceStep.queueStep (h : DeviceStep s t) (hplaced : s.Placed)
    (hfits : ∀ q, (s.view q).Fits s.dmaBuffer) :
    ∃ q, QueueStep s.dmaBuffer (s.view q) s.mem (t.view q) t.mem ∧
      ∀ p ≠ q, t.view p = s.view p := by
  cases h with
  | fetch q hworks havail =>
      have hqueue := Sound.view_queue hworks.1
      have havail' : (s.view q).queue.availIdx ≠ (s.view q).deviceIdx := by
        rw [hqueue]
        exact havail
      have hsize : (s.queues q).size ≤ 256 := by
        obtain hsmall | ⟨hsame, -⟩ := (hfits q).small
        · rw [hqueue] at hsmall
          exact hsmall
        · exact absurd hsame havail'
      have hview : (s.fetch q).view q = (s.view q).fetch s.mem := by
        rw [QueueView.fetch, next_of_enabled hworks hsize]
        simp [Sound.view, Sound.fetch, Sound.rings, hworks.1]
      refine ⟨q, ?_, fun p hp => ?_⟩
      · rw [hview]
        exact .fetch havail'
      · simp [Sound.view, Sound.fetch, Sound.rings, hp]
  | write q c d a b hworks hc hd hwrite hlo hhi =>
      obtain ⟨hfirst, hlast⟩ := (hfits q).buffers c hc d hd hwrite
      have hout : ∀ x, ¬InPage s.dmaBuffer x → s.mem.set8 a b x = s.mem x := by
        intro x hx
        unfold InPage at hx
        exact set8_of_ne _ _ (by omega)
      have hview : ∀ p, ({ s with mem := s.mem.set8 a b } : Sound).view p = s.view p :=
        fun p => Sound.view_congr (Sound.rings_congr rfl rfl (hplaced.unaffected hout)) rfl rfl
          rfl rfl
      refine ⟨q, ?_, fun p _ => hview p⟩
      rw [hview]
      exact .write c d a b hc hd hwrite hlo hhi
  | complete q j len c hworks hc =>
      exact ⟨q, DeviceStep.queueStep_complete hplaced (hfits q) hworks hc⟩

/-- A queue at rest stays as it is. -/
theorem QueueView.Rest.not_step (h : w.Rest) : ¬QueueStep dma w m w' m' := by
  intro hstep
  cases hstep with
  | fetch havail => exact havail h.available
  | write c d a b hc => simp [h.taken] at hc
  | complete j c m' hc => simp [h.taken] at hc

theorem not_writable_of_mem_walkChain {desc : ℕ → VirtqDesc} {size : ℕ}
    (h : ∀ i, ¬(desc i).writable) (n i : ℕ) : ∀ d ∈ walkChain desc size n i, ¬d.writable := by
  induction n generalizing i with
  | zero => simp [walkChain]
  | succ n ih =>
      intro d hd
      rw [walkChain] at hd
      split at hd
      · rcases List.mem_cons.mp hd with rfl | hd
        · exact h i
        · split at hd
          · exact ih _ d hd
          · simp at hd
      · simp at hd

/-- The device writes nothing to the buffer for a harmless queue, and the queue stays harmless. -/
theorem QueueView.Harmless.step (h : w.Harmless) (hstep : QueueStep dma w m w' m') :
    w'.Harmless ∧ SameBuffer dma m m' := by
  cases hstep with
  | fetch havail =>
      have hdesc := h.available.resolve_left havail
      have hsize := h.small.resolve_right fun hidle => havail hidle.1
      refine ⟨⟨?_, .inr hdesc, .inl hsize⟩, fun _ _ => rfl⟩
      intro c hc
      rcases List.mem_append.mp hc with hc | hc
      · exact h.taken c hc
      · rw [List.mem_singleton.mp hc]
        exact not_writable_of_mem_walkChain hdesc _ _
  | write c d a b hc hd hwrite => exact absurd hwrite (h.taken c hc d hd)
  | complete j c m' hc hsame =>
      refine ⟨⟨fun c hc => h.taken c (List.mem_of_mem_eraseIdx hc), h.available, ?_⟩, hsame⟩
      obtain hsize | ⟨-, hnone⟩ := h.small
      · exact .inl hsize
      · rw [hnone] at hc
        simp at hc

theorem sameDriver_of_path (h : Relation.ReflTransGen DeviceStep s t) : SameDriver s t := by
  induction h with
  | refl => exact ⟨rfl, rfl, rfl, rfl, rfl, rfl, rfl⟩
  | tail _ hstep ih =>
      have h := hstep.sameDriver
      exact ⟨h.dmaBuffer.trans ih.dmaBuffer, h.virtioSoundCfg.trans ih.virtioSoundCfg,
        h.notifyBaseAddr.trans ih.notifyBaseAddr,
        h.notifyOffMultiplier.trans ih.notifyOffMultiplier, h.queues.trans ih.queues,
        h.overwritten.trans ih.overwritten, h.notified.trans ih.notified⟩

/-- Until the driver goes on, its side of the state stays as it is. -/
theorem Legal.sameDriver {env : Env} (h : Legal env) (s : Sound) : SameDriver s (s.turn env) := by
  have hpath := sameDriver_of_path (h s.time s)
  exact ⟨hpath.dmaBuffer, hpath.virtioSoundCfg, hpath.notifyBaseAddr, hpath.notifyOffMultiplier,
    hpath.queues, hpath.overwritten, hpath.notified⟩

/-! ## Parts of the driver, step by step -/

/-- A relation that holds along each step of the driver before it notifies the device. -/
structure Along (env : Env) (R : Sound → Sound → Prop) : Prop where
  chain : Chain R
  turn : Leads R (turn env)
  stored : ∀ s a n m, R s (s.stored a n m)
  publish : ∀ s queues inFlight, R s { s with queues := queues, inFlight := inFlight }

namespace Along

variable {env : Env} {R : Sound → Sound → Prop}

theorem touch (h : Along env R) (a : ℕ) : Leads R (touch a) := by
  intro s
  have hsame : final (MyOS.touch a) s = s := by
    by_cases ha : a < 2 ^ 22
    · rw [final, show MyOS.touch a s = .ok () s from if_pos ha]
    · rw [final, show MyOS.touch a s = .error (.pageFault a) s from if_neg ha]
  rw [hsame]
  exact h.chain.refl s

theorem writeDma (h : Along env R) (i : ℕ) (b : UInt8) : Leads R (writeDma i b) :=
  leads_modify fun s => h.stored s _ _ _

theorem writeDesc (h : Along env R) (q i : ℕ) (d : VirtqDesc) : Leads R (writeDesc q i d) :=
  h.chain.bind h.chain.get fun _ => h.chain.bind (h.touch _) fun _ =>
    leads_modify fun s => h.stored s _ _ _

theorem copyToDma (h : Along env R) (i : ℕ) (bytes : List UInt8) :
    Leads R (copyToDma env i bytes) := by
  induction bytes generalizing i with
  | nil => exact h.chain.pure ()
  | cons b bs ih =>
      exact h.chain.bind (h.writeDma i b) fun _ => h.chain.bind h.turn fun _ => ih (i + 1)

theorem copyFromDma (h : Along env R) (addr n : ℕ) : Leads R (copyFromDma env addr n) := by
  induction n with
  | zero => exact h.chain.pure []
  | succ n ih =>
      exact h.chain.bind ih fun _ => h.chain.bind h.chain.get fun _ =>
        h.chain.bind h.turn fun _ => h.chain.pure _

theorem writeAvail (h : Along env R) (q head : ℕ) : Leads R (writeAvail q head) :=
  h.chain.bind h.chain.get fun _ => h.chain.bind (h.touch _) fun _ =>
    leads_modify fun s => h.stored s _ _ _

theorem makeAvailable (h : Along env R) (q head : ℕ) (entry : InFlight) :
    Leads R (makeAvailable env q head entry) := by
  have hpublish : Leads R (MyOS.publish q entry) :=
    leads_modify fun s => h.chain.trans (h.stored s _ _ _) (h.publish _ _ _)
  exact h.chain.bind (h.writeAvail q head) fun _ => h.chain.bind h.turn fun _ =>
    h.chain.bind hpublish fun _ => h.turn

theorem setNextAvailIdx (h : Along env R) (q idx : ℕ) : Leads R (setNextAvailIdx q idx) :=
  leads_modify fun s => h.publish s _ s.inFlight

theorem consumeUsed (h : Along env R) (q : ℕ) : Leads R (consumeUsed q) :=
  leads_modify fun s => h.publish s _ s.inFlight

theorem pollUsed (h : Along env R) (q fuel : ℕ) : Leads R (pollUsed env q fuel) := by
  induction fuel with
  | zero => exact h.chain.throw _
  | succ fuel ih =>
      exact h.chain.bind h.chain.get fun _ => h.chain.bind (h.touch _) fun _ =>
        leads_ite (h.chain.bind h.turn fun _ => ih) (h.chain.pure ())

end Along

/-! ## Parts of the driver that always return -/

section Total

variable {env : Env}

/-- The driver can work on the queue without leaving its frames. -/
structure Virtq.Room (v : Virtq) : Prop where
  low : ∀ a ∈ v.parts, a + 4096 ≤ 2 ^ 22
  sized : 0 < v.size
  small : v.size ≤ 256
  next : v.nextAvailIdx < 256

theorem total_turn (env : Env) : Total (turn env) := total_modify _

theorem total_copyFromDma (addr n : ℕ) : Total (copyFromDma env addr n) := by
  induction n with
  | zero => exact fun s => ⟨[], s, rfl⟩
  | succ n ih =>
      exact ih.bind fun bs => total_get.bind fun _ => (total_turn env).bind fun _ s => ⟨_, s, rfl⟩

theorem touch_of_low {a : ℕ} (h : a < 2 ^ 22) (s : Sound) : touch a s = .ok () s := if_pos h

theorem turn_apply (env : Env) (s : Sound) : turn env s = .ok () (s.turn env) := rfl

theorem copyToDma_returns (hlegal : Legal env) (i : ℕ) (bytes : List UInt8) :
    ∃ t, copyToDma env i bytes s = .ok () t ∧ t.queues = s.queues := by
  induction bytes generalizing i s with
  | nil => exact ⟨s, rfl, rfl⟩
  | cons b bs ih =>
      obtain ⟨t, ht, hqueues⟩ := ih (s := (final (writeDma i b) s).turn env) (i + 1)
      exact ⟨t, ht, hqueues.trans (hlegal.sameDriver _).queues⟩

theorem writeDesc_returns (hroom : (s.queues q).Room) {i : ℕ} (hi : i < 256) (d : VirtqDesc) :
    ∃ t, writeDesc q i d s = .ok () t ∧ t.queues = s.queues := by
  have hlow := hroom.low _ (Virtq.descTable_mem _)
  have haddr : (s.queues q).descAddr i < 2 ^ 22 := by
    unfold Virtq.descAddr
    omega
  refine ⟨s.stored ((s.queues q).descAddr i) 16 ((s.queues q).setDesc s.mem i d), ?_, rfl⟩
  rw [writeDesc, bind_of_ok (get_apply s), bind_of_ok (touch_of_low haddr s)]
  rfl

theorem makeAvailable_returns (hlegal : Legal env) (hroom : (s.queues q).Room) (head : ℕ)
    (entry : InFlight) :
    ∃ t, makeAvailable env q head entry s = .ok () t ∧ t.queues = s.queues := by
  have hlow := hroom.low _ (Virtq.availRing_mem _)
  have hslot := Nat.mod_lt ((s.queues q).availIdx s.mem).toNat hroom.sized
  have hsmall := hroom.small
  obtain ⟨a, ha⟩ : ∃ a, a = (s.queues q).availEntryAddr (((s.queues q).availIdx s.mem).toNat %
      (s.queues q).size) := ⟨_, rfl⟩
  have haddr : a < 2 ^ 22 := by
    unfold Virtq.availEntryAddr at ha
    omega
  have hwrite : writeAvail q head s = .ok () (s.stored a 2 (s.mem.set16 a head)) := by
    rw [writeAvail, bind_of_ok (get_apply s)]
    simp only [← ha]
    rw [bind_of_ok (touch_of_low haddr s)]
    rfl
  obtain ⟨u, hu⟩ : ∃ u, u = (s.stored a 2 (s.mem.set16 a head)).turn env := ⟨_, rfl⟩
  have hturned : u.queues = s.queues := by
    rw [hu]
    exact (hlegal.sameDriver (s.stored a 2 (s.mem.set16 a head))).queues
  obtain ⟨v, hv, hsame⟩ : ∃ v, publish q entry u = .ok () v ∧ v.queues = u.queues := ⟨_, rfl, rfl⟩
  refine ⟨v.turn env, ?_, (hlegal.sameDriver v).queues.trans (hsame.trans hturned)⟩
  rw [makeAvailable, bind_of_ok hwrite, bind_of_ok (turn_apply env _), ← hu, bind_of_ok hv]
  rfl

theorem virtqSendBuffer_returns (hlegal : Legal env) (hroom : (s.queues q).Room)
    (data len : ℕ) : ∃ t, virtqSendBuffer env q data len s = .ok () t := by
  obtain ⟨t, ht, hqueues⟩ := writeDesc_returns hroom hroom.next ⟨data, len, 0, 0⟩
  have hturned : (t.turn env).queues = s.queues := (hlegal.sameDriver t).queues.trans hqueues
  have hroom' : ((t.turn env).queues q).Room := by
    rw [hturned]
    exact hroom
  obtain ⟨u, hu, -⟩ := makeAvailable_returns hlegal hroom' (s.queues q).nextAvailIdx
    ⟨[(s.queues q).nextAvailIdx], [(data, len)]⟩
  have hsize : (s.queues q).size ≠ 0 := Nat.ne_of_gt hroom.sized
  obtain ⟨v, hv⟩ : ∃ v, (do
      setNextAvailIdx q (((s.queues q).nextAvailIdx + 1) % (s.queues q).size)
      notifyQueue q : Driver Unit) u = .ok () v := ⟨_, rfl⟩
  refine ⟨v, ?_⟩
  rw [virtqSendBuffer, bind_of_ok (get_apply s)]
  simp only [hsize, if_false]
  rw [bind_of_ok ht, bind_of_ok (turn_apply env t), bind_of_ok hu]
  exact hv

end Total

end MyOS
