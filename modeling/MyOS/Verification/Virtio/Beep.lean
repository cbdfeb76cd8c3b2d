import MyOS.Model.Virtio
import MyOS.Verification.Virtio.Control

/-! Runs of `virtio_sound_beep`: the commands and the audio data share one buffer, and the driver
does not look whether the device still reads it. -/

namespace MyOS

open Effect ByteMemory

variable {s s₀ t u : Sound} {env : Env} {fuel : ℕ} {w : QueueView} {m : ByteMemory}

/-- The device has nothing to do, the driver has seen all that it did, and both queues of the
driver fit their frames. -/
structure Quiescent (s : Sound) : Prop where
  rest : ∀ q, (s.view q).Rest
  ready : (s.view 0).queue.lastUsedIdx = (s.view 0).queue.usedIdx
  placed : s.Placed
  enabled : ∀ q, q = 0 ∨ q = 2 → s.virtioSoundCfg.queueEnable q = true
  size : ∀ q, (s.view q).queue.size ≤ 256
  next : ∀ q, (s.view q).queue.nextAvailIdx < 256

/-- A state in which nothing was overwritten since `s₀`. -/
structure Since (s₀ : Sound) (P : Sound → Prop) (s : Sound) : Prop where
  holds : P s
  dmaBuffer : s.dmaBuffer = s₀.dmaBuffer
  overwritten : s.overwritten = s₀.overwritten

/-- The computation overwrites nothing, and `P` holds when it returns. -/
def Keeps {α : Type} (P : Sound → Prop) (c : Driver α) (s : Sound) : Prop :=
  Ends (fun _ => Since s P) (fun t => t.overwritten = s.overwritten) (c s)

theorem Keeps.bind {α β : Type} {P Q : Sound → Prop} {x : Driver α} {f : α → Driver β}
    (hx : Keeps P x s) (hf : ∀ a t, P t → Keeps Q (f a) t) : Keeps Q (x >>= f) s := by
  refine ends_bind hx fun a t ht => ?_
  have hrest := hf a t ht.holds
  unfold Keeps at hrest
  cases hrun : f a t with
  | ok b u =>
      obtain ⟨hholds, hdma, hsame⟩ := hrest.ok hrun
      exact ⟨hholds, hdma.trans ht.dmaBuffer, hsame.trans ht.overwritten⟩
  | error e u => exact (hrest.error hrun).trans ht.overwritten

theorem Quiescent.clear (h : Quiescent s) {q : ℕ} (hq : q = 0 ∨ q = 2) : Clear q s :=
  ⟨h.placed, h.enabled q hq, h.rest q, fun p _ => (h.rest p).harmless, h.size q, h.next q⟩

/-- A command comes back before the call returns. -/
theorem Quiescent.command (hlegal : Legal env) (h : Quiescent s) {cmd : List UInt8}
    {respSize : ℕ} (hfits : cmd.length + respSize ≤ 4096) :
    Keeps Quiescent (virtqSendCommandSync env fuel 0 cmd respSize) s := by
  have hothers : ∀ p ≠ 0, (s.view p).Rest := fun p _ => h.rest p
  have hcall := virtqSendCommandSync_ends hlegal (h.clear (.inl rfl)) h.ready fuel hfits
  unfold Keeps
  cases hrun : virtqSendCommandSync env fuel 0 cmd respSize s with
  | error e t => exact hcall.error hrun hothers
  | ok r t =>
      obtain ⟨hpos, m₁, m₂, -, hserving, -⟩ := hcall.ok hrun
      have hview := hserving.own.1
      have hsame : ∀ p ≠ 0, t.view p = s.view p := fun p hp => hserving.rest p hp (h.rest p)
      have hsize : (t.view 0).queue.size = (s.view 0).queue.size :=
        congrArg (fun w => w.queue.size) hview
      have hnext : (t.view 0).queue.nextAvailIdx < (s.view 0).queue.size := by
        rw [hview]
        exact Nat.mod_lt _ hpos
      refine ⟨⟨fun p => ?_, ?_, hserving.placed, fun p hp => ?_, fun p => ?_, fun p => ?_⟩,
        hserving.dmaBuffer, hserving.kept hothers⟩
      · by_cases hp : p = 0
        · rw [hp, hview]
          have hsend : (commandView (s.view 0) s.dmaBuffer cmd.length respSize).Sendable
              s.dmaBuffer := sendable_commandView (h.rest 0) (h.size 0) hfits
          exact (hsend.rest.answered (commandEntry_head (h.rest 0) _ _ _) m₁ m₂).consumed
        · rw [hsame p hp]
          exact h.rest p
      · rw [hview]
        exact congrArg (· + 1) h.ready
      · rw [hserving.cfg]
        exact h.enabled p hp
      · by_cases hp : p = 0
        · rw [hp, hsize]
          exact h.size 0
        · rw [hsame p hp]
          exact h.size p
      · by_cases hp : p = 0
        · rw [hp]
          exact Nat.lt_of_lt_of_le hnext (h.size 0)
        · rw [hsame p hp]
          exact h.next p

/-- What leaves the queues alone keeps them quiet. -/
theorem Quiescent.congr (h : Quiescent s) (hview : ∀ p, t.view p = s.view p)
    (hplaced : t.Placed) (hcfg : t.virtioSoundCfg = s.virtioSoundCfg) : Quiescent t := by
  refine ⟨fun p => ?_, ?_, hplaced, fun p hp => ?_, fun p => ?_, fun p => ?_⟩
  · rw [hview]
    exact h.rest p
  · rw [hview]
    exact h.ready
  · rw [hcfg]
    exact h.enabled p hp
  · rw [hview]
    exact h.size p
  · rw [hview]
    exact h.next p

/-- Copying to the buffer leaves the queues alone. -/
theorem Quiescent.copy (hlegal : Legal env) (h : Quiescent s) {bytes : List UInt8}
    (hbytes : bytes.length ≤ 4096) : Keeps Quiescent (copyToDma env 0 bytes) s := by
  have hothers : ∀ p ≠ 0, (s.view p).Rest := fun p _ => h.rest p
  have hcopy := copyToDma_ends hlegal (h.rest 0) bytes 0 s.mem s (by omega)
    (h.clear (.inl rfl)).start
  unfold Keeps
  cases hrun : copyToDma env 0 bytes s with
  | error e t => exact hcopy.error hrun hothers
  | ok r t =>
      have hserving := hcopy.ok hrun
      have hview : ∀ p, t.view p = s.view p := by
        intro p
        by_cases hp : p = 0
        · rw [hp]
          exact hserving.own.1
        · exact hserving.rest p hp (h.rest p)
      exact ⟨h.congr hview hserving.placed hserving.cfg, hserving.dmaBuffer,
        hserving.kept hothers⟩

/-- The audio data is on its way, or it has come back. -/
structure Played (s : Sound) : Prop where
  ready : (s.view 0).queue.lastUsedIdx = (s.view 0).queue.usedIdx
  placed : s.Placed
  enabled : ∀ q, q = 0 ∨ q = 2 → s.virtioSoundCfg.queueEnable q = true
  size : ∀ q, (s.view q).queue.size ≤ 256
  next : ∀ q, (s.view q).queue.nextAvailIdx < 256
  others : ∀ q ≠ 2, (s.view q).Rest
  playback : (s.view 2).Rest ∨ ∃ head, s.inFlight 2 = [⟨[head], [(s.dmaBuffer, 2048)]⟩]

theorem Played.quiescent (h : Played s) (hback : s.inFlight 2 = []) : Quiescent s := by
  refine ⟨fun q => ?_, h.ready, h.placed, h.enabled, h.size, h.next⟩
  by_cases hq : q = 2
  · rw [hq]
    obtain hrest | ⟨head, hflight⟩ := h.playback
    · exact hrest
    · rw [hback] at hflight
      simp at hflight
  · exact h.others q hq

/-- The queue with a buffer in the table and in the available ring. -/
def bufferRing (w : QueueView) (data len : ℕ) : QueueView :=
  (w.withDesc w.queue.nextAvailIdx ⟨data, len, 0, 0⟩).withRing w.queue.nextAvailIdx

/-- The queue when a buffer is offered. -/
def bufferView (w : QueueView) (data len : ℕ) : QueueView :=
  (bufferRing w data len).withNext ((w.queue.nextAvailIdx + 1) % w.queue.size)

theorem head_bufferRing (h : w.Rest) (data len : ℕ) :
    (bufferRing w data len).head = w.queue.nextAvailIdx :=
  head_withRing (w := w.withDesc _ _) (h.withDesc _ _) _

/-- The device only reads the buffer. -/
theorem sendable_bufferRing (h : w.Rest) (hsize : w.queue.size ≤ 256) (data len dma : ℕ) :
    (bufferRing w data len).Sendable dma := by
  refine ⟨⟨h.available, h.taken, h.inFlight⟩, hsize, fun d hd hwrite => ?_⟩
  have hdesc : (bufferRing w data len).queue.desc w.queue.nextAvailIdx = ⟨data, len, 0, 0⟩ :=
    Function.update_self _ _ _
  rw [QueueView.chain, head_bufferRing h] at hd
  cases hn : (bufferRing w data len).queue.size with
  | zero =>
      rw [hn] at hd
      simp [walkChain] at hd
  | succ n =>
      rw [hn, walkChain, hdesc] at hd
      have hread : d = ⟨data, len, 0, 0⟩ := by
        split at hd
        · simpa using hd
        · simp at hd
      rw [hread] at hwrite
      simp [VirtqDesc.writable] at hwrite

theorem sendable_bufferView (h : w.Rest) (hsize : w.queue.size ≤ 256) (data len dma : ℕ) :
    (bufferView w data len).Sendable dma :=
  (sendable_bufferRing h hsize data len dma).withNext _

theorem virtqSendBuffer_ends {q data len : ℕ} (hlegal : Legal env) (h : Clear q s)
    (hd : VirtqDesc.Encodable ⟨data, len, 0, 0⟩) :
    Ends (fun _ t => 0 < (s.view q).queue.size ∧
        Serving q s (Offered s.dmaBuffer (bufferView (s.view q) data len)
          ⟨[(s.view q).queue.nextAvailIdx], [(data, len)]⟩ s.mem) t)
      (Spared q s) (virtqSendBuffer env q data len s) := by
  have hrest := h.rest
  have hqueue := h.start.queue
  have hnext : (s.queues q).nextAvailIdx = (s.view q).queue.nextAvailIdx := by
    rw [hqueue]
    rfl
  have hsize : (s.queues q).size = (s.view q).queue.size := by
    rw [hqueue]
    rfl
  refine ends_get_bind ?_
  simp only [hnext, hsize]
  refine ends_bind (writeDesc_ends hrest.inFlight h.start h.next hd) fun _ t ht => ?_
  have hdesc := fun i d => hrest.withDesc i d
  refine ends_bind (turn_ends hlegal (hdesc _ _).steady ht) fun _ t ht => ?_
  split
  case isTrue => exact ht.kept
  case isFalse hzero =>
    have hpos : 0 < (s.view q).queue.size := Nat.pos_of_ne_zero hzero
    refine ends_bind (makeAvailable_ends hlegal
      (sendable_bufferRing hrest h.size data len s.dmaBuffer) hpos h.next ht _) fun _ t ht => ?_
    refine ends_bind (setNextAvailIdx_ends ht _) fun _ t ht => ?_
    exact (notifyQueue_ends ht q).mono fun _ _ h => ⟨hpos, h⟩

/-- A chain that was offered is in flight until the queue is at rest again. -/
theorem Offered.rest_or_inFlight {entry : InFlight} {m₀ m' : ByteMemory} {dma : ℕ}
    {w' : QueueView} (h : Offered dma w entry m₀ w' m') (hrest : w.Rest)
    (hentry : entry.descs.head? = some w.head) : w'.Rest ∨ w'.inFlight = [entry] := by
  have hflight : w.inFlight ++ [entry] = [entry] := by
    rw [hrest.inFlight, List.nil_append]
  cases h with
  | waiting => exact .inr hflight
  | working => exact .inr hflight
  | done m₁ m₂ => exact .inl (hrest.answered hentry m₁ m₂)

theorem Offered.nextAvailIdx {entry : InFlight} {m₀ m' : ByteMemory} {dma : ℕ} {w' : QueueView}
    (h : Offered dma w entry m₀ w' m') : w'.queue.nextAvailIdx = w.queue.nextAvailIdx := by
  cases h <;> rfl

/-- The audio data is sent, and some time passes. -/
theorem Quiescent.buffer (hlegal : Legal env) (h : Quiescent s) :
    Keeps Played (do virtqSendBuffer env 2 s.dmaBuffer 2048; turn env) s := by
  have hothers : ∀ p ≠ 2, (s.view p).Rest := fun p _ => h.rest p
  have hd : VirtqDesc.Encodable ⟨s.dmaBuffer, 2048, 0, 0⟩ := by
    have hlow := h.placed.low
    refine ⟨?_, show 2048 < 2 ^ 32 by decide, show 0 < 2 ^ 16 by decide,
      show 0 < 2 ^ 16 by decide⟩
    change s.dmaBuffer < 2 ^ 64
    omega
  have hoffer := sendable_bufferView (h.rest 2) (h.size 2) s.dmaBuffer 2048 s.dmaBuffer
  have hsend : Ends (fun _ t => 0 < (s.view 2).queue.size ∧ Serving 2 s (Offered s.dmaBuffer
      (bufferView (s.view 2) s.dmaBuffer 2048) ⟨[(s.view 2).queue.nextAvailIdx],
        [(s.dmaBuffer, 2048)]⟩ s.mem) t) (Spared 2 s)
      ((do virtqSendBuffer env 2 s.dmaBuffer 2048; turn env : Driver Unit) s) :=
    ends_bind (virtqSendBuffer_ends hlegal (h.clear (.inr rfl)) hd) fun _ t ht =>
      (turn_ends hlegal hoffer.steady ht.2).mono fun _ _ hu => ⟨ht.1, hu⟩
  unfold Keeps
  cases hrun : (do virtqSendBuffer env 2 s.dmaBuffer 2048; turn env : Driver Unit) s with
  | error e t => exact hsend.error hrun hothers
  | ok r t =>
      obtain ⟨hpos, hserving⟩ := hsend.ok hrun
      have hview : ∀ p ≠ 2, t.view p = s.view p := fun p hp => hserving.rest p hp (h.rest p)
      have hnext : (t.view 2).queue.nextAvailIdx < (s.view 2).queue.size := by
        rw [hserving.own.nextAvailIdx]
        exact Nat.mod_lt _ hpos
      refine ⟨⟨?_, hserving.placed, fun p hp => ?_, fun p => ?_, fun p => ?_, fun p hp => ?_, ?_⟩,
        hserving.dmaBuffer, hserving.kept hothers⟩
      · rw [hview 0 (by decide)]
        exact h.ready
      · rw [hserving.cfg]
        exact h.enabled p hp
      · by_cases hp : p = 2
        · rw [hp, hserving.own.size]
          exact h.size 2
        · rw [hview p hp]
          exact h.size p
      · by_cases hp : p = 2
        · rw [hp]
          exact Nat.lt_of_lt_of_le hnext (h.size 2)
        · rw [hview p hp]
          exact h.next p
      · rw [hview p hp]
        exact h.rest p
      · rw [hserving.dmaBuffer]
        exact (hserving.own.rest_or_inFlight hoffer.rest (congrArg some
          (head_bufferRing (h.rest 2) s.dmaBuffer 2048).symm)).imp_right fun hflight =>
            ⟨_, hflight⟩

section Grows

variable {α β : Type} {x : Driver α} {f : α → Driver β}

end Grows

/-- A state from which a beep gets as far as the audio data. -/
structure Primed (s : Sound) : Prop where
  agreed : Agreed s
  quiescent : Quiescent s
  playback : 0 < (s.view 2).queue.size

theorem Primed.small (h : Primed s) : (s.queues 0).size ≤ 256 := by
  have hsize := h.quiescent.size 0
  rw [h.agreed.queue] at hsize
  exact hsize

theorem Primed.command (hlegal : Legal env) (hprompt : Prompt env) (h : Primed s)
    {cmd : List UInt8} {respSize : ℕ} (hfits : cmd.length + respSize ≤ 4096) :
    ∃ enough r t, (∀ fuel ≥ enough, virtqSendCommandSync env fuel 0 cmd respSize s = .ok r t) ∧
      Primed t := by
  obtain ⟨enough, r, t, hreturn⟩ := h.agreed.returns h.quiescent.placed h.small hlegal hprompt
    hfits
  have hrun := hreturn enough (Nat.le_refl _)
  have hcall := (virtqSendCommandSync_ends hlegal (h.quiescent.clear (.inl rfl)) h.agreed.ready
    enough hfits).ok hrun
  obtain ⟨-, m₁, m₂, -, hserving, -⟩ := id hcall
  have hplayback := hserving.rest 2 (by decide) (h.quiescent.rest 2)
  have hquiescent : Since s Quiescent t := (h.quiescent.command hlegal hfits).ok hrun
  refine ⟨enough, r, t, hreturn, (h.agreed.called hfits hcall).1, hquiescent.holds, ?_⟩
  rw [hplayback]
  exact h.playback

end MyOS
