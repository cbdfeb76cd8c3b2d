import MyOS.Verification.Memory.Spaces
import MyOS.Verification.Virtio.Command

/-! The control queue: calls of `virtq_send_command_sync` one after the other, with a device that
answers at any point of the polling loop. -/

namespace MyOS

open Effect ByteMemory

variable {q dma : ℕ} {s s₀ t : Sound} {env : Env} {w : QueueView} {m m' : ByteMemory}

/-! ## Calls return -/

/-- What becomes of the state while the driver only waits. -/
def Sound.turns (s : Sound) (env : Env) : ℕ → Sound
  | 0 => s
  | n + 1 => (s.turn env).turns env n

/-- A chain of the control queue comes back, however long it takes. -/
def Prompt (env : Env) : Prop :=
  ∀ s : Sound, s.Works 0 →
    (s.queues 0).availIdx s.mem ≠ s.deviceIdx 0 ∨ s.taken 0 ≠ [] →
    ∃ n, ((s.turns env n).queues 0).usedIdx (s.turns env n).mem ≠ (s.queues 0).usedIdx s.mem

/-- On a queue that fits its frames the command is always sent. -/
theorem submitCommand_returns (hlegal : Legal env) (hroom : (s.queues q).Room)
    (cmd : List UInt8) (respSize : ℕ) :
    ∃ r t, submitCommand env q cmd respSize s = .ok r t := by
  obtain ⟨t, ht, hcopied⟩ := copyToDma_returns (s := s) hlegal 0 cmd
  have hroom₁ : (t.queues q).Room := by
    rw [hcopied]
    exact hroom
  obtain ⟨size, hsize⟩ : ∃ size, size = (t.queues q).size := ⟨_, rfl⟩
  obtain ⟨head, hhead⟩ : ∃ head, head = (t.queues q).nextAvailIdx := ⟨_, rfl⟩
  have hpos : 0 < size := by
    rw [hsize]
    exact hroom₁.sized
  have hresp : (head + 1) % size < 256 := by
    refine Nat.lt_of_lt_of_le (Nat.mod_lt _ hpos) ?_
    rw [hsize]
    exact hroom₁.small
  have hheadLt : head < 256 := by
    rw [hhead]
    exact hroom₁.next
  obtain ⟨u, hu, hqueues⟩ := writeDesc_returns hroom₁ hheadLt
    ⟨t.dmaBuffer, cmd.length, virtqDescFNext, (head + 1) % size⟩
  have hturned : (u.turn env).queues = t.queues := (hlegal.sameDriver u).queues.trans hqueues
  have hroom₂ : ((u.turn env).queues q).Room := by
    rw [hturned]
    exact hroom₁
  obtain ⟨v, hv, hqueues₂⟩ := writeDesc_returns hroom₂ hresp
    ⟨t.dmaBuffer + cmd.length, respSize, virtqDescFWrite, 0⟩
  have hroom₃ : ((v.turn env).queues q).Room := by
    rw [(hlegal.sameDriver v).queues, hqueues₂]
    exact hroom₂
  obtain ⟨x, hx, -⟩ := makeAvailable_returns hlegal hroom₃ head ⟨[head, (head + 1) % size],
    [(t.dmaBuffer, cmd.length), (t.dmaBuffer + cmd.length, respSize)]⟩
  obtain ⟨r, y, hy⟩ : ∃ r y, (do
      setNextAvailIdx q (((head + 1) % size + 1) % size)
      notifyQueue q
      return t.dmaBuffer + cmd.length : Driver ℕ) x = .ok r y := ⟨_, _, rfl⟩
  refine ⟨r, y, ?_⟩
  rw [submitCommand, bind_of_ok ht, offerCommand, bind_of_ok (get_apply t)]
  simp only [← hsize, ← hhead, Nat.ne_of_gt hpos, if_false]
  rw [bind_of_ok hu, bind_of_ok (turn_apply env u), bind_of_ok hv, bind_of_ok (turn_apply env v),
    bind_of_ok hx]
  exact hy

theorem pollUsed_of_ready (hlow : (s.queues q).usedRing + 2 < 2 ^ 22)
    (h : (s.queues q).lastUsedIdx ≠ (s.queues q).usedIdx s.mem) (fuel : ℕ) :
    pollUsed env q (fuel + 1) s = .ok () s := by
  rw [pollUsed, bind_of_ok (get_apply s), bind_of_ok (touch_of_low hlow s), if_neg h]
  rfl

theorem pollUsed_of_waiting (hlow : (s.queues q).usedRing + 2 < 2 ^ 22)
    (h : (s.queues q).lastUsedIdx = (s.queues q).usedIdx s.mem) (fuel : ℕ) :
    pollUsed env q (fuel + 1) s = pollUsed env q fuel (s.turn env) := by
  rw [pollUsed, bind_of_ok (get_apply s), bind_of_ok (touch_of_low hlow s), if_pos h]
  rfl

/-- The used ring has something that the driver has not seen. -/
def Sound.Ready (s : Sound) (q : ℕ) : Prop :=
  (s.queues q).lastUsedIdx ≠ (s.queues q).usedIdx s.mem

/-- The polling loop ends when the used index has moved, and the bound on its rounds does not
matter then. -/
theorem pollUsed_returns (hlegal : Legal env) {n : ℕ}
    (hlow : (s.queues q).usedRing + 2 < 2 ^ 22) (hready : (s.turns env n).Ready q) :
    ∃ t, ∀ fuel > n, pollUsed env q fuel s = .ok () t := by
  induction n generalizing s with
  | zero =>
      refine ⟨s, fun fuel hfuel => ?_⟩
      obtain ⟨fuel, rfl⟩ := Nat.exists_eq_succ_of_ne_zero (Nat.ne_of_gt hfuel)
      exact pollUsed_of_ready hlow hready fuel
  | succ n ih =>
      by_cases hnow : s.Ready q
      · refine ⟨s, fun fuel hfuel => ?_⟩
        obtain ⟨fuel, rfl⟩ := Nat.exists_eq_succ_of_ne_zero (Nat.ne_zero_of_lt hfuel)
        exact pollUsed_of_ready hlow hnow fuel
      · have hlow' : ((s.turn env).queues q).usedRing + 2 < 2 ^ 22 := by
          rw [(hlegal.sameDriver s).queues]
          exact hlow
        obtain ⟨t, ht⟩ := ih hlow' hready
        refine ⟨t, fun fuel hfuel => ?_⟩
        obtain ⟨fuel, rfl⟩ := Nat.exists_eq_succ_of_ne_zero (Nat.ne_zero_of_lt hfuel)
        rw [pollUsed_of_waiting hlow (not_not.mp hnow)]
        exact ht fuel (Nat.lt_of_succ_lt_succ hfuel)

theorem Serving.turns {I : QueueView → ByteMemory → Prop} (hlegal : Legal env)
    (hI : Steady s₀.dmaBuffer I) (h : Serving q s₀ I s) (n : ℕ) :
    Serving q s₀ I (s.turns env n) := by
  induction n generalizing s with
  | zero => exact h
  | succ n ih => exact ih (h.turn hlegal hI)

/-- As long as the used index has not moved, the device has the chain before it. -/
theorem Offered.pending {entry : InFlight} {w' : QueueView} (h : Offered dma w entry m w' m')
    (hrest : w.Rest) :
    w'.queue.lastUsedIdx = w.queue.lastUsedIdx ∧
      (w'.queue.usedIdx = w.queue.usedIdx ∧
        (w'.queue.availIdx ≠ w'.deviceIdx ∨ w'.taken ≠ []) ∨
      w'.queue.usedIdx = w.queue.usedIdx + 1) := by
  cases h with
  | waiting =>
      refine ⟨rfl, .inl ⟨rfl, .inl ?_⟩⟩
      change w.queue.availIdx + 1 ≠ w.deviceIdx
      rw [hrest.available]
      simp
  | working =>
      refine ⟨rfl, .inl ⟨rfl, .inr ?_⟩⟩
      exact List.append_ne_nil_of_right_ne_nil _ (List.cons_ne_nil _ _)
  | done => exact ⟨rfl, .inr rfl⟩

theorem Offered.size {entry : InFlight} {w' : QueueView} (h : Offered dma w entry m w' m') :
    w'.queue.size = w.queue.size := by
  cases h <;> rfl

theorem Serving.ready_iff {I : QueueView → ByteMemory → Prop} (h : Serving q s₀ I s) :
    s.Ready q ↔ (s.view q).queue.lastUsedIdx ≠ (s.view q).queue.usedIdx := by
  rw [h.queue]
  rfl

/-- An offered chain comes back. -/
theorem Serving.comes_back {entry : InFlight} (hlegal : Legal env) (hprompt : Prompt env)
    (hsend : w.Sendable s₀.dmaBuffer) (hpos : 0 < w.queue.size)
    (hused : w.queue.lastUsedIdx = w.queue.usedIdx)
    (h : Serving 0 s₀ (Offered s₀.dmaBuffer w entry m) s) : ∃ n, (s.turns env n).Ready 0 := by
  have hqueue := h.queue
  obtain ⟨hlast, ⟨hsame, hwork⟩ | hmoved⟩ := h.own.pending hsend.rest
  · have hworks : s.Works 0 := by
      refine ⟨h.enabled, ?_⟩
      have hsize : (s.queues 0).size = w.queue.size :=
        (congrArg Rings.size hqueue).symm.trans h.own.size
      rw [hsize]
      exact hpos
    rw [hqueue] at hsame hwork
    obtain ⟨n, hn⟩ := hprompt s hworks hwork
    refine ⟨n, ?_⟩
    have hlater := h.turns hlegal hsend.steady n
    obtain ⟨hlast', -⟩ := hlater.own.pending hsend.rest
    rw [hlater.ready_iff, hlast', hused, ← hsame, hlater.queue]
    exact fun heq => hn heq.symm
  · refine ⟨0, ?_⟩
    change s.Ready 0
    rw [h.ready_iff, hlast, hmoved, hused]
    simp

/-- A call returns, and always with the same outcome, once it may poll for long enough. -/
theorem Agreed.returns (h : Agreed s) (hplaced : s.Placed) (hsmall : (s.queues 0).size ≤ 256)
    (hlegal : Legal env) (hprompt : Prompt env) {cmd : List UInt8} {respSize : ℕ}
    (hfits : cmd.length + respSize ≤ 4096) :
    ∃ enough r t, ∀ fuel ≥ enough, virtqSendCommandSync env fuel 0 cmd respSize s = .ok r t := by
  have hclear := h.clear hplaced hsmall
  have hroom : (s.queues 0).Room := by
    refine ⟨(hplaced.framed 0 h.enabled).low, ?_, hsmall, Nat.lt_of_lt_of_le h.next hsmall⟩
    exact Nat.lt_of_lt_of_le Nat.two_pos h.size
  obtain ⟨addr, t, ht⟩ := submitCommand_returns hlegal hroom cmd respSize
  obtain ⟨-, hpos, hserving⟩ := (submitCommand_ends hlegal hclear hfits).ok ht
  obtain ⟨n, hn⟩ := hserving.comes_back hlegal hprompt
    (sendable_commandView h.rest hclear.size hfits) hpos h.ready
  have hlow := (hserving.placed.framed 0 hserving.enabled).low _ (Virtq.usedRing_mem _)
  obtain ⟨u, hu⟩ := pollUsed_returns hlegal (show _ < 2 ^ 22 by omega) hn
  obtain ⟨r, v, hv⟩ := ((total_modify _).bind fun _ => total_copyFromDma addr respSize :
    Total (do consumeUsed 0; copyFromDma env addr respSize : Driver (List UInt8))) u
  refine ⟨n + 1, r, v, fun fuel hfuel => ?_⟩
  rw [virtqSendCommandSync, bind_of_ok ht, bind_of_ok (hu fuel hfuel)]
  exact hv

/-! ## Any number of calls -/

theorem usedFrame_framesTaken {p : Pmm} {k : ℕ} (hgiven : ∀ j < k, frameGiven p j ≠ 0) (f : ℕ) :
    (framesTaken p k).UsedFrame f ↔ p.UsedFrame f ∨ ∃ j < k, f = frameGiven p j := by
  induction k with
  | zero => simp [framesTaken]
  | succ k ih =>
      have hused := (usedFrame_pmmAllocFrame (hgiven k (Nat.lt_succ_self k))).2.2.2 f
      have hnext : framesTaken p (k + 1) = (pmmAllocFrame (framesTaken p k)).2 :=
        Function.iterate_succ_apply' _ _ _
      rw [hnext, hused, ih fun j hj => hgiven j (Nat.lt_succ_of_lt hj), or_assoc]
      refine or_congr_right ⟨?_, ?_⟩
      · rintro (⟨j, hj, rfl⟩ | rfl)
        · exact ⟨j, Nat.lt_succ_of_lt hj, rfl⟩
        · exact ⟨k, Nat.lt_succ_self k, rfl⟩
      · rintro ⟨j, hj, rfl⟩
        obtain hlt | rfl := Nat.lt_succ_iff_lt_or_eq.mp hj
        · exact .inl ⟨j, hlt, rfl⟩
        · exact .inr rfl

/-- Six frames of low memory are free for the rings, and the buffer's frame is in use. -/
structure RoomForRings (s : Sound) : Prop where
  given : ∀ k < 6, frameGiven s.pmm k ≠ 0
  low : ∀ k < 6, frameGiven s.pmm k + 4096 ≤ 2 ^ 22
  buffer : s.pmm.UsedFrame s.dmaBuffer
  buffer_low : s.dmaBuffer + 4096 ≤ 2 ^ 32

/-- The frames that the allocator hands out are different, and none is the buffer's. -/
theorem RoomForRings.apart (h : RoomForRings s) {k : ℕ} (hk : k < 6) :
    PagesApart (frameGiven s.pmm k) s.dmaBuffer ∧
      ∀ j < k, PagesApart (frameGiven s.pmm k) (frameGiven s.pmm j) := by
  obtain ⟨haligned, -, hfresh, -⟩ := usedFrame_pmmAllocFrame (h.given k hk)
  have hbefore := usedFrame_framesTaken (p := s.pmm) (k := k)
    fun j hj => h.given j (Nat.lt_trans hj hk)
  have hused : ∀ f, f % 4096 = 0 → (framesTaken s.pmm k).UsedFrame f →
      PagesApart (frameGiven s.pmm k) f := by
    intro f hf hin
    have hne : frameGiven s.pmm k ≠ f := by
      rintro rfl
      exact hfresh hin
    change frameGiven s.pmm k % 4096 = 0 at haligned
    unfold PagesApart
    omega
  refine ⟨hused _ h.buffer.1 ((hbefore _).mpr (.inl h.buffer)), fun j hj => ?_⟩
  have hjgiven := usedFrame_pmmAllocFrame (h.given j (Nat.lt_trans hj hk))
  exact hused _ hjgiven.1 ((hbefore _).mpr (.inr ⟨j, hj, rfl⟩))

theorem RoomForRings.pair (h : RoomForRings s) {j k : ℕ} (hj : j < 6) (hk : k < 6)
    (hne : j ≠ k) : PagesApart (frameGiven s.pmm j) (frameGiven s.pmm k) := by
  rcases Nat.lt_or_gt_of_ne hne with hlt | hlt
  · exact ((h.apart hk).2 j hlt).symm
  · exact (h.apart hj).2 k hlt

/-- The queue in three frames from the `k`-th one on. -/
theorem parts_newQueue {p : Pmm} {k size a : ℕ} (ha : a ∈ (newQueue p k size).parts) :
    ∃ i < 3, a = frameGiven p (k + i) := by
  rcases List.mem_cons.mp ha with rfl | ha
  · exact ⟨0, by decide, rfl⟩
  rcases List.mem_cons.mp ha with rfl | ha
  · exact ⟨1, by decide, rfl⟩
  rw [List.mem_singleton.mp ha]
  exact ⟨2, by decide, rfl⟩

theorem RoomForRings.framed (h : RoomForRings s) {k : ℕ} (hk : k + 3 ≤ 6) (size : ℕ) :
    (newQueue s.pmm k size).Framed := by
  refine ⟨?_, ?_, ?_, ?_⟩
  · exact h.pair (by omega) (by omega) (by omega)
  · exact h.pair (by omega) (by omega) (by omega)
  · exact h.pair (by omega) (by omega) (by omega)
  · intro a ha
    obtain ⟨i, hi, rfl⟩ := parts_newQueue ha
    exact h.low _ (by omega)

/-- `virtio_sound_init` gives every part a frame of its own. -/
theorem SetUp.placed {s' : Sound} {notifyBase multiplier : ℕ}
    (h : SetUp s notifyBase multiplier s') (hroom : RoomForRings s) : s'.Placed := by
  have hqueue : ∀ q, s'.virtioSoundCfg.queueEnable q = true →
      ∃ k size, (q = 0 ∧ k = 0 ∨ q = 2 ∧ k = 3) ∧ s'.queues q = newQueue s.pmm k size := by
    intro q hq
    obtain rfl | rfl := (h.enabled q).mp hq
    · exact ⟨0, _, .inl ⟨rfl, rfl⟩, h.control⟩
    · exact ⟨3, _, .inr ⟨rfl, rfl⟩, h.playback⟩
  refine ⟨?_, ?_, ?_, ?_⟩
  · intro q hq
    obtain ⟨k, size, hk, hnew⟩ := hqueue q hq
    rw [hnew]
    exact hroom.framed (by omega) size
  · intro p q hp hq hne a ha b hb
    obtain ⟨j, _, hj, hnew⟩ := hqueue p hp
    obtain ⟨k, _, hk, hnew'⟩ := hqueue q hq
    rw [hnew] at ha
    rw [hnew'] at hb
    obtain ⟨i, hi, rfl⟩ := parts_newQueue ha
    obtain ⟨i', hi', rfl⟩ := parts_newQueue hb
    exact hroom.pair (by omega) (by omega) (by omega)
  · intro q hq a ha
    obtain ⟨k, _, hk, hnew⟩ := hqueue q hq
    rw [hnew] at ha
    obtain ⟨i, hi, rfl⟩ := parts_newQueue ha
    rw [h.dmaBuffer]
    exact (hroom.apart (by omega)).1
  · rw [h.dmaBuffer]
    exact hroom.buffer_low

/-- `virtio_sound_init` in clean frames leaves every queue at rest. -/
theorem SetUp.rest {s' : Sound} {notifyBase multiplier : ℕ}
    (h : SetUp s notifyBase multiplier s')
    (hclean : ∀ k ∈ [1, 2, 4], zeroIdx s.mem (frameGiven s.pmm k)) (q : ℕ) : (s'.view q).Rest := by
  have hzero : ∀ k ∈ [1, 2, 4], UInt16.ofNat (s.mem.get16 (frameGiven s.pmm k + 2)) = 0 :=
    fun k hk => (ofNat_get16_eq_zero _ _).mpr (hclean k hk)
  refine ⟨?_, congrFun h.idle.1 q, congrFun h.idle.2 q⟩
  change (s'.rings q).availIdx = s'.deviceIdx q
  unfold Sound.rings
  split
  case isTrue henabled =>
    rw [h.counters, h.mem]
    obtain rfl | rfl := (h.enabled q).mp henabled
    · rw [h.control]
      exact hzero 1 (by decide)
    · rw [h.playback]
      exact hzero 4 (by decide)
  case isFalse => rfl

theorem SetUp.agreed {s' : Sound} {notifyBase multiplier : ℕ}
    (h : SetUp s notifyBase multiplier s') (hsize : 2 ≤ s.virtioSoundCfg.queueSize 0)
    (hclean : ∀ k ∈ [1, 2, 4], zeroIdx s.mem (frameGiven s.pmm k)) : Agreed s' := by
  have hrest := h.rest hclean
  have hdevice : s'.deviceIdx 0 = 0 := congrFun h.counters 0
  have hzero : ∀ k ∈ [1, 2, 4], UInt16.ofNat (s.mem.get16 (frameGiven s.pmm k + 2)) = 0 :=
    fun k hk => (ofNat_get16_eq_zero _ _).mpr (hclean k hk)
  refine ⟨(h.enabled 0).mpr (.inl rfl), ?_, ?_, ?_, (hrest 0).taken, (hrest 0).inFlight,
    fun q _ => (hrest q).harmless, ?_, ?_⟩
  · rw [hdevice, h.control, h.mem]
    exact hzero 1 (by decide)
  · rw [hdevice, h.control, h.mem]
    exact hzero 2 (by decide)
  · rw [hdevice, h.control]
    rfl
  · rw [h.control]
    exact hsize
  · rw [h.control]
    exact Nat.lt_of_lt_of_le Nat.two_pos hsize

instance (s : Sound) (q : ℕ) : Decidable (s.Works q) := instDecidableAnd

theorem roomForRings_sampleSound (m : ByteMemory) : RoomForRings (sampleSound m) := by
  refine ⟨?_, ?_, ?_, ?_⟩
  · change ∀ k < 6, frameGiven (pmmInit (fun _ => 0) 0x1000000 0x200000) k ≠ 0
    decide +kernel
  · change ∀ k < 6, frameGiven (pmmInit (fun _ => 0) 0x1000000 0x200000) k + 4096 ≤ 2 ^ 22
    decide +kernel
  · change (pmmInit (fun _ => 0) 0x1000000 0x200000).UsedFrame 0x105000
    exact ⟨by decide, by decide +kernel, by decide +kernel⟩
  · exact show 0x105000 + 4096 ≤ 2 ^ 32 by decide

instance (a b : ℕ) : Decidable (PagesApart a b) := instDecidableOr

end MyOS
