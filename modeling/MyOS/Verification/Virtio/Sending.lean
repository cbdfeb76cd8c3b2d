import MyOS.Verification.Virtio.Device

/-! Sending on one queue while the others do no harm: what is known of the state at every step of
the driver, whatever the device does in between. -/

namespace MyOS

open Effect ByteMemory

/-- The driver works on queue `q` since state `s₀`, and `I` holds of the queue and of memory. -/
structure Serving (q : ℕ) (s₀ : Sound) (I : QueueView → ByteMemory → Prop) (s : Sound) : Prop where
  own : I (s.view q) s.mem
  enabled : s.virtioSoundCfg.queueEnable q = true
  placed : s.Placed
  dmaBuffer : s.dmaBuffer = s₀.dmaBuffer
  cfg : s.virtioSoundCfg = s₀.virtioSoundCfg
  harmless : ∀ p ≠ q, (s.view p).Harmless
  rest : ∀ p ≠ q, (s₀.view p).Rest → s.view p = s₀.view p
  kept : (∀ p ≠ q, (s₀.view p).Rest) → s.overwritten = s₀.overwritten

theorem SameBuffer.trans {dma : ℕ} {m m' m'' : ByteMemory} (h : SameBuffer dma m m')
    (h' : SameBuffer dma m' m'') : SameBuffer dma m m'' :=
  fun x hx => (h' x hx).trans (h x hx)

/-- Nothing changes on the queue and in the buffer. -/
def Fixed (dma : ℕ) (w : QueueView) (m : ByteMemory) : QueueView → ByteMemory → Prop :=
  fun w' m' => w' = w ∧ SameBuffer dma m m'

/-- What the device does on the queue stays in its place and keeps the invariant, which is about
the buffer only. -/
structure Steady (dma : ℕ) (I : QueueView → ByteMemory → Prop) : Prop where
  fits : ∀ ⦃w m⦄, I w m → w.Fits dma
  buffer : ∀ ⦃w m m'⦄, I w m → SameBuffer dma m m' → I w m'
  step : ∀ ⦃w m w' m'⦄, I w m → QueueStep dma w m w' m' → I w' m'

variable {q dma : ℕ} {s₀ s t : Sound} {env : Env} {w w' : QueueView} {m m' : ByteMemory}
  {I J : QueueView → ByteMemory → Prop}

theorem QueueView.Rest.steady (h : w.Rest) : Steady dma (Fixed dma w m) where
  fits := by
    rintro _ m' ⟨rfl, -⟩
    exact h.fits dma
  buffer := by
    rintro _ m₁ m₂ ⟨rfl, hm⟩ hsame
    exact ⟨rfl, hm.trans hsame⟩
  step := by
    rintro _ m₁ w₂ m₂ ⟨rfl, -⟩ hstep
    exact absurd hstep h.not_step

theorem serving_start (hplaced : s.Placed) (henabled : s.virtioSoundCfg.queueEnable q = true)
    (hothers : ∀ p ≠ q, (s.view p).Harmless) :
    Serving q s (Fixed s.dmaBuffer (s.view q) s.mem) s :=
  ⟨⟨rfl, fun _ _ => rfl⟩, henabled, hplaced, rfl, rfl, hothers, fun _ _ _ => rfl, fun _ => rfl⟩

/-- A step of the device, on this queue or on another one. -/
theorem Serving.step (hI : Steady s₀.dmaBuffer I)
    (h : Serving q s₀ I s) (hstep : DeviceStep s t) : Serving q s₀ I t := by
  have hdriver := hstep.sameDriver
  have hfits : ∀ p, (s.view p).Fits s.dmaBuffer := by
    intro p
    by_cases hpq : p = q
    · rw [hpq, h.dmaBuffer]
      exact hI.fits h.own
    · exact (h.harmless p hpq).fits _
  obtain ⟨p, hp, hothers⟩ := hstep.queueStep h.placed hfits
  have hcfg : t.virtioSoundCfg = s.virtioSoundCfg := hdriver.virtioSoundCfg
  have hplaced : t.Placed :=
    h.placed.congr (fun q => by rw [hdriver.queues]) hcfg hdriver.dmaBuffer
  have henabled : t.virtioSoundCfg.queueEnable q = true := by
    rw [hcfg]
    exact h.enabled
  have hdma : t.dmaBuffer = s₀.dmaBuffer := hdriver.dmaBuffer.trans h.dmaBuffer
  have hkept : (∀ p ≠ q, (s₀.view p).Rest) → t.overwritten = s₀.overwritten :=
    fun hrest => hdriver.overwritten.trans (h.kept hrest)
  rw [h.dmaBuffer] at hp
  by_cases hpq : p = q
  · subst hpq
    refine ⟨hI.step h.own hp, henabled, hplaced, hdma, hcfg.trans h.cfg, ?_, ?_, hkept⟩
    · intro r hr
      rw [hothers r hr]
      exact h.harmless r hr
    · intro r hr hrest
      rw [hothers r hr, h.rest r hr hrest]
  · obtain ⟨hharmless, hmem⟩ := (h.harmless p hpq).step hp
    refine ⟨?_, henabled, hplaced, hdma, hcfg.trans h.cfg, ?_, ?_, hkept⟩
    · rw [hothers q (Ne.symm hpq)]
      exact hI.buffer h.own hmem
    · intro r hr
      by_cases hrp : r = p
      · rw [hrp]
        exact hharmless
      · rw [hothers r hrp]
        exact h.harmless r hr
    · intro r hr hrest
      by_cases hrp : r = p
      · subst hrp
        rw [h.rest r hr hrest] at hp
        exact absurd hp hrest.not_step
      · rw [hothers r hrp, h.rest r hr hrest]

theorem Serving.path (hI : Steady s₀.dmaBuffer I) (h : Serving q s₀ I s)
    (hpath : Relation.ReflTransGen DeviceStep s t) : Serving q s₀ I t := by
  induction hpath with
  | refl => exact h
  | tail _ hstep ih => exact ih.step hI hstep

/-- And whatever it does until the driver goes on. -/
theorem Serving.turn (hlegal : Legal env) (hI : Steady s₀.dmaBuffer I) (h : Serving q s₀ I s) :
    Serving q s₀ I (s.turn env) := by
  have hpath := h.path hI (hlegal s.time s)
  exact ⟨hpath.own, hpath.enabled, hpath.placed.congr (fun _ => rfl) rfl rfl, hpath.dmaBuffer,
    hpath.cfg, hpath.harmless, hpath.rest, hpath.kept⟩

/-! ## Steps of the driver -/

/-- The driver never stops with something overwritten. -/
abbrev Spared (q : ℕ) (s₀ s : Sound) : Prop :=
  (∀ p ≠ q, (s₀.view p).Rest) → s.overwritten = s₀.overwritten

theorem turn_ends (hlegal : Legal env) (hI : Steady s₀.dmaBuffer I) (h : Serving q s₀ I s) :
    Ends (fun _ => Serving q s₀ I) (Spared q s₀) (turn env s) :=
  h.turn hlegal hI

/-- A step of the driver on this queue. -/
theorem Serving.drive (h : Serving q s₀ I s) (hown : J (t.view q) t.mem)
    (hparts : ∀ p, (t.queues p).parts = (s.queues p).parts)
    (hcfg : t.virtioSoundCfg = s.virtioSoundCfg) (hdma : t.dmaBuffer = s.dmaBuffer)
    (hothers : ∀ p ≠ q, t.view p = s.view p)
    (hkept : (∀ p ≠ q, (s.view p).inFlight = []) → t.overwritten = s.overwritten) :
    Serving q s₀ J t := by
  refine ⟨hown, ?_, h.placed.congr hparts hcfg hdma, hdma.trans h.dmaBuffer, hcfg.trans h.cfg,
    ?_, ?_, ?_⟩
  · rw [hcfg]
    exact h.enabled
  · intro p hp
    rw [hothers p hp]
    exact h.harmless p hp
  · intro p hp hrest
    rw [hothers p hp, h.rest p hp hrest]
  · intro hrest
    rw [hkept fun p hp => by rw [h.rest p hp (hrest p hp)]; exact (hrest p hp).inFlight,
      h.kept hrest]

theorem Serving.queue (h : Serving q s₀ I s) : (s.view q).queue = (s.queues q).rings s.mem :=
  Sound.view_queue h.enabled

/-- With nothing in flight a store hits nothing. -/
theorem overwritten_stored {a n : ℕ} (h : ∀ p, (s.view p).inFlight = []) :
    (s.stored a n m).overwritten = s.overwritten := by
  have hnone : ∀ p, s.inFlight p = [] := h
  have howns : ∀ x, s.owns x = false := by simp [Sound.owns, hnone]
  simp [Sound.stored, howns]

theorem clear_of_others (hown : (s.view q).inFlight = [])
    (hothers : ∀ p ≠ q, (s.view p).inFlight = []) (p : ℕ) : (s.view p).inFlight = [] := by
  by_cases hp : p = q
  · rw [hp]
    exact hown
  · exact hothers p hp

/-- A store to a frame of this queue, which then shows as `w'`. -/
theorem Serving.store {a b n : ℕ} (h : Serving q s₀ (Fixed s₀.dmaBuffer w m) s)
    (hclear : w.inFlight = []) (ha : a ∈ (s.queues q).parts)
    (hout : ∀ x, ¬InPage a x → m' x = s.mem x)
    (hw : { w with queue := (s.queues q).rings m' } = w') :
    Serving q s₀ (Fixed s₀.dmaBuffer w' m) (s.stored b n m') := by
  obtain ⟨hview, hmem⟩ := h.own
  refine h.drive ⟨?_, ?_⟩ (fun _ => rfl) rfl rfl (fun p hp => ?_) fun hothers => ?_
  · rw [← hw, ← hview]
    unfold Sound.view
    rw [Sound.rings_of_enabled (s := s.stored b n m') h.enabled]
    rfl
  · have hbuffer := h.placed.sameBuffer h.enabled ha hout
    rw [h.dmaBuffer] at hbuffer
    exact hmem.trans hbuffer
  · exact Sound.view_congr (Sound.rings_congr rfl rfl (h.placed.other h.enabled hp ha hout)) rfl
      rfl rfl rfl
  · exact overwritten_stored (clear_of_others (by rw [hview]; exact hclear) hothers)

/-- Memory with bytes written from an address on. -/
def storeBytes (m : ByteMemory) (a : ℕ) : List UInt8 → ByteMemory
  | [] => m
  | b :: bs => storeBytes (m.set8 a b) (a + 1) bs

theorem SameBuffer.set8 (h : SameBuffer dma m m') (a : ℕ) (b : UInt8) :
    SameBuffer dma (m.set8 a b) (m'.set8 a b) := by
  intro x hx
  rw [set8_apply, set8_apply, h x hx]

theorem writeDma_ends (hclear : w.inFlight = []) (h : Serving q s₀ (Fixed s₀.dmaBuffer w m) s)
    {i : ℕ} (hi : i < 4096) (b : UInt8) :
    Ends (fun _ => Serving q s₀ (Fixed s₀.dmaBuffer w (m.set8 (s₀.dmaBuffer + i) b)))
      (Spared q s₀) (writeDma i b s) := by
  obtain ⟨hview, hmem⟩ := h.own
  have hout : ∀ x, ¬InPage s.dmaBuffer x → s.mem.set8 (s.dmaBuffer + i) b x = s.mem x := by
    intro x hx
    unfold InPage at hx
    exact set8_of_ne _ _ (by omega)
  have hviews : ∀ p, (s.stored (s.dmaBuffer + i) 1 (s.mem.set8 (s.dmaBuffer + i) b)).view p =
      s.view p :=
    fun p => Sound.view_congr (Sound.rings_congr rfl rfl (h.placed.unaffected hout)) rfl rfl rfl
      rfl
  refine h.drive ⟨(hviews q).trans hview, ?_⟩ (fun _ => rfl) rfl rfl (fun p _ => hviews p)
    fun hothers => ?_
  · change SameBuffer s₀.dmaBuffer _ (s.mem.set8 (s.dmaBuffer + i) b)
    rw [h.dmaBuffer]
    exact hmem.set8 _ _
  · exact overwritten_stored (clear_of_others (by rw [hview]; exact hclear) hothers)

theorem copyToDma_ends (hlegal : Legal env) (hrest : w.Rest) (bytes : List UInt8) :
    ∀ (i : ℕ) (m : ByteMemory) (s : Sound), i + bytes.length ≤ 4096 →
      Serving q s₀ (Fixed s₀.dmaBuffer w m) s →
      Ends (fun _ => Serving q s₀
          (Fixed s₀.dmaBuffer w (storeBytes m (s₀.dmaBuffer + i) bytes)))
        (Spared q s₀) (copyToDma env i bytes s) := by
  induction bytes with
  | nil =>
      intro i m s _ h
      exact h
  | cons b bs ih =>
      intro i m s hlen h
      rw [List.length_cons] at hlen
      refine ends_bind (writeDma_ends hrest.inFlight h (by omega) b) fun _ t ht => ?_
      refine ends_bind (turn_ends hlegal hrest.steady ht) fun _ u hu => ?_
      exact ih (i + 1) _ u (by omega) hu

theorem ends_touch_end {Q : Unit → Sound → Prop} {E : Sound → Prop} {a : ℕ} (hE : E s)
    (hf : Q () s) : Ends Q E (touch a s) := by
  by_cases ha : a < 2 ^ 22
  · rw [touch_of_low ha s]
    exact hf
  · rw [show touch a s = .error (.pageFault a) s from if_neg ha]
    exact hE

theorem ends_touch_bind {α : Type} {Q : α → Sound → Prop} {E : Sound → Prop} {a : ℕ}
    {f : Unit → Driver α} (hE : E s) (hf : Ends Q E (f () s)) : Ends Q E ((touch a >>= f) s) := by
  have htouch : Ends (fun _ t => t = s) E (touch a s) := ends_touch_end hE rfl
  refine ends_bind htouch ?_
  rintro ⟨⟩ t rfl
  exact hf

/-- The queue with another descriptor table. -/
def QueueView.withDesc (w : QueueView) (i : ℕ) (d : VirtqDesc) : QueueView :=
  { w with queue := { w.queue with desc := Function.update w.queue.desc i d } }

theorem QueueView.Rest.withDesc (h : w.Rest) (i : ℕ) (d : VirtqDesc) : (w.withDesc i d).Rest :=
  ⟨h.available, h.taken, h.inFlight⟩

theorem writeDesc_ends (hclear : w.inFlight = []) (h : Serving q s₀ (Fixed s₀.dmaBuffer w m) s)
    {i : ℕ} (hi : i < 256) {d : VirtqDesc} (hd : d.Encodable) :
    Ends (fun _ => Serving q s₀ (Fixed s₀.dmaBuffer (w.withDesc i d) m)) (Spared q s₀)
      (writeDesc q i d s) := by
  refine ends_get_bind (ends_touch_bind h.kept ?_)
  refine h.store hclear (Virtq.descTable_mem _) (fun x hx => Virtq.setDesc_inPage hi hx) ?_
  rw [Virtq.rings_setDesc (h.placed.framed q h.enabled) hi hd, ← h.queue, h.own.1]
  rfl

/-! ## A chain on its way -/

namespace QueueView

/-- The head of the chain is in the available ring. -/
def withRing (w : QueueView) (head : ℕ) : QueueView :=
  { w with
    queue :=
      { w.queue with
        availRing := Function.update w.queue.availRing (w.queue.availIdx.toNat % w.queue.size)
          head } }

/-- The index of the ring makes it visible. -/
def offer (w : QueueView) (entry : InFlight) : QueueView :=
  { w with
    queue := { w.queue with availIdx := w.queue.availIdx + 1 }
    inFlight := w.inFlight ++ [entry] }

def withNext (w : QueueView) (idx : ℕ) : QueueView :=
  { w with queue := { w.queue with nextAvailIdx := idx } }

/-- The device has taken the chain and put it on the used ring; `m₁` and `m₂` are the memory at
these times. -/
def answered (w : QueueView) (entry : InFlight) (m₁ m₂ : ByteMemory) : QueueView :=
  ((w.offer entry).fetch m₁).complete m₂ 0 (w.next m₁)

end QueueView

/-- How far the device is with the only chain of the queue. -/
inductive Offered (dma : ℕ) (w : QueueView) (entry : InFlight) (m₀ : ByteMemory) :
    QueueView → ByteMemory → Prop where
  | waiting (m : ByteMemory) : SameBuffer dma m₀ m → Offered dma w entry m₀ (w.offer entry) m
  | working (m₁ m : ByteMemory) : SameBuffer dma m₀ m₁ →
      Offered dma w entry m₀ ((w.offer entry).fetch m₁) m
  | done (m₁ m₂ m : ByteMemory) : SameBuffer dma m₀ m₁ → SameBuffer dma m₂ m →
      Offered dma w entry m₀ (w.answered entry m₁ m₂) m

/-- The chain of the queue leads the device to descriptors that fit the page. -/
structure QueueView.Sendable (w : QueueView) (dma : ℕ) : Prop where
  rest : w.Rest
  size : w.queue.size ≤ 256
  chain : ∀ d ∈ w.chain, d.writable → d.Within dma

/-- The device takes the chain once, and puts it on the used ring once. -/
theorem QueueView.Sendable.steady {entry : InFlight} {m₀ : ByteMemory} (h : w.Sendable dma) :
    Steady dma (Offered dma w entry m₀) := by
  have hnone : (w.offer entry).taken = [] := h.rest.taken
  have hone : ∀ m₁, ((w.offer entry).fetch m₁).taken = [w.next m₁] := by
    intro m₁
    change w.taken ++ [w.next m₁] = _
    rw [h.rest.taken, List.nil_append]
  have hempty : ∀ m₁ m₂, (w.answered entry m₁ m₂).taken = [] := by
    intro m₁ m₂
    change (w.taken ++ [w.next m₁]).eraseIdx 0 = []
    rw [h.rest.taken]
    rfl
  have hcaught : ∀ m₁, ((w.offer entry).fetch m₁).queue.availIdx =
      ((w.offer entry).fetch m₁).deviceIdx := by
    intro m₁
    change w.queue.availIdx + 1 = w.deviceIdx + 1
    rw [h.rest.available]
  refine ⟨?_, ?_, ?_⟩
  · intro w₁ m hin
    cases hin with
    | waiting => exact ⟨by simp [hnone], .inl h.size⟩
    | working m₁ =>
        refine ⟨?_, .inl h.size⟩
        intro c hc
        rw [hone] at hc
        rw [List.mem_singleton.mp hc]
        exact h.chain
    | done m₁ m₂ => exact ⟨by simp [hempty], .inl h.size⟩
  · intro w₁ m m' hin hsame
    cases hin with
    | waiting _ hm => exact .waiting _ (hm.trans hsame)
    | working m₁ _ hm => exact .working m₁ _ hm
    | done m₁ m₂ _ hm hm' => exact .done m₁ m₂ _ hm (hm'.trans hsame)
  · intro w₁ m w₂ m' hin hstep
    cases hin with
    | waiting _ hm =>
        cases hstep with
        | fetch => exact .working _ _ hm
        | write c d a b hc => simp [hnone] at hc
        | complete j c m' hc => simp [hnone] at hc
    | working m₁ _ hm =>
        cases hstep with
        | fetch havail => exact absurd (hcaught m₁) havail
        | write => exact .working m₁ _ hm
        | complete j c m' hc hsame =>
            rw [hone] at hc
            obtain ⟨rfl, hnext⟩ : j = 0 ∧ w.next m₁ = c := by
              cases j with
              | zero => simpa using hc
              | succ j => simp at hc
            rw [← hnext]
            exact .done m₁ _ _ hm hsame
    | done m₁ m₂ _ hm hm' =>
        cases hstep with
        | fetch havail => exact absurd (hcaught m₁) havail
        | write c d a b hc => simp [hempty] at hc
        | complete j c m' hc => simp [hempty] at hc

theorem writeAvail_ends (hclear : w.inFlight = []) (hpos : 0 < w.queue.size)
    (hsize : w.queue.size ≤ 256) (h : Serving q s₀ (Fixed s₀.dmaBuffer w m) s) {head : ℕ}
    (hhead : head < 256) :
    Ends (fun _ => Serving q s₀ (Fixed s₀.dmaBuffer (w.withRing head) m)) (Spared q s₀)
      (writeAvail q head s) := by
  have hqueue : w.queue = (s.queues q).rings s.mem := by
    rw [← h.own.1]
    exact h.queue
  have hslot : ((s.queues q).availIdx s.mem).toNat % (s.queues q).size < 256 := by
    rw [hqueue] at hpos hsize
    exact Nat.lt_of_lt_of_le (Nat.mod_lt _ hpos) hsize
  refine ends_get_bind (ends_touch_bind h.kept ?_)
  refine h.store hclear (Virtq.availRing_mem _) (fun x hx => Virtq.setAvail_inPage hslot hx) ?_
  rw [Virtq.rings_setAvail (h.placed.framed q h.enabled) hslot hhead, QueueView.withRing, hqueue]
  rfl

/-- The store of the index, which makes the chain visible. -/
theorem publish_ends (hclear : w.inFlight = []) (h : Serving q s₀ (Fixed s₀.dmaBuffer w m) s)
    (entry : InFlight) :
    Ends (fun _ => Serving q s₀ (Offered s₀.dmaBuffer w entry m)) (Spared q s₀)
      (publish q entry s) := by
  obtain ⟨b, hb⟩ : ∃ b, b = (s.queues q).availRing + 2 := ⟨_, rfl⟩
  obtain ⟨m', hm'⟩ : ∃ m', m' = s.mem.set16 b (((s.queues q).availIdx s.mem).toNat + 1) :=
    ⟨_, rfl⟩
  have hstored : Serving q s₀ (Fixed s₀.dmaBuffer
      { w with queue := { w.queue with availIdx := w.queue.availIdx + 1 } } m)
      (s.stored b 2 m') := by
    refine h.store hclear (Virtq.availRing_mem _) (fun x hx => ?_) ?_
    · rw [hm', hb]
      exact Virtq.setAvailIdx_inPage hx
    · rw [hm', hb, Virtq.rings_publish (h.placed.framed q h.enabled), ← h.queue, h.own.1]
  have hend : publish q entry s = .ok () { s.stored b 2 m' with
      inFlight := Function.update s.inFlight q (s.inFlight q ++ [entry]) } := by
    rw [hm', hb]
    rfl
  rw [hend]
  obtain ⟨hview, hmem⟩ := hstored.own
  have hflight : s.inFlight q = w.inFlight := congrArg QueueView.inFlight h.own.1
  refine hstored.drive ?_ (fun _ => rfl) rfl rfl (fun p hp => ?_) fun _ => rfl
  · have hoffer : ∀ x : Sound, x.view q = w.offer entry → x.mem = m' →
        Offered s₀.dmaBuffer w entry m (x.view q) x.mem := by
      intro x hx hm
      rw [hx, hm]
      exact .waiting _ hmem
    refine hoffer _ ?_ rfl
    have hrings : (s.stored b 2 m').rings q = (w.offer entry).queue :=
      congrArg QueueView.queue hview
    have hdevice : s.deviceIdx q = w.deviceIdx := congrArg QueueView.deviceIdx h.own.1
    have htaken : s.taken q = w.taken := congrArg QueueView.taken h.own.1
    have hserved : s.served q = w.served := congrArg QueueView.served h.own.1
    change (⟨(s.stored b 2 m').rings q, s.deviceIdx q, s.taken q, s.served q,
      Function.update s.inFlight q (s.inFlight q ++ [entry]) q⟩ : QueueView) = _
    rw [hrings, hdevice, htaken, hserved, Function.update_self, hflight]
    rfl
  · exact Sound.view_congr rfl rfl rfl rfl (Function.update_of_ne hp _ _)

theorem makeAvailable_ends (hlegal : Legal env) {head : ℕ}
    (hsend : (w.withRing head).Sendable s₀.dmaBuffer) (hpos : 0 < w.queue.size)
    (hhead : head < 256) (h : Serving q s₀ (Fixed s₀.dmaBuffer w m) s) (entry : InFlight) :
    Ends (fun _ => Serving q s₀ (Offered s₀.dmaBuffer (w.withRing head) entry m)) (Spared q s₀)
      (makeAvailable env q head entry s) := by
  have hclear : w.inFlight = [] := hsend.rest.inFlight
  refine ends_bind (writeAvail_ends hclear hpos hsend.size h hhead) fun _ t ht => ?_
  refine ends_bind (turn_ends hlegal hsend.rest.steady ht) fun _ u hu => ?_
  refine ends_bind (publish_ends hsend.rest.inFlight hu entry) fun _ v hv => ?_
  exact turn_ends hlegal hsend.steady hv

/-- Counters of the driver change, and nothing in memory. -/
theorem Serving.count (h : Serving q s₀ I s) {v : Virtq} (hparts : v.parts = (s.queues q).parts)
    (hown : J { s.view q with queue := v.rings s.mem } s.mem) :
    Serving q s₀ J { s with queues := Function.update s.queues q v } := by
  have hrings : ({ s with queues := Function.update s.queues q v } : Sound).rings q =
      v.rings s.mem := by
    rw [Sound.rings_of_enabled (s := { s with queues := Function.update s.queues q v }) h.enabled]
    exact congrArg (Virtq.rings · s.mem) (Function.update_self q v s.queues)
  refine h.drive ?_ (fun p => ?_) rfl rfl (fun p hp => ?_) fun _ => rfl
  · unfold Sound.view
    rw [hrings]
    exact hown
  · by_cases hp : p = q
    · subst hp
      exact (congrArg Virtq.parts (Function.update_self p v s.queues)).trans hparts
    · exact congrArg Virtq.parts (Function.update_of_ne hp v s.queues)
  · refine Sound.view_congr (Sound.rings_congr rfl rfl fun _ => ?_) rfl rfl rfl rfl
    exact congrArg (Virtq.rings · s.mem) (Function.update_of_ne hp v s.queues)

theorem Offered.withNext {entry : InFlight} {m₀ : ByteMemory}
    (h : Offered dma w entry m₀ w' m') (idx : ℕ) :
    Offered dma (w.withNext idx) entry m₀ (w'.withNext idx) m' := by
  cases h with
  | waiting _ hm => exact .waiting _ hm
  | working m₁ _ hm => exact .working m₁ _ hm
  | done m₁ m₂ _ hm hm' => exact .done m₁ m₂ _ hm hm'

theorem setNextAvailIdx_ends {entry : InFlight}
    (h : Serving q s₀ (Offered s₀.dmaBuffer w entry m) s) (idx : ℕ) :
    Ends (fun _ => Serving q s₀ (Offered s₀.dmaBuffer (w.withNext idx) entry m)) (Spared q s₀)
      (setNextAvailIdx q idx s) := by
  refine h.count (v := { s.queues q with nextAvailIdx := idx }) rfl ?_
  have hqueue : Virtq.rings { s.queues q with nextAvailIdx := idx } s.mem =
      { (s.view q).queue with nextAvailIdx := idx } := by
    rw [h.queue]
    rfl
  rw [hqueue]
  exact h.own.withNext idx

theorem notifyQueue_ends (h : Serving q s₀ I s) (p : ℕ) :
    Ends (fun _ => Serving q s₀ I) (Spared q s₀) (notifyQueue p s) :=
  h.drive h.own (fun _ => rfl) rfl rfl (fun _ _ => rfl) fun _ => rfl

/-- The queue after the chain has come back is at rest again. -/
theorem QueueView.Rest.answered {entry : InFlight} (h : w.Rest)
    (hentry : entry.descs.head? = some w.head) (m₁ m₂ : ByteMemory) :
    (w.answered entry m₁ m₂).Rest := by
  refine ⟨?_, ?_, ?_⟩
  · change w.queue.availIdx + 1 = w.deviceIdx + 1
    rw [h.available]
  · change (w.taken ++ [w.next m₁]).eraseIdx 0 = []
    rw [h.taken]
    rfl
  · change (w.inFlight ++ [entry]).eraseP (fun f => f.descs.head? = some w.head) = []
    rw [h.inFlight, List.nil_append, List.eraseP_cons_of_pos (by simpa using hentry)]

end MyOS
