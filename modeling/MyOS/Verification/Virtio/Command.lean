import MyOS.Verification.Virtio.Sending
import MyOS.Verification.Virtio.Setup

/-! `virtq_send_command_sync` as a whole: where a call ends, and with what answer. -/

namespace MyOS

open Effect ByteMemory

variable {q dma : ℕ} {s₀ s t : Sound} {env : Env} {w w' : QueueView} {m m' m₀ : ByteMemory}
  {I : QueueView → ByteMemory → Prop} {entry : InFlight}

/-- The driver can send on the queue: it fits its frames, and nothing is under way on it. -/
structure Clear (q : ℕ) (s : Sound) : Prop where
  placed : s.Placed
  enabled : s.virtioSoundCfg.queueEnable q = true
  rest : (s.view q).Rest
  others : ∀ p ≠ q, (s.view p).Harmless
  size : (s.view q).queue.size ≤ 256
  next : (s.view q).queue.nextAvailIdx < 256

theorem Clear.start (h : Clear q s) : Serving q s (Fixed s.dmaBuffer (s.view q) s.mem) s :=
  serving_start h.placed h.enabled h.others

/-- The two descriptors of a command. -/
def commandDesc (dma cmdSize respIdx : ℕ) : VirtqDesc := ⟨dma, cmdSize, virtqDescFNext, respIdx⟩

def responseDesc (dma cmdSize respSize : ℕ) : VirtqDesc :=
  ⟨dma + cmdSize, respSize, virtqDescFWrite, 0⟩

theorem encodable_commandDesc {cmdSize respIdx : ℕ} (hlow : dma + 4096 ≤ 2 ^ 32)
    (hcmd : cmdSize ≤ 4096) (hresp : respIdx < 256) :
    (commandDesc dma cmdSize respIdx).Encodable := by
  refine ⟨?_, ?_, show virtqDescFNext < 2 ^ 16 by decide, ?_⟩
  · change dma < 2 ^ 64
    omega
  · change cmdSize < 2 ^ 32
    omega
  · change respIdx < 2 ^ 16
    omega

theorem encodable_responseDesc {cmdSize respSize : ℕ} (hlow : dma + 4096 ≤ 2 ^ 32)
    (hfits : cmdSize + respSize ≤ 4096) : (responseDesc dma cmdSize respSize).Encodable := by
  refine ⟨?_, ?_, show virtqDescFWrite < 2 ^ 16 by decide, show 0 < 2 ^ 16 by decide⟩
  · change dma + cmdSize < 2 ^ 64
    omega
  · change respSize < 2 ^ 32
    omega

/-- The queue with the chain of a command in the table and in the available ring. -/
def commandRing (w : QueueView) (dma cmdSize respSize : ℕ) : QueueView :=
  let headIdx := w.queue.nextAvailIdx
  let respIdx := (headIdx + 1) % w.queue.size
  ((w.withDesc headIdx (commandDesc dma cmdSize respIdx)).withDesc respIdx
    (responseDesc dma cmdSize respSize)).withRing headIdx

/-- The queue when the chain of a command is offered. -/
def commandView (w : QueueView) (dma cmdSize respSize : ℕ) : QueueView :=
  (commandRing w dma cmdSize respSize).withNext
    (((w.queue.nextAvailIdx + 1) % w.queue.size + 1) % w.queue.size)

/-- And what is in flight then. -/
def commandEntry (w : QueueView) (dma cmdSize respSize : ℕ) : InFlight :=
  ⟨[w.queue.nextAvailIdx, (w.queue.nextAvailIdx + 1) % w.queue.size],
    [(dma, cmdSize), (dma + cmdSize, respSize)]⟩

theorem QueueView.Rest.commandRing (h : w.Rest) (dma cmdSize respSize : ℕ) :
    (commandRing w dma cmdSize respSize).Rest :=
  ⟨h.available, h.taken, h.inFlight⟩

theorem head_withRing (h : w.Rest) (head : ℕ) : (w.withRing head).head = head := by
  change Function.update w.queue.availRing (w.queue.availIdx.toNat % w.queue.size) head
    (w.deviceIdx.toNat % w.queue.size) = head
  rw [h.available, Function.update_self]

theorem head_commandRing (h : w.Rest) (dma cmdSize respSize : ℕ) :
    (commandRing w dma cmdSize respSize).head = w.queue.nextAvailIdx :=
  head_withRing (w := (w.withDesc _ _).withDesc _ _) ((h.withDesc _ _).withDesc _ _) _

theorem QueueView.Sendable.withNext (h : w.Sendable dma) (idx : ℕ) :
    (w.withNext idx).Sendable dma :=
  ⟨⟨h.rest.available, h.rest.taken, h.rest.inFlight⟩, h.size, h.chain⟩

/-- From the command the device gets to the response and no further. -/
theorem mem_walk_command {desc : ℕ → VirtqDesc} {dma cmdSize respSize head resp size : ℕ}
    (hhead : desc head = commandDesc dma cmdSize resp ∨
      desc head = responseDesc dma cmdSize respSize)
    (hresp : desc resp = responseDesc dma cmdSize respSize) (n : ℕ) :
    ∀ d ∈ walkChain desc size n head, d = commandDesc dma cmdSize resp ∨
      d = responseDesc dma cmdSize respSize := by
  have hlast : ∀ n i, desc i = responseDesc dma cmdSize respSize →
      ∀ d ∈ walkChain desc size n i, d = responseDesc dma cmdSize respSize := by
    intro n i hi d hd
    cases n with
    | zero => simp [walkChain] at hd
    | succ n =>
        rw [walkChain, hi] at hd
        split at hd
        · simpa [responseDesc, virtqDescFWrite] using hd
        · simp at hd
  intro d hd
  obtain hhead | hhead := hhead
  · cases n with
    | zero => simp [walkChain] at hd
    | succ n =>
        rw [walkChain, hhead] at hd
        split at hd
        · rcases List.mem_cons.mp hd with rfl | hd
          · exact .inl rfl
          · exact .inr (hlast n resp hresp d (by simpa [commandDesc, virtqDescFNext] using hd))
        · simp at hd
  · exact .inr (hlast n head hhead d hd)

theorem mem_chain_commandRing (h : w.Rest) (dma cmdSize respSize : ℕ) :
    ∀ d ∈ (commandRing w dma cmdSize respSize).chain,
      d = commandDesc dma cmdSize ((w.queue.nextAvailIdx + 1) % w.queue.size) ∨
        d = responseDesc dma cmdSize respSize := by
  rw [QueueView.chain, head_commandRing h]
  refine mem_walk_command ?_ (Function.update_self _ _ _) _
  change Function.update (Function.update w.queue.desc w.queue.nextAvailIdx _) _ _ _ = _ ∨
    Function.update (Function.update w.queue.desc w.queue.nextAvailIdx _) _ _ _ = _
  by_cases heq : w.queue.nextAvailIdx = (w.queue.nextAvailIdx + 1) % w.queue.size
  · rw [← heq]
    exact .inr (Function.update_self _ _ _)
  · rw [Function.update_of_ne heq, Function.update_self]
    exact .inl rfl

theorem sendable_commandRing (h : w.Rest) (hsize : w.queue.size ≤ 256) {cmdSize respSize : ℕ}
    (hfits : cmdSize + respSize ≤ 4096) :
    (commandRing w dma cmdSize respSize).Sendable dma := by
  refine ⟨h.commandRing _ _ _, hsize, fun d hd hwrite => ?_⟩
  rcases mem_chain_commandRing h dma cmdSize respSize d hd with rfl | rfl
  · simp [commandDesc, VirtqDesc.writable, virtqDescFNext] at hwrite
  · unfold VirtqDesc.Within responseDesc
    simp only
    omega

theorem sendable_commandView (h : w.Rest) (hsize : w.queue.size ≤ 256) {cmdSize respSize : ℕ}
    (hfits : cmdSize + respSize ≤ 4096) :
    (commandView w dma cmdSize respSize).Sendable dma :=
  (sendable_commandRing h hsize hfits).withNext _

/-- Up to the polling loop. -/
theorem submitCommand_ends (hlegal : Legal env) (h : Clear q s) {cmd : List UInt8}
    {respSize : ℕ} (hfits : cmd.length + respSize ≤ 4096) :
    Ends (fun r t => r = s.dmaBuffer + cmd.length ∧ 0 < (s.view q).queue.size ∧
        Serving q s (Offered s.dmaBuffer
          (commandView (s.view q) s.dmaBuffer cmd.length respSize)
          (commandEntry (s.view q) s.dmaBuffer cmd.length respSize)
          (storeBytes s.mem s.dmaBuffer cmd)) t)
      (Spared q s) (submitCommand env q cmd respSize s) := by
  have hrest := h.rest
  refine ends_bind (copyToDma_ends hlegal hrest cmd 0 s.mem s (by omega) h.start)
    fun _ t ht => ?_
  unfold offerCommand
  refine ends_get_bind ?_
  have hqueue := ht.queue.symm.trans (congrArg QueueView.queue ht.own.1)
  have hnext : (t.queues q).nextAvailIdx = (s.view q).queue.nextAvailIdx :=
    congrArg Rings.nextAvailIdx hqueue
  have hsize : (t.queues q).size = (s.view q).queue.size := congrArg Rings.size hqueue
  simp only [hnext, hsize, ht.dmaBuffer]
  split
  case isTrue => exact ht.kept
  case isFalse hzero =>
    have hpos : 0 < (s.view q).queue.size := Nat.pos_of_ne_zero hzero
    have hresp : ((s.view q).queue.nextAvailIdx + 1) % (s.view q).queue.size < 256 :=
      Nat.lt_of_lt_of_le (Nat.mod_lt _ hpos) h.size
    have hcommand := encodable_commandDesc h.placed.low (show cmd.length ≤ 4096 by omega) hresp
    have hresponse := encodable_responseDesc h.placed.low hfits
    refine ends_bind (writeDesc_ends hrest.inFlight ht h.next hcommand) fun _ u hu => ?_
    have hfirst := fun i d => hrest.withDesc i d
    refine ends_bind (turn_ends hlegal (hfirst _ _).steady hu) fun _ u hu => ?_
    refine ends_bind (writeDesc_ends (hfirst _ _).inFlight hu hresp hresponse) fun _ u hu => ?_
    have hsecond := fun i d j e => (hfirst i d).withDesc j e
    refine ends_bind (turn_ends hlegal (hsecond _ _ _ _).steady hu) fun _ u hu => ?_
    refine ends_bind (makeAvailable_ends hlegal (sendable_commandRing hrest h.size hfits) hpos
      h.next hu _) fun _ u hu => ?_
    refine ends_bind (setNextAvailIdx_ends hu _) fun _ u hu => ?_
    refine ends_bind (notifyQueue_ends hu q) fun _ u hu => ?_
    exact ⟨rfl, hpos, hu⟩

/-- The polling loop is left only when the used index has moved. -/
theorem pollUsed_ends (hlegal : Legal env) (hI : Steady s₀.dmaBuffer I) (fuel : ℕ) :
    ∀ s, Serving q s₀ I s →
      Ends (fun _ t => Serving q s₀ I t ∧
          (t.view q).queue.lastUsedIdx ≠ (t.view q).queue.usedIdx)
        (Spared q s₀) (pollUsed env q fuel s) := by
  induction fuel with
  | zero =>
      intro s h
      exact h.kept
  | succ fuel ih =>
      intro s h
      refine ends_get_bind (ends_touch_bind h.kept ?_)
      split
      case isTrue =>
        exact ends_bind (turn_ends hlegal hI h) fun _ t ht => ih t ht
      case isFalse hready =>
        refine ⟨h, ?_⟩
        rw [h.queue]
        exact hready

/-- When it has moved, the chain is on the used ring. -/
theorem Offered.resolve (h : Offered dma w entry m₀ w' m')
    (hused : w.queue.lastUsedIdx = w.queue.usedIdx)
    (hready : w'.queue.lastUsedIdx ≠ w'.queue.usedIdx) :
    ∃ m₁ m₂, SameBuffer dma m₀ m₁ ∧ SameBuffer dma m₂ m' ∧ w' = w.answered entry m₁ m₂ := by
  cases h with
  | waiting => exact absurd hused hready
  | working => exact absurd hused hready
  | done m₁ m₂ _ hm hm' => exact ⟨m₁, m₂, hm, hm', rfl⟩

/-- The queue after `last_used_idx++`. -/
def QueueView.consumed (w : QueueView) : QueueView :=
  { w with queue := { w.queue with lastUsedIdx := w.queue.lastUsedIdx + 1 } }

theorem QueueView.Rest.consumed (h : w.Rest) : w.consumed.Rest :=
  ⟨h.available, h.taken, h.inFlight⟩

theorem consumeUsed_ends (h : Serving q s₀ (Fixed s₀.dmaBuffer w m) s) :
    Ends (fun _ => Serving q s₀ (Fixed s₀.dmaBuffer w.consumed m)) (Spared q s₀)
      (consumeUsed q s) := by
  refine h.count (v := { s.queues q with lastUsedIdx := (s.queues q).lastUsedIdx + 1 }) rfl
    ⟨?_, h.own.2⟩
  rw [← h.own.1, QueueView.consumed, h.queue]
  rfl

theorem bytesAt_succ (m : ByteMemory) (addr n : ℕ) :
    bytesAt m addr (n + 1) = bytesAt m addr n ++ [m (addr + n)] := by
  simp [bytesAt, List.range_succ]

theorem bytesAt_congr {a n : ℕ} (h : SameBuffer dma m m') (hfirst : dma ≤ a)
    (hlast : a + n ≤ dma + 4096) : bytesAt m' a n = bytesAt m a n := by
  refine List.map_congr_left fun i hi => ?_
  have hlt : i < n := List.mem_range.mp hi
  exact h _ ⟨by omega, by omega⟩

theorem copyFromDma_ends (hlegal : Legal env) (hrest : w.Rest)
    (h : Serving q s₀ (Fixed s₀.dmaBuffer w m) s) {addr n : ℕ} (hfirst : s₀.dmaBuffer ≤ addr)
    (hlast : addr + n ≤ s₀.dmaBuffer + 4096) :
    Ends (fun r t => r = bytesAt m addr n ∧ Serving q s₀ (Fixed s₀.dmaBuffer w m) t)
      (Spared q s₀) (copyFromDma env addr n s) := by
  induction n with
  | zero => exact ⟨rfl, h⟩
  | succ n ih =>
      refine ends_bind (ih (by omega)) ?_
      rintro _ t ⟨rfl, ht⟩
      refine ends_get_bind ?_
      refine ends_bind (turn_ends hlegal hrest.steady ht) fun _ u hu => ?_
      refine ⟨?_, hu⟩
      rw [bytesAt_succ, ht.own.2 _ ⟨by omega, by omega⟩]

/-- The state after a call that has returned `r`: the device has taken the chain when memory was
`m₁` and put it on the used ring when it was `m₂`. -/
def Called (q : ℕ) (s : Sound) (cmd : List UInt8) (respSize : ℕ) (r : List UInt8)
    (t : Sound) : Prop :=
  0 < (s.view q).queue.size ∧ ∃ m₁ m₂, SameBuffer s.dmaBuffer (storeBytes s.mem s.dmaBuffer cmd) m₁ ∧
    Serving q s (Fixed s.dmaBuffer ((commandView (s.view q) s.dmaBuffer cmd.length
      respSize).answered (commandEntry (s.view q) s.dmaBuffer cmd.length respSize) m₁
        m₂).consumed m₂) t ∧
    r = bytesAt m₂ (s.dmaBuffer + cmd.length) respSize

theorem commandEntry_head (h : w.Rest) (dma cmdSize respSize : ℕ) :
    (commandEntry w dma cmdSize respSize).descs.head? =
      some (commandView w dma cmdSize respSize).head :=
  congrArg some (head_commandRing h dma cmdSize respSize).symm

/-- Where a call ends, whatever the device does. -/
theorem virtqSendCommandSync_ends (hlegal : Legal env) (h : Clear q s)
    (hused : (s.view q).queue.lastUsedIdx = (s.view q).queue.usedIdx) (fuel : ℕ)
    {cmd : List UInt8} {respSize : ℕ} (hfits : cmd.length + respSize ≤ 4096) :
    Ends (Called q s cmd respSize) (Spared q s)
      (virtqSendCommandSync env fuel q cmd respSize s) := by
  refine ends_bind (submitCommand_ends hlegal h hfits) ?_
  rintro _ t ⟨rfl, hpos, ht⟩
  have hsend : (commandView (s.view q) s.dmaBuffer cmd.length respSize).Sendable s.dmaBuffer :=
    sendable_commandView h.rest h.size hfits
  refine ends_bind (pollUsed_ends hlegal hsend.steady fuel t ht) ?_
  rintro _ u ⟨hu, hready⟩
  obtain ⟨m₁, m₂, hm₁, hm₂, hview⟩ := hu.own.resolve hused hready
  have hback := hsend.rest.answered (commandEntry_head h.rest s.dmaBuffer cmd.length respSize)
    m₁ m₂
  have hfixed : Serving q s (Fixed s.dmaBuffer _ m₂) u :=
    ⟨⟨hview, hm₂⟩, hu.enabled, hu.placed, hu.dmaBuffer, hu.cfg, hu.harmless, hu.rest, hu.kept⟩
  refine ends_bind (consumeUsed_ends hfixed) fun _ v hv => ?_
  refine (copyFromDma_ends hlegal hback.consumed hv (Nat.le_add_right _ _) (by omega)).mono ?_
  rintro r x ⟨rfl, hx⟩
  exact ⟨hpos, m₁, m₂, hm₁, hx, rfl⟩

/-! ## The answer to one command -/

theorem bytesAt_cons (m : ByteMemory) (a n : ℕ) :
    bytesAt m a (n + 1) = m a :: bytesAt m (a + 1) n := by
  simp only [bytesAt, List.range_succ_eq_map, List.map_cons, List.map_map, Nat.add_zero]
  congr 1
  apply List.map_congr_left
  intro i _
  simp [Nat.add_assoc, Nat.add_comm 1 i]

theorem storeBytes_of_lt {a b : ℕ} (bytes : List UInt8) (h : b < a) :
    storeBytes m a bytes b = m b := by
  induction bytes generalizing m a with
  | nil => rfl
  | cons x xs ih => rw [storeBytes, ih (by omega), set8_of_ne _ _ (by omega)]

/-- What was copied to the buffer is what the device reads there. -/
theorem bytesAt_storeBytes (m : ByteMemory) (a : ℕ) (bytes : List UInt8) :
    bytesAt (storeBytes m a bytes) a bytes.length = bytes := by
  induction bytes generalizing m a with
  | nil => rfl
  | cons x xs ih =>
      rw [List.length_cons, bytesAt_cons, storeBytes, ih,
        storeBytes_of_lt xs (Nat.lt_succ_self a), set8_same]

/-- The two descriptors of a command, the second one at index `respIdx`. -/
def commandChain (dma cmdSize respSize respIdx : ℕ) : List VirtqDesc :=
  [commandDesc dma cmdSize respIdx, responseDesc dma cmdSize respSize]

/-- With two descriptors or more, the device walks from the command to the response. -/
theorem chain_commandView (h : w.Rest) (hsize : 2 ≤ w.queue.size)
    (hnext : w.queue.nextAvailIdx < w.queue.size) (dma cmdSize respSize : ℕ) :
    (commandView w dma cmdSize respSize).chain = commandChain dma cmdSize respSize
      ((w.queue.nextAvailIdx + 1) % w.queue.size) := by
  obtain ⟨head, hhead⟩ : ∃ head, head = w.queue.nextAvailIdx := ⟨_, rfl⟩
  obtain ⟨resp, hresp⟩ : ∃ resp, resp = (head + 1) % w.queue.size := ⟨_, rfl⟩
  obtain ⟨desc, hdesc⟩ : ∃ desc, desc = Function.update (Function.update w.queue.desc head
    (commandDesc dma cmdSize resp)) resp (responseDesc dma cmdSize respSize) := ⟨_, rfl⟩
  rw [← hhead] at hnext
  have hne : head ≠ resp := by
    rw [hresp]
    exact fun heq => distinct_descs hsize hnext heq.symm
  have hlt : resp < w.queue.size := by
    rw [hresp]
    exact Nat.mod_lt _ (by omega)
  have hcommand : desc head = commandDesc dma cmdSize resp := by
    rw [hdesc, Function.update_of_ne hne, Function.update_self]
  have hresponse : desc resp = responseDesc dma cmdSize respSize := by
    rw [hdesc, Function.update_self]
  have hwalk : (commandView w dma cmdSize respSize).chain =
      walkChain desc w.queue.size w.queue.size head := by
    rw [hdesc, hresp, hhead]
    exact congrArg (walkChain _ _ _) (head_commandRing h dma cmdSize respSize)
  obtain ⟨n, hn⟩ : ∃ n, w.queue.size = n + 2 := ⟨w.queue.size - 2, by omega⟩
  have hfuel : walkChain desc w.queue.size (n + 2) head =
      commandChain dma cmdSize respSize resp := by
    have hflags : (commandDesc dma cmdSize resp).flags % 2 = 1 := rfl
    have hend : ¬(responseDesc dma cmdSize respSize).flags % 2 = 1 :=
      show ¬virtqDescFWrite % 2 = 1 by decide
    rw [walkChain, if_pos hnext, hcommand, if_pos hflags]
    change _ :: walkChain desc w.queue.size (n + 1) resp = _
    rw [walkChain, if_pos hlt, hresponse, if_neg hend]
    rfl
  rw [hwalk, ← hhead, ← hresp, ← hfuel, ← hn]

theorem chainBytes_false_commandChain (m : ByteMemory) (dma cmdSize respSize respIdx : ℕ) :
    chainBytes m false (commandChain dma cmdSize respSize respIdx) = bytesAt m dma cmdSize := by
  simp [chainBytes, commandChain, commandDesc, responseDesc, VirtqDesc.writable, virtqDescFNext,
    virtqDescFWrite]

theorem chainBytes_true_commandChain (m : ByteMemory) (dma cmdSize respSize respIdx : ℕ) :
    chainBytes m true (commandChain dma cmdSize respSize respIdx) =
      bytesAt m (dma + cmdSize) respSize := by
  simp [chainBytes, commandChain, commandDesc, responseDesc, VirtqDesc.writable, virtqDescFNext,
    virtqDescFWrite]

/-- Driver and device agree on the control queue, and no other queue disturbs it. -/
structure Agreed (s : Sound) : Prop where
  enabled : s.virtioSoundCfg.queueEnable 0 = true
  avail : (s.queues 0).availIdx s.mem = s.deviceIdx 0
  used : (s.queues 0).usedIdx s.mem = s.deviceIdx 0
  lastUsed : (s.queues 0).lastUsedIdx = s.deviceIdx 0
  taken : s.taken 0 = []
  inFlight : s.inFlight 0 = []
  others : ∀ q ≠ 0, (s.view q).Harmless
  size : 2 ≤ (s.queues 0).size
  next : (s.queues 0).nextAvailIdx < (s.queues 0).size

theorem Agreed.queue (h : Agreed s) : (s.view 0).queue = (s.queues 0).rings s.mem :=
  Sound.view_queue h.enabled

theorem Agreed.rest (h : Agreed s) : (s.view 0).Rest := by
  refine ⟨?_, h.taken, h.inFlight⟩
  rw [h.queue]
  exact h.avail

theorem Agreed.ready (h : Agreed s) :
    (s.view 0).queue.lastUsedIdx = (s.view 0).queue.usedIdx := by
  rw [h.queue]
  exact h.lastUsed.trans h.used.symm

/-- The three parts of the control queue fit their frames. -/
theorem Agreed.clear (h : Agreed s) (hplaced : s.Placed) (hsize : (s.queues 0).size ≤ 256) :
    Clear 0 s := by
  refine ⟨hplaced, h.enabled, h.rest, h.others, ?_, ?_⟩
  · rw [h.queue]
    exact hsize
  · rw [h.queue]
    exact Nat.lt_of_lt_of_le h.next hsize

/-- A call that returns has got the answer to its command, and driver and device agree again. -/
theorem Agreed.called {cmd r : List UInt8} {respSize : ℕ} (h : Agreed s)
    (hfits : cmd.length + respSize ≤ 4096) (hcall : Called 0 s cmd respSize r t) :
    Agreed t ∧ t.Placed ∧ (t.queues 0).size = (s.queues 0).size ∧ t.dmaBuffer = s.dmaBuffer ∧
      t.served 0 = s.served 0 ++ [⟨commandChain s.dmaBuffer cmd.length respSize
        (((s.queues 0).nextAvailIdx + 1) % (s.queues 0).size), cmd, r⟩] := by
  obtain ⟨-, m₁, m₂, hm₁, hserving, hr⟩ := hcall
  have hview := hserving.own.1
  have hsize2 : 2 ≤ (s.view 0).queue.size := by
    rw [h.queue]
    exact h.size
  have hnext2 : (s.view 0).queue.nextAvailIdx < (s.view 0).queue.size := by
    rw [h.queue]
    exact h.next
  have hhead : (commandEntry (s.view 0) s.dmaBuffer cmd.length respSize).descs.head? =
      some (commandRing (s.view 0) s.dmaBuffer cmd.length respSize).head :=
    commandEntry_head h.rest s.dmaBuffer cmd.length respSize
  have hback := ((h.rest.commandRing s.dmaBuffer cmd.length respSize).answered hhead m₁ m₂).consumed
  have hqueue := hserving.queue.symm.trans (congrArg QueueView.queue hview)
  have hstart := h.queue
  have hdevice : t.deviceIdx 0 = s.deviceIdx 0 + 1 := congrArg QueueView.deviceIdx hview
  have havail : (t.queues 0).availIdx t.mem = (s.view 0).queue.availIdx + 1 :=
    congrArg Rings.availIdx hqueue
  have hused : (t.queues 0).usedIdx t.mem = (s.view 0).queue.usedIdx + 1 :=
    congrArg Rings.usedIdx hqueue
  have hlast : (t.queues 0).lastUsedIdx = (s.view 0).queue.lastUsedIdx + 1 :=
    congrArg Rings.lastUsedIdx hqueue
  have hsize : (t.queues 0).size = (s.view 0).queue.size := congrArg Rings.size hqueue
  have hnext : (t.queues 0).nextAvailIdx = (((s.view 0).queue.nextAvailIdx + 1) %
      (s.view 0).queue.size + 1) % (s.view 0).queue.size := congrArg Rings.nextAvailIdx hqueue
  have hserved : t.served 0 = s.served 0 ++
      [⟨(commandView (s.view 0) s.dmaBuffer cmd.length respSize).chain,
        chainBytes m₁ false (commandView (s.view 0) s.dmaBuffer cmd.length respSize).chain,
        chainBytes m₂ true (commandView (s.view 0) s.dmaBuffer cmd.length respSize).chain⟩] :=
    congrArg QueueView.served hview
  rw [hstart] at havail hused hlast hsize hnext
  refine ⟨⟨hserving.enabled, ?_, ?_, ?_, ?_, ?_, hserving.harmless, ?_, ?_⟩, hserving.placed,
    hsize, hserving.dmaBuffer, ?_⟩
  · rw [havail, hdevice]
    exact congrArg (· + 1) h.avail
  · rw [hused, hdevice]
    exact congrArg (· + 1) h.used
  · rw [hlast, hdevice]
    exact congrArg (· + 1) h.lastUsed
  · exact (congrArg QueueView.taken hview).trans hback.taken
  · exact (congrArg QueueView.inFlight hview).trans hback.inFlight
  · rw [hsize]
    exact h.size
  · rw [hnext, hsize]
    exact Nat.mod_lt _ (Nat.lt_of_lt_of_le Nat.two_pos h.size)
  · rw [hserved, chain_commandView h.rest hsize2 hnext2, chainBytes_false_commandChain,
      chainBytes_true_commandChain, bytesAt_congr hm₁ (Nat.le_refl _) (by omega),
      bytesAt_storeBytes, ← hr, hstart]
    rfl

end MyOS
