import Mathlib.Logic.Relation
import MyOS.Verification.Irq.Gates

/-! Interrupt delivery over whole runs: lines rise and fall at any time, the processor takes an
interrupt whenever it may, and each handler ends what it has begun at the controllers. -/

namespace MyOS

open Intel8259

variable {addr : Stub → ℕ} {idt : ℕ → IdtEntry} {routines : ℕ → Option IrqRoutine}
  {s s' : IrqState} {e : IrqEvent} {mask mask' : ℕ}

/-! ## The gates of the lines -/

/-- The table leads each vector of a line to the stub of that line, with interrupts off. -/
structure LineGates (addr : Stub → ℕ) (idt : ℕ → IdtEntry) : Prop where
  injective : Function.Injective addr
  gate : ∀ n : Fin 16, (idt (32 + n)).gate = some ⟨addr (.irq n), 0x08, 0, false⟩

theorem LineGates.of_install (h : StubsPlaced addr) (idt : ℕ → IdtEntry) :
    LineGates addr (idtInstall addr idt) :=
  ⟨h.injective, (gate_idtInstall h.lt idt).2.1⟩

/-- Whoever enters through a vector of a line runs the stub of that line. -/
theorem LineGates.enters (h : LineGates addr idt) {i : ℕ} (hi : i < 16) {gate : Gate} {n : Fin 16}
    (henters : Enters addr idt (32 + i) gate n) : n.val = i ∧ gate.trap = false := by
  have hgate := h.gate ⟨i, hi⟩
  rw [henters.entry] at hgate
  obtain rfl := Option.some.inj hgate
  have hstub : Stub.irq n = Stub.irq ⟨i, hi⟩ := h.injective henters.stub
  exact ⟨by rw [Stub.irq.inj hstub], rfl⟩

/-! ## One handler -/

/-- The bytes `w` end everything that is in service. -/
structure Unwinds (p : Pair) (w : List (ℕ × ℕ)) : Prop where
  sent : ∀ x ∈ w, x = (0x20, 0x20) ∨ x = (0xA0, 0x20)
  master : p.master.Single ∧ (p.master.Idle ∨ (0x20, 0x20) ∈ w)
  slave : p.slave.Single ∧ (p.slave.Idle ∨ (0xA0, 0x20) ∈ w)

theorem Unwinds.of_service {p q : Pair} {w : List (ℕ × ℕ)} (h : Unwinds p w)
    (hq : q.service = p.service) : Unwinds q w := by
  obtain ⟨hmaster, hslave⟩ := Prod.mk.inj hq
  refine ⟨h.sent, ?_, ?_⟩
  · unfold Chip.Single Chip.Idle
    rw [hmaster]
    exact h.master
  · unfold Chip.Single Chip.Idle
    rw [hslave]
    exact h.slave

theorem Unwinds.done {p : Pair} (h : Unwinds p []) : p.Quiet :=
  ⟨h.master.2.resolve_right List.not_mem_nil, h.slave.2.resolve_right List.not_mem_nil⟩

/-- One byte sent. -/
theorem Unwinds.send {p : Pair} {port byte : ℕ} {rest : List (ℕ × ℕ)}
    (h : Unwinds p ((port, byte) :: rest)) : Unwinds (p.out port byte) rest := by
  have hrest : ∀ x ∈ rest, x = (0x20, 0x20) ∨ x = (0xA0, 0x20) :=
    fun x hx => h.sent x (List.mem_cons_of_mem _ hx)
  rcases h.sent _ List.mem_cons_self with heq | heq
  · obtain ⟨rfl, rfl⟩ := Prod.mk.inj heq
    have hended := h.master.1.endOfInterrupt
    refine ⟨hrest, ⟨hended.single, .inl hended⟩, h.slave.1, ?_⟩
    exact h.slave.2.imp_right fun hmem => by simpa using hmem
  · obtain ⟨rfl, rfl⟩ := Prod.mk.inj heq
    have hended := h.slave.1.endOfInterrupt
    refine Unwinds.of_service ?_ (Pair.service_latch _)
    refine ⟨hrest, ⟨h.master.1, ?_⟩, hended.single, .inl hended⟩
    exact h.master.2.imp_right fun hmem => by simpa using hmem

theorem irqHandler_sent (routines : ℕ → Option IrqRoutine) (multitaskingEnabled : Bool)
    (intNo : ℕ) : (∀ x ∈ irqHandler routines multitaskingEnabled intNo,
      x = (0x20, 0x20) ∨ x = (0xA0, 0x20)) ∧
    (0x20, 0x20) ∈ irqHandler routines multitaskingEnabled intNo ∧
    (40 ≤ intNo → (0xA0, 0x20) ∈ irqHandler routines multitaskingEnabled intNo) := by
  have hwrites : ∀ r : IrqRoutine, ∀ x ∈ r.writes multitaskingEnabled,
      x = (0x20, 0x20) ∨ x = (0xA0, 0x20) := by
    intro r x hx
    cases r with
    | timer =>
        cases multitaskingEnabled with
        | false => simp [IrqRoutine.writes] at hx
        | true =>
            simp [IrqRoutine.writes] at hx
            tauto
    | keyboard => simp [IrqRoutine.writes] at hx
  unfold irqHandler
  refine ⟨?_, by simp, fun h40 => by simp [h40]⟩
  intro x hx
  rw [List.mem_append, List.mem_append, List.mem_singleton] at hx
  rcases hx with (hx | hx) | hx
  · cases hroutine : routines (intNo - 32) with
    | none => simp [hroutine] at hx
    | some r => exact hwrites r x (by simpa [hroutine] using hx)
  · split at hx
    · exact .inr (List.mem_singleton.mp hx)
    · cases hx
  · exact .inl hx

/-! ## The invariant -/

/-- Nothing is in service, or one handler is under way with interrupts off. -/
structure IrqInvariant (s : IrqState) (mask mask' : ℕ) : Prop where
  ready : s.pics.Ready 0x20 0x28 mask mask'
  handler : s.frames = [] ∧ s.pics.Quiet ∨
    s.committed = false ∧ s.interruptFlag = false ∧ ∃ w, s.frames = [w] ∧ Unwinds s.pics w

/-- Something happens at the lines that neither serves nor ends anything. -/
theorem IrqInvariant.of_pics (h : IrqInvariant s mask mask') {pics : Pair}
    (hready : pics.Ready 0x20 0x28 mask mask') (hservice : pics.service = s.pics.service) :
    IrqInvariant { s with pics } mask mask' := by
  refine ⟨hready, ?_⟩
  rcases h.handler with ⟨hframes, hquiet⟩ | ⟨hcommitted, hflag, w, hframes, hunwinds⟩
  · exact .inl ⟨hframes, hquiet.of_service hservice⟩
  · exact .inr ⟨hcommitted, hflag, w, hframes, hunwinds.of_service hservice⟩

/-- The handler of a line begins. -/
theorem IrqInvariant.enter (hgates : LineGates addr idt) {pics : Pair} {interruptFlag : Bool}
    {i : ℕ}
    (hi : i < 16) {gate : Gate} {n : Fin 16} (henters : Enters addr idt (32 + i) gate n)
    (hready : pics.Ready 0x20 0x28 mask mask') (hmaster : pics.master.Single)
    (hslave : pics.slave.Single) (hslave' : pics.slave.Idle ∨ 8 ≤ i) (multitaskingEnabled : Bool) :
    IrqInvariant
      { pics
        interruptFlag := interruptFlag && gate.trap
        frames := [irqHandler routines multitaskingEnabled (Stub.irq n).number]
        committed := false } mask mask' := by
  obtain ⟨hn, htrap⟩ := hgates.enters hi henters
  obtain ⟨hsent, hlast, h40⟩ :=
    irqHandler_sent routines multitaskingEnabled (Stub.irq n).number
  have hnumber : (Stub.irq n).number = 32 + i := by
    rw [← hn]
    rfl
  refine ⟨hready, .inr ⟨rfl, by rw [htrap, Bool.and_false], _, rfl, hsent, ⟨hmaster, .inr hlast⟩,
    hslave, ?_⟩⟩
  exact hslave'.imp_right fun hge => h40 (by omega)

theorem IrqInvariant.accept (hgates : LineGates addr idt) (h : IrqInvariant s mask mask')
    {vector : ℕ} {gate : Gate} {n : Fin 16} (multitaskingEnabled : Bool)
    (hcommitted : s.committed = true) (hvector : s.pics.acknowledge.1 = some vector)
    (henters : Enters addr idt vector gate n) :
    IrqInvariant
      { pics := s.pics.acknowledge.2
        interruptFlag := s.interruptFlag && gate.trap
        frames := irqHandler routines multitaskingEnabled (Stub.irq n).number :: s.frames
        committed := false } mask mask' := by
  rcases h.handler with ⟨hframes, hquiet⟩ | ⟨hfalse, -⟩
  · obtain ⟨i, hi, -, hline, -, -⟩ := h.ready.acknowledge_line
    obtain ⟨hmaster, hslave, hslave'⟩ := h.ready.acknowledge_single hquiet
    have hvec : vector = 32 + i := by
      rw [hvector, Option.some.injEq] at hline
      split at hline <;> omega
    rw [hvec] at henters
    rw [hframes]
    refine IrqInvariant.enter hgates hi henters h.ready.acknowledge hmaster hslave ?_ _
    rcases hslave' with hidle | ⟨j, hj⟩
    · exact .inl hidle
    · rw [hvector, Option.some.injEq] at hj
      exact .inr (by omega)
  · rw [hcommitted] at hfalse
    cases hfalse

theorem IrqInvariant.step (hgates : LineGates addr idt) (h : IrqInvariant s mask mask')
    (hstep : IrqStep addr idt routines s e s') : IrqInvariant s' mask mask' := by
  cases hstep with
  | raise i hi => exact h.of_pics (h.ready.raise i) (Pair.service_raise _ _)
  | withdraw i hi => exact h.of_pics (h.ready.withdraw hi.2) (Pair.service_withdraw _ _)
  | drop => exact h.of_pics h.ready.drop (Pair.service_drop _)
  | flag b hcommitted hframes =>
      rcases h.handler with hidle | ⟨-, -, w, hw, -⟩
      · exact ⟨h.ready, .inl hidle⟩
      · rw [hframes] at hw
        cases hw
  | sample hcommitted hflag hpin =>
      rcases h.handler with hidle | ⟨-, hoff, -⟩
      · exact ⟨h.ready, .inl hidle⟩
      · rw [hflag] at hoff
        cases hoff
  | accept vector gate n multitaskingEnabled hcommitted hvector henters =>
      exact h.accept hgates multitaskingEnabled hcommitted hvector henters
  | yield gate n multitaskingEnabled hcommitted hframes henters =>
      rcases h.handler with ⟨-, hquiet⟩ | ⟨-, -, w, hw, -⟩
      · rw [hframes, hcommitted]
        exact IrqInvariant.enter hgates (show 0 < 16 by decide) henters h.ready hquiet.master.single
          hquiet.slave.single (.inl hquiet.slave) multitaskingEnabled
      · rw [hframes] at hw
        cases hw
  | send hcommitted hframes =>
      rename_i port byte rest frames
      rcases h.handler with ⟨hnone, -⟩ | ⟨-, hoff, w, hw, hunwinds⟩
      · rw [hnone] at hframes
        cases hframes
      · rw [hw] at hframes
        obtain ⟨rfl, rfl⟩ := List.cons.inj hframes
        refine ⟨?_, .inr ⟨hcommitted, hoff, rest, rfl, hunwinds.send⟩⟩
        rcases hunwinds.sent _ List.mem_cons_self with heq | heq
        · obtain ⟨rfl, rfl⟩ := Prod.mk.inj heq
          exact h.ready.eoi_master
        · obtain ⟨rfl, rfl⟩ := Prod.mk.inj heq
          exact h.ready.eoi_slave
  | iret b hcommitted hframes =>
      rcases h.handler with ⟨hnone, -⟩ | ⟨-, -, w, hw, hunwinds⟩
      · rw [hnone] at hframes
        cases hframes
      · rw [hw] at hframes
        obtain ⟨rfl, rfl⟩ := List.cons.inj hframes
        exact ⟨h.ready, .inl ⟨rfl, hunwinds.done⟩⟩

/-! ## Requests -/

/-- A request of a device stays until its vector is delivered or the device withdraws it. -/
theorem IrqInvariant.keeps (h : IrqInvariant s mask mask')
    (hstep : IrqStep addr idt routines s e s') {i : ℕ} (hi : DeviceLine i)
    (hr : s.pics.requested i = true) :
    s'.pics.requested i = true ∨ e = .withdraw i ∨ e = .deliver (32 + i) := by
  cases hstep with
  | raise j hj => exact .inl (Pair.requested_raise j hi.2 hr)
  | withdraw j hj =>
      by_cases hij : i = j
      · exact .inr (.inl (by rw [hij]))
      · exact .inl ((Pair.requested_withdraw hij).trans hr)
  | drop => exact .inl ((Pair.requested_drop hi.2).trans hr)
  | flag | sample | yield | iret => exact .inl hr
  | accept vector gate n multitaskingEnabled hcommitted hvector henters =>
      obtain ⟨j, hj, -, hline, -, hkept⟩ := h.ready.acknowledge_line
      by_cases hij : i = j
      · have hvec : vector = 32 + i := by
          rw [hvector, Option.some.injEq] at hline
          split at hline <;> omega
        exact .inr (.inr (by rw [hvec]))
      · exact .inl ((hkept i hij hi.2).trans hr)
  | send hcommitted hframes =>
      rename_i port byte rest frames
      rcases h.handler with ⟨hnone, -⟩ | ⟨-, -, w, hw, hunwinds⟩
      · rw [hnone] at hframes
        cases hframes
      · rw [hw] at hframes
        obtain ⟨rfl, rfl⟩ := List.cons.inj hframes
        rcases hunwinds.sent _ List.mem_cons_self with heq | heq
        · obtain ⟨rfl, rfl⟩ := Prod.mk.inj heq
          exact .inl ((Pair.requested_eoi hi.2).1.trans hr)
        · obtain ⟨rfl, rfl⟩ := Prod.mk.inj heq
          exact .inl ((Pair.requested_eoi hi.2).2.trans hr)

/-! ## Runs -/

/-- Some step leads from one state to the next. -/
def IrqNext (addr : Stub → ℕ) (idt : ℕ → IdtEntry) (routines : ℕ → Option IrqRoutine)
    (s s' : IrqState) : Prop := ∃ e, IrqStep addr idt routines s e s'

/-- The controllers after `pic_remap`, no handler under way. -/
structure IrqState.Remapped (s : IrqState) (pics : Pair) : Prop where
  remap : s.pics = picRemap 0x20 0x28 pics
  frames : s.frames = []
  quiet : pics.Quiet

theorem IrqState.Remapped.invariant {pics : Pair} (h : s.Remapped pics) :
    IrqInvariant s pics.master.mask pics.slave.mask := by
  have hpics := h.remap
  rw [picRemap_eq] at hpics
  refine ⟨?_, .inl ⟨h.frames, ?_⟩⟩
  · rw [hpics]
    refine ⟨rfl, fun hsome => ?_⟩
    obtain ⟨i, -, hwants⟩ := first_isSome.mp hsome
    obtain ⟨hr, -, -⟩ := Chip.wants_iff.mp hwants
    cases hr
  · rw [hpics]
    exact ⟨h.quiet.master, h.quiet.slave⟩

/-- The contract of interrupt delivery in one state of a run. -/
structure IrqContract (addr : Stub → ℕ) (idt : ℕ → IdtEntry) (routines : ℕ → Option IrqRoutine)
    (mask mask' : ℕ) (s : IrqState) : Prop where
  /-- Handlers do not nest, and interrupts are off while one runs. -/
  nested : s.frames = [] ∨ s.interruptFlag = false ∧ ∃ w, s.frames = [w]
  masks : s.pics.master.mask = mask ∧ s.pics.slave.mask = mask'
  /-- Outside of a handler nothing is in service, so no line is held back but by its mask. -/
  open_lines : s.frames = [] → s.pics.Quiet ∧
    ∀ i, DeviceLine i → s.pics.requested i = true → s.pics.Unmasked i → s.pics.pin = true
  /-- What the processor will take is the vector of a line, and it leads to the stub of this line.
  Only the last line of a controller may come without a request. -/
  delivers : s.committed = true → ∃ i : Fin 16, DeviceLine i ∧
    s.pics.acknowledge.1 = some (32 + i.val) ∧
    Enters addr idt (32 + i.val) ⟨addr (.irq i), 0x08, 0, false⟩ i ∧
    (s.pics.requested i = true ∧ s.pics.Unmasked i ∨ i = 7 ∨ i = 15)
  /-- No request is lost. -/
  keeps : ∀ e s', IrqStep addr idt routines s e s' → ∀ i, DeviceLine i →
    s.pics.requested i = true →
    s'.pics.requested i = true ∨ e = .withdraw i ∨ e = .deliver (32 + i)

theorem IrqInvariant.contract (hgates : LineGates addr idt) (h : IrqInvariant s mask mask') :
    IrqContract addr idt routines mask mask' s := by
  obtain ⟨-, -, -, hmask, -, -, -, hmask'⟩ := h.ready.fields
  refine ⟨?_, ⟨hmask, hmask'⟩, ?_, ?_, fun e s' hstep i hi hr => h.keeps hstep hi hr⟩
  · rcases h.handler with ⟨hframes, -⟩ | ⟨-, hflag, w, hw, -⟩
    · exact .inl hframes
    · exact .inr ⟨hflag, w, hw⟩
  · intro hframes
    rcases h.handler with ⟨-, hquiet⟩ | ⟨-, -, w, hw, -⟩
    · exact ⟨hquiet, fun i hi hr hm => h.ready.pin_of_requested hquiet hi.1 hr hm⟩
    · rw [hframes] at hw
      cases hw
  · intro _
    obtain ⟨i, hi, hne, hline, hcause, -⟩ := h.ready.acknowledge_line
    have hvector : (if i < 8 then 0x20 + i else 0x28 + (i - 8)) = 32 + i := by split <;> omega
    rw [hvector] at hline
    refine ⟨⟨i, hi⟩, ⟨hi, hne⟩, hline, ⟨hgates.gate ⟨i, hi⟩, rfl⟩, ?_⟩
    rcases hcause with hcause | rfl | rfl
    · exact .inl hcause
    · exact .inr (.inl rfl)
    · exact .inr (.inr rfl)

/-- From the set-up of `kmain` on, in every state of every run: handlers do not nest, each ends
what it began, and a line that the masks let through always reaches the processor, by its own
vector and to its own stub. -/
theorem irq_delivery {pics : Pair} {s₀ : IrqState} (haddr : StubsPlaced addr)
    (h : s₀.Remapped pics)
    (hrun : Relation.ReflTransGen (IrqNext addr (idtInstall addr idt) routines) s₀ s) :
    IrqContract addr (idtInstall addr idt) routines pics.master.mask pics.slave.mask s := by
  have hgates := LineGates.of_install haddr idt
  have hinvariant : IrqInvariant s pics.master.mask pics.slave.mask := by
    induction hrun with
    | refl => exact h.invariant
    | tail _ hstep ih =>
        obtain ⟨e, hstep⟩ := hstep
        exact ih.step hgates hstep
  exact hinvariant.contract hgates

/-- Stubs one behind the other, 16 bytes each. -/
def stubLayout (start : ℕ) : Stub → ℕ
  | .isr n => start + 16 * n
  | .irq n => start + 16 * (32 + n)
  | .isr128 => start + 16 * 48

theorem stubsPlaced_layout {start : ℕ} (h : start + 16 * 48 < 2 ^ 32) :
    StubsPlaced (stubLayout start) := by
  constructor
  · intro a b hab
    cases a with
    | isr n =>
        cases b with
        | isr m =>
            have heq : start + 16 * n.val = start + 16 * m.val := hab
            exact congrArg Stub.isr (Fin.ext (by omega))
        | irq m =>
            have heq : start + 16 * n.val = start + 16 * (32 + m.val) := hab
            omega
        | isr128 =>
            have heq : start + 16 * n.val = start + 16 * 48 := hab
            omega
    | irq n =>
        cases b with
        | isr m =>
            have heq : start + 16 * (32 + n.val) = start + 16 * m.val := hab
            omega
        | irq m =>
            have heq : start + 16 * (32 + n.val) = start + 16 * (32 + m.val) := hab
            exact congrArg Stub.irq (Fin.ext (by omega))
        | isr128 =>
            have heq : start + 16 * (32 + n.val) = start + 16 * 48 := hab
            omega
    | isr128 =>
        cases b with
        | isr m =>
            have heq : start + 16 * 48 = start + 16 * m.val := hab
            omega
        | irq m =>
            have heq : start + 16 * 48 = start + 16 * (32 + m.val) := hab
            omega
        | isr128 => rfl
  · intro stub
    cases stub with
    | isr n =>
        change start + 16 * n.val < 2 ^ 32
        omega
    | irq n =>
        change start + 16 * (32 + n.val) < 2 ^ 32
        omega
    | isr128 => exact h

/-- A key is pressed after the set-up, and the processor sees it. -/
theorem irq_delivery_key : ∃ s : IrqState, s.committed = true ∧
    IrqContract (stubLayout 0x8200) (idtInstall (stubLayout 0x8200) fun _ => ⟨0, 0, 0, 0, 0⟩)
      (irqInstallHandler 1 .keyboard fun _ => none) 0xB8 0x8E s := by
  obtain ⟨pics, hpics⟩ : ∃ pics : Pair, pics =
      ⟨⟨.mask, false, true, 0x08, 4, 1, 0xB8, fun _ => false, fun _ => false⟩,
        ⟨.mask, false, true, 0x70, 2, 1, 0x8E, fun _ => false, fun _ => false⟩⟩ := ⟨_, rfl⟩
  have hquiet : pics.Quiet := by
    rw [hpics]
    exact ⟨fun _ _ => rfl, fun _ _ => rfl⟩
  obtain ⟨s₀, hs₀⟩ : ∃ s₀ : IrqState, s₀ = ⟨picRemap 0x20 0x28 pics, false, [], false⟩ := ⟨_, rfl⟩
  have hstart : s₀.Remapped pics := ⟨by rw [hs₀], by rw [hs₀], hquiet⟩
  have hpin : (s₀.pics.raise 1).pin = true := by
    rw [hs₀, hpics]
    decide
  have hidle : s₀.committed = false ∧ s₀.frames = [] := ⟨by rw [hs₀], by rw [hs₀]⟩
  obtain ⟨addr, haddr⟩ : ∃ addr : Stub → ℕ, addr = stubLayout 0x8200 := ⟨_, rfl⟩
  have hplaced : StubsPlaced addr := by
    rw [haddr]
    exact stubsPlaced_layout (by decide)
  obtain ⟨s₁, hs₁⟩ : ∃ s₁ : IrqState, s₁ = { s₀ with pics := s₀.pics.raise 1 } := ⟨_, rfl⟩
  obtain ⟨s₂, hs₂⟩ : ∃ s₂ : IrqState, s₂ = { s₁ with interruptFlag := true } := ⟨_, rfl⟩
  have hmasks : pics.master.mask = 0xB8 ∧ pics.slave.mask = 0x8E := by
    rw [hpics]
    exact ⟨rfl, rfl⟩
  refine ⟨{ s₂ with committed := true }, rfl, ?_⟩
  rw [← hmasks.1, ← hmasks.2, ← haddr]
  have hrise : IrqNext addr (idtInstall addr fun _ => ⟨0, 0, 0, 0, 0⟩)
      (irqInstallHandler 1 .keyboard fun _ => none) s₀ s₁ := by
    rw [hs₁]
    exact ⟨_, .raise 1 ⟨by decide, by decide⟩⟩
  have hsti : IrqNext addr (idtInstall addr fun _ => ⟨0, 0, 0, 0, 0⟩)
      (irqInstallHandler 1 .keyboard fun _ => none) s₁ s₂ := by
    rw [hs₂]
    refine ⟨_, .flag true ?_ ?_⟩
    · rw [hs₁]
      exact hidle.1
    · rw [hs₁]
      exact hidle.2
  have hseen : IrqNext addr (idtInstall addr fun _ => ⟨0, 0, 0, 0, 0⟩)
      (irqInstallHandler 1 .keyboard fun _ => none) s₂ { s₂ with committed := true } := by
    refine ⟨_, .sample ?_ ?_ ?_⟩
    · rw [hs₂, hs₁]
      exact hidle.1
    · rw [hs₂]
    · rw [hs₂, hs₁]
      exact hpin
  exact irq_delivery hplaced hstart (((Relation.ReflTransGen.single hrise).tail hsti).tail hseen)

end MyOS
