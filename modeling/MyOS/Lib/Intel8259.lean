import Mathlib.Algebra.Group.Nat.Defs
import Mathlib.Data.Nat.Notation
import Mathlib.Logic.Function.Basic
import Mathlib.Tactic.Common

/-! The interrupt controllers of a PC: two 8259 chips, the second wired to line 2 of the first.
Edge-triggered and fully nested; the rotating priorities and the special modes are left out. -/

namespace Intel8259

/-- The word a chip expects at its data port. -/
inductive Expects
  | mask
  | icw2
  | icw3
  | icw4
  deriving DecidableEq, Repr

structure Chip where
  expects : Expects
  /-- `SNGL` and `IC4` of the first initialisation word. -/
  single : Bool
  fourth : Bool
  base : ℕ
  cascade : ℕ
  mode : ℕ
  mask : ℕ
  requests : ℕ → Bool
  inService : ℕ → Bool

/-- The first of eight lines with a property: lower lines have higher priority. -/
def first (p : ℕ → Bool) : Option ℕ := (List.range 8).find? p

/-- Line `i` asks for service, and neither its mask nor a line in service holds it back. -/
def Chip.wants (c : Chip) (i : ℕ) : Bool :=
  c.requests i && !c.mask.testBit i && !(List.range (i + 1)).any c.inService

/-- The line for which the chip raises its output. -/
def Chip.request (c : Chip) : Option ℕ := first c.wants

def Chip.raise (c : Chip) (i : ℕ) : Chip := { c with requests := Function.update c.requests i true }

/-- The line falls before the request was seen. -/
def Chip.withdraw (c : Chip) (i : ℕ) : Chip :=
  { c with requests := Function.update c.requests i false }

/-- End of interrupt for the line of highest priority in service. -/
def Chip.endOfInterrupt (c : Chip) : Chip :=
  match first c.inService with
  | some i => { c with inService := Function.update c.inService i false }
  | none => c

/-- A byte at the command port: the first initialisation word, or an operation. Of the operations
only the non-specific end of interrupt changes anything here. -/
def Chip.writeCommand (c : Chip) (b : ℕ) : Chip :=
  if b.testBit 4 then
    { c with
      expects := .icw2
      single := b.testBit 1
      fourth := b.testBit 0
      cascade := 7
      mode := 0
      mask := 0
      requests := fun _ => false }
  else if b / 8 = 4 then c.endOfInterrupt
  else c

/-- A byte at the data port. -/
def Chip.writeData (c : Chip) (b : ℕ) : Chip :=
  match c.expects with
  | .mask => { c with mask := b }
  | .icw2 =>
      { c with
        base := b - b % 8
        expects := if c.single then (if c.fourth then .icw4 else .mask) else .icw3 }
  | .icw3 => { c with cascade := b, expects := if c.fourth then .icw4 else .mask }
  | .icw4 => { c with mode := b, expects := .mask }

/-- The processor's acknowledgement. When the request is gone, the chip says 7 and serves
nothing. -/
def Chip.acknowledge (c : Chip) : ℕ × Chip :=
  match c.request with
  | some i =>
      (i, { c with
        requests := Function.update c.requests i false
        inService :=
          if c.mode.testBit 1 then c.inService else Function.update c.inService i true })
  | none => (7, c)

/-- What only the initialisation words and the mask change. -/
structure Setup where
  expects : Expects
  base : ℕ
  cascade : ℕ
  mode : ℕ
  mask : ℕ
  deriving DecidableEq, Repr

def Chip.setup (c : Chip) : Setup := ⟨c.expects, c.base, c.cascade, c.mode, c.mask⟩

/-- Nothing is in service. -/
def Chip.Idle (c : Chip) : Prop := ∀ i < 8, c.inService i = false

/-- At most one line is in service. -/
def Chip.Single (c : Chip) : Prop :=
  ∀ i < 8, ∀ j < 8, c.inService i = true → c.inService j = true → i = j

/-! ## One chip -/

theorem first_eq_some {p : ℕ → Bool} {i : ℕ} :
    first p = some i ↔ p i = true ∧ i < 8 ∧ ∀ j < i, p j = false := by
  unfold first
  simp

theorem first_eq_none {p : ℕ → Bool} : first p = none ↔ ∀ i < 8, p i = false := by
  unfold first
  simp

theorem first_isSome {p : ℕ → Bool} : (first p).isSome ↔ ∃ i < 8, p i = true := by
  unfold first
  simp

theorem Chip.wants_iff {c : Chip} {i : ℕ} : c.wants i = true ↔
    c.requests i = true ∧ c.mask.testBit i = false ∧ ∀ j ≤ i, c.inService j = false := by
  simp only [Chip.wants, Bool.and_eq_true, Bool.not_eq_eq_eq_not, Bool.not_true,
    List.any_eq_false, List.mem_range, Nat.lt_succ_iff, Bool.not_eq_true, and_assoc]

theorem Chip.Idle.wants_iff {c : Chip} (h : c.Idle) {i : ℕ} (hi : i < 8) :
    c.wants i = true ↔ c.requests i = true ∧ c.mask.testBit i = false := by
  rw [Chip.wants_iff]
  constructor
  · rintro ⟨hr, hm, -⟩
    exact ⟨hr, hm⟩
  · rintro ⟨hr, hm⟩
    exact ⟨hr, hm, fun j hj => h j (by omega)⟩

theorem Chip.Idle.single {c : Chip} (h : c.Idle) : c.Single := by
  intro i hi _ _ hone
  rw [h i hi] at hone
  cases hone

/-- With at most one line in service, ending it leaves none. -/
theorem Chip.Single.endOfInterrupt {c : Chip} (h : c.Single) : c.endOfInterrupt.Idle := by
  unfold Chip.endOfInterrupt
  cases hfirst : first c.inService with
  | none => exact first_eq_none.mp hfirst
  | some i =>
      obtain ⟨hone, hi, -⟩ := first_eq_some.mp hfirst
      intro j hj
      by_cases hji : j = i
      · rw [hji]
        exact Function.update_self ..
      · have hother : c.inService j = false := by
          by_contra hne
          exact hji (h j hj i hi (by simpa using hne) hone)
        exact (Function.update_of_ne hji _ _).trans hother

/-- An acknowledgement while nothing is in service. -/
theorem Chip.Idle.acknowledge_single {c : Chip} (h : c.Idle) : c.acknowledge.2.Single := by
  unfold Chip.acknowledge
  cases c.request with
  | none => exact h.single
  | some i =>
      by_cases hauto : c.mode.testBit 1 = true
      · simp only [hauto]
        exact h.single
      · simp only [hauto]
        intro j hj k hk hone hone'
        have honly : ∀ l < 8, Function.update c.inService i true l = true → l = i := by
          intro l hl hset
          by_contra hne
          rw [Function.update_of_ne hne, h l hl] at hset
          cases hset
        rw [honly j hj hone, honly k hk hone']

theorem Chip.acknowledge_fst {c : Chip} {i : ℕ} (h : c.request = some i) :
    c.acknowledge.1 = i := by
  unfold Chip.acknowledge
  rw [h]

theorem Chip.acknowledge_none {c : Chip} (h : c.request = none) : c.acknowledge = (7, c) := by
  unfold Chip.acknowledge
  rw [h]

theorem Chip.acknowledge_lt (c : Chip) : c.acknowledge.1 < 8 := by
  unfold Chip.acknowledge
  cases hrequest : c.request with
  | none => exact (by decide : 7 < 8)
  | some i => exact (first_eq_some.mp hrequest).2.1

/-- Only the request that is acknowledged goes. -/
theorem Chip.acknowledge_requests {c : Chip} {i : ℕ} (h : i ≠ c.acknowledge.1) :
    c.acknowledge.2.requests i = c.requests i := by
  revert h
  unfold Chip.acknowledge
  cases c.request with
  | none => exact fun _ => rfl
  | some j => exact fun hne => Function.update_of_ne hne _ _

/-! ## Two chips -/

structure Pair where
  master : Chip
  slave : Chip

/-- Output of the slave reaches line 2 of the master. -/
def Pair.latch (p : Pair) : Pair :=
  if p.slave.request.isSome then { p with master := p.master.raise 2 } else p

/-- A device raises one of sixteen lines. -/
def Pair.raise (p : Pair) (i : ℕ) : Pair :=
  if i < 8 then { p with master := p.master.raise i }
  else Pair.latch { p with slave := p.slave.raise (i - 8) }

def Pair.withdraw (p : Pair) (i : ℕ) : Pair :=
  if i < 8 then { p with master := p.master.withdraw i }
  else { p with slave := p.slave.withdraw (i - 8) }

/-- The master notices that the slave asks for nothing any more. -/
def Pair.drop (p : Pair) : Pair :=
  if p.slave.request.isSome then p else { p with master := p.master.withdraw 2 }

/-- A byte to one of the four ports. -/
def Pair.out (p : Pair) (port b : ℕ) : Pair :=
  match port with
  | 0x20 => { p with master := p.master.writeCommand b }
  | 0x21 => { p with master := p.master.writeData b }
  | 0xA0 => Pair.latch { p with slave := p.slave.writeCommand b }
  | 0xA1 => Pair.latch { p with slave := p.slave.writeData b }
  | _ => p

/-- The data ports give the masks. -/
def Pair.read (p : Pair) (port : ℕ) : ℕ :=
  match port with
  | 0x21 => p.master.mask
  | 0xA1 => p.slave.mask
  | _ => 0

/-- The interrupt pin of the processor. -/
def Pair.pin (p : Pair) : Bool := p.master.request.isSome

/-- The vector the processor gets. For line 2 the slave has to answer; a chip that is not set up
for an 8086 gives none. -/
def Pair.acknowledge (p : Pair) : Option ℕ × Pair :=
  let (i, master) := p.master.acknowledge
  if p.master.request = some 2 ∧ p.master.cascade.testBit 2 then
    let (j, slave) := p.slave.acknowledge
    let vector :=
      if p.slave.cascade % 8 = 2 ∧ p.slave.mode.testBit 0 then some (p.slave.base + j) else none
    (vector, Pair.latch { master, slave })
  else
    (if p.master.mode.testBit 0 then some (p.master.base + i) else none, { p with master })

/-- Line `i` of sixteen asks for service. -/
def Pair.requested (p : Pair) (i : ℕ) : Bool :=
  if i < 8 then p.master.requests i else p.slave.requests (i - 8)

/-- The masks let line `i` through. -/
def Pair.Unmasked (p : Pair) (i : ℕ) : Prop :=
  if i < 8 then p.master.mask.testBit i = false
  else p.slave.mask.testBit (i - 8) = false ∧ p.master.mask.testBit 2 = false

/-- Nothing is in service on either chip. -/
structure Pair.Quiet (p : Pair) : Prop where
  master : p.master.Idle
  slave : p.slave.Idle

def Pair.setup (p : Pair) : Setup × Setup := (p.master.setup, p.slave.setup)

/-- Both chips are set up for an 8086 that ends its interrupts itself, and each knows of the
other. No request of the slave is unseen. -/
structure Pair.Ready (p : Pair) (base base' mask mask' : ℕ) : Prop where
  setup : p.setup = (⟨.mask, base, 4, 1, mask⟩, ⟨.mask, base', 2, 1, mask'⟩)
  latched : p.slave.request.isSome = true → p.master.requests 2 = true

theorem Chip.setup_endOfInterrupt (c : Chip) : c.endOfInterrupt.setup = c.setup := by
  unfold Chip.endOfInterrupt
  split <;> rfl

theorem Chip.setup_acknowledge (c : Chip) : c.acknowledge.2.setup = c.setup := by
  unfold Chip.acknowledge
  split <;> rfl

theorem Chip.requests_endOfInterrupt (c : Chip) : c.endOfInterrupt.requests = c.requests := by
  unfold Chip.endOfInterrupt
  split <;> rfl

variable {p q : Pair} {base base' mask mask' : ℕ}

theorem Pair.setup_latch (p : Pair) : p.latch.setup = p.setup := by
  unfold Pair.latch
  split <;> rfl

theorem Pair.slave_latch (p : Pair) : p.latch.slave = p.slave := by
  unfold Pair.latch
  split <;> rfl

theorem Pair.requests_latch {i : ℕ} (hi : i ≠ 2) :
    p.latch.master.requests i = p.master.requests i := by
  unfold Pair.latch
  split
  · exact Function.update_of_ne hi _ _
  · rfl

theorem Pair.latch_quiet (h : p.slave.request = none) : p.latch = p := by
  unfold Pair.latch
  rw [h]
  rfl

theorem Pair.Ready.latch (h : p.setup = (⟨.mask, base, 4, 1, mask⟩, ⟨.mask, base', 2, 1, mask'⟩)) :
    p.latch.Ready base base' mask mask' := by
  refine ⟨(Pair.setup_latch p).trans h, ?_⟩
  unfold Pair.latch
  by_cases hsome : p.slave.request.isSome = true
  · rw [if_pos hsome]
    intro _
    change Function.update p.master.requests 2 true 2 = true
    exact Function.update_self ..
  · rw [if_neg hsome]
    exact fun hsome' => absurd hsome' hsome

theorem Pair.Ready.fields (h : p.Ready base base' mask mask') :
    p.master.base = base ∧ p.master.cascade = 4 ∧ p.master.mode = 1 ∧ p.master.mask = mask ∧
      p.slave.base = base' ∧ p.slave.cascade = 2 ∧ p.slave.mode = 1 ∧ p.slave.mask = mask' := by
  have hsetup := h.setup
  simp only [Pair.setup, Chip.setup, Prod.mk.injEq, Setup.mk.injEq] at hsetup
  tauto

/-! ## Events -/

theorem Pair.Ready.raise (h : p.Ready base base' mask mask') (i : ℕ) :
    (p.raise i).Ready base base' mask mask' := by
  unfold Pair.raise
  split
  · refine ⟨h.setup, fun hsome => ?_⟩
    by_cases hi : 2 = i
    · rw [hi]
      exact Function.update_self ..
    · exact (Function.update_of_ne hi _ _).trans (h.latched hsome)
  · exact Pair.Ready.latch h.setup

/-- A line that falls takes no request of another one with it. -/
theorem Chip.request_withdraw {c : Chip} {i : ℕ} (h : (c.withdraw i).request.isSome = true) :
    c.request.isSome = true := by
  obtain ⟨j, hj, hwants⟩ := first_isSome.mp h
  obtain ⟨hr, hm, hs⟩ := Chip.wants_iff.mp hwants
  refine first_isSome.mpr ⟨j, hj, Chip.wants_iff.mpr ⟨?_, hm, hs⟩⟩
  by_cases hji : j = i
  · rw [hji] at hr
    change Function.update c.requests i false i = true at hr
    rw [Function.update_self] at hr
    cases hr
  · exact (Function.update_of_ne hji _ _).symm.trans hr

theorem Pair.Ready.withdraw (h : p.Ready base base' mask mask') {i : ℕ} (hi : i ≠ 2) :
    (p.withdraw i).Ready base base' mask mask' := by
  unfold Pair.withdraw
  split
  · refine ⟨h.setup, fun hsome => ?_⟩
    exact (Function.update_of_ne (Ne.symm hi) _ _).trans (h.latched hsome)
  · exact ⟨h.setup, fun hsome => h.latched (Chip.request_withdraw hsome)⟩

theorem Pair.Ready.drop (h : p.Ready base base' mask mask') :
    p.drop.Ready base base' mask mask' := by
  unfold Pair.drop
  split
  · exact h
  · rename_i hnone
    exact ⟨h.setup, fun hsome => absurd hsome hnone⟩

/-- Requests of the devices, whose lines are all but line 2, are what they were. -/
theorem Pair.requested_latch {i : ℕ} (hi : i ≠ 2) : p.latch.requested i = p.requested i := by
  unfold Pair.requested
  rw [Pair.requests_latch hi, Pair.slave_latch]

theorem Pair.requested_raise (j : ℕ) {i : ℕ} (hi : i ≠ 2) (hr : p.requested i = true) :
    (p.raise j).requested i = true := by
  have hset : ∀ (c : Chip) (j i : ℕ), c.requests i = true → (c.raise j).requests i = true := by
    intro c j i hc
    by_cases hij : i = j
    · rw [hij]
      exact Function.update_self ..
    · exact (Function.update_of_ne hij _ _).trans hc
  unfold Pair.requested at hr
  unfold Pair.raise
  split
  · unfold Pair.requested
    split at hr
    · exact (if_pos ‹_›).trans (hset _ _ _ hr)
    · exact (if_neg ‹_›).trans hr
  · rw [Pair.requested_latch hi]
    unfold Pair.requested
    split at hr
    · exact (if_pos ‹_›).trans hr
    · exact (if_neg ‹_›).trans (hset _ _ _ hr)

theorem Pair.requested_withdraw {i j : ℕ} (hij : i ≠ j) :
    (p.withdraw j).requested i = p.requested i := by
  unfold Pair.requested Pair.withdraw
  by_cases hj : j < 8
  · rw [if_pos hj]
    split
    · exact Function.update_of_ne hij _ _
    · rfl
  · rw [if_neg hj]
    split
    · rfl
    · exact Function.update_of_ne (by omega) _ _

theorem Pair.requested_drop {i : ℕ} (hi : i ≠ 2) : p.drop.requested i = p.requested i := by
  unfold Pair.drop
  by_cases hsome : p.slave.request.isSome = true
  · rw [if_pos hsome]
  · rw [if_neg hsome]
    unfold Pair.requested
    split
    · exact Function.update_of_ne hi _ _
    · rfl

/-- Which lines are in service. -/
def Pair.service (p : Pair) : (ℕ → Bool) × (ℕ → Bool) := (p.master.inService, p.slave.inService)

theorem Pair.service_latch (p : Pair) : p.latch.service = p.service := by
  unfold Pair.latch
  split <;> rfl

/-- Lines that rise and fall are not served by that. -/
theorem Pair.service_raise (p : Pair) (i : ℕ) : (p.raise i).service = p.service := by
  unfold Pair.raise
  split
  · rfl
  · exact Pair.service_latch _

theorem Pair.service_withdraw (p : Pair) (i : ℕ) : (p.withdraw i).service = p.service := by
  unfold Pair.withdraw
  split <;> rfl

theorem Pair.service_drop (p : Pair) : p.drop.service = p.service := by
  unfold Pair.drop
  split <;> rfl

theorem Pair.Quiet.of_service (h : p.Quiet) (hq : q.service = p.service) : q.Quiet := by
  obtain ⟨hmaster, hslave⟩ := Prod.mk.inj hq
  refine ⟨fun i hi => ?_, fun i hi => ?_⟩
  · rw [hmaster]
    exact h.master i hi
  · rw [hslave]
    exact h.slave i hi

/-! ## Acknowledgement -/

/-- Behind an acknowledgement the chip asks for nothing: what is left is of lower priority. -/
theorem Chip.request_acknowledge {c : Chip} (hmode : c.mode = 1) :
    c.acknowledge.2.request = none := by
  cases hrequest : c.request with
  | none => rw [Chip.acknowledge_none hrequest, hrequest]
  | some i =>
      obtain ⟨-, -, hbelow⟩ := first_eq_some.mp hrequest
      have hauto : c.mode.testBit 1 = false := by rw [hmode]; rfl
      unfold Chip.acknowledge
      simp only [hrequest, hauto]
      refine first_eq_none.mpr ?_
      intro j _
      by_contra hne
      obtain ⟨hr, hm, hs⟩ := Chip.wants_iff.mp (by simpa using hne)
      simp only at hr hm hs
      by_cases hij : i ≤ j
      · have hserved := hs i hij
        simp only [Function.update_self, reduceCtorEq] at hserved
      · have hold : c.wants j = true := by
          refine Chip.wants_iff.mpr ⟨?_, hm, ?_⟩
          · rwa [Function.update_of_ne (by omega)] at hr
          · intro k hk
            have hkept := hs k hk
            rwa [Function.update_of_ne (by omega)] at hkept
        rw [hbelow j (by omega)] at hold
        cases hold

/-- What an acknowledgement can be: a line of the master, no line at all, or the slave. -/
theorem Pair.Ready.acknowledge_cases (h : p.Ready base base' mask mask') :
    (∃ i, p.master.request = some i ∧ i ≠ 2 ∧
      p.acknowledge = (some (base + i), { p with master := p.master.acknowledge.2 })) ∨
    (p.master.request = none ∧ p.acknowledge = (some (base + 7), p)) ∨
    (p.master.request = some 2 ∧ p.acknowledge = (some (base' + p.slave.acknowledge.1),
      ⟨p.master.acknowledge.2, p.slave.acknowledge.2⟩)) := by
  obtain ⟨hbase, hcascade, hmode, -, hbase', hcascade', hmode', -⟩ := h.fields
  have hcpu : p.master.mode.testBit 0 = true := by rw [hmode]; rfl
  have hcpu' : p.slave.mode.testBit 0 = true := by rw [hmode']; rfl
  have htwo : p.master.cascade.testBit 2 = true := by rw [hcascade]; rfl
  cases hrequest : p.master.request with
  | none =>
      refine .inr (.inl ⟨rfl, ?_⟩)
      simp [Pair.acknowledge, Chip.acknowledge_none hrequest, hrequest, hcpu, hbase]
  | some i =>
      have hfst := Chip.acknowledge_fst hrequest
      by_cases hi : i = 2
      · rw [hi] at hrequest hfst
        refine .inr (.inr ⟨by rw [hi], ?_⟩)
        have hquiet : (⟨p.master.acknowledge.2, p.slave.acknowledge.2⟩ : Pair).latch =
            ⟨p.master.acknowledge.2, p.slave.acknowledge.2⟩ :=
          Pair.latch_quiet (Chip.request_acknowledge hmode')
        simp [Pair.acknowledge, hrequest, htwo, hcpu', hcascade', hbase', hquiet]
      · refine .inl ⟨i, rfl, hi, ?_⟩
        simp [Pair.acknowledge, hrequest, hi, hcpu, hbase, hfst]

theorem Pair.Ready.acknowledge (h : p.Ready base base' mask mask') :
    p.acknowledge.2.Ready base base' mask mask' := by
  have hmaster := Chip.setup_acknowledge p.master
  rcases h.acknowledge_cases with ⟨i, hrequest, hi, heq⟩ | ⟨-, heq⟩ | ⟨-, heq⟩
  · rw [heq]
    refine ⟨?_, fun hsome => ?_⟩
    · unfold Pair.setup
      rw [hmaster]
      exact h.setup
    · have hne : 2 ≠ p.master.acknowledge.1 := by
        rw [Chip.acknowledge_fst hrequest]
        exact Ne.symm hi
      exact (Chip.acknowledge_requests hne).trans (h.latched hsome)
  · rw [heq]
    exact h
  · rw [heq]
    have hquiet := Chip.request_acknowledge (c := p.slave) h.fields.2.2.2.2.2.2.1
    refine ⟨?_, fun hsome => ?_⟩
    · unfold Pair.setup
      rw [hmaster, Chip.setup_acknowledge]
      exact h.setup
    · rw [hquiet] at hsome
      cases hsome

/-- When nothing is in service, an acknowledgement puts at most one line of each chip there; one of
the slave only with a vector of the slave. -/
theorem Pair.Ready.acknowledge_single (h : p.Ready base base' mask mask') (hquiet : p.Quiet) :
    p.acknowledge.2.master.Single ∧ p.acknowledge.2.slave.Single ∧
      (p.acknowledge.2.slave.Idle ∨ ∃ j, p.acknowledge.1 = some (base' + j)) := by
  rcases h.acknowledge_cases with ⟨i, -, -, heq⟩ | ⟨-, heq⟩ | ⟨-, heq⟩
  · rw [heq]
    exact ⟨hquiet.master.acknowledge_single, hquiet.slave.single, .inl hquiet.slave⟩
  · rw [heq]
    exact ⟨hquiet.master.single, hquiet.slave.single, .inl hquiet.slave⟩
  · rw [heq]
    exact ⟨hquiet.master.acknowledge_single, hquiet.slave.acknowledge_single, .inr ⟨_, rfl⟩⟩

/-- The vector names a line that was let through, or the last line of a chip whose request has
gone. Of the requests only that of the line goes. -/
theorem Pair.Ready.acknowledge_line (h : p.Ready base base' mask mask') :
    ∃ i < 16, i ≠ 2 ∧
      p.acknowledge.1 = some (if i < 8 then base + i else base' + (i - 8)) ∧
      (p.requested i = true ∧ p.Unmasked i ∨ i = 7 ∨ i = 15) ∧
      ∀ j, j ≠ i → j ≠ 2 → p.acknowledge.2.requested j = p.requested j := by
  rcases h.acknowledge_cases with ⟨i, hrequest, hi, heq⟩ | ⟨-, heq⟩ | ⟨hrequest, heq⟩
  · rw [heq]
    obtain ⟨hwants, hlt, -⟩ := first_eq_some.mp hrequest
    obtain ⟨hr, hm, -⟩ := Chip.wants_iff.mp hwants
    refine ⟨i, by omega, hi, by rw [if_pos hlt], .inl ⟨?_, ?_⟩, ?_⟩
    · exact (if_pos hlt).trans hr
    · exact (if_pos hlt).mpr hm
    · intro j hj _
      unfold Pair.requested
      rw [Chip.acknowledge_requests (by rwa [Chip.acknowledge_fst hrequest])]
  · rw [heq]
    exact ⟨7, by decide, by decide, rfl, .inr (.inl rfl), fun _ _ _ => rfl⟩
  · rw [heq]
    have hlt := p.slave.acknowledge_lt
    obtain ⟨hwants, -, -⟩ := first_eq_some.mp hrequest
    obtain ⟨-, hm, -⟩ := Chip.wants_iff.mp hwants
    refine ⟨p.slave.acknowledge.1 + 8, by omega, by omega, ?_, ?_, ?_⟩
    · rw [if_neg (by omega), Nat.add_sub_cancel]
    · cases hslave : p.slave.request with
      | none =>
          rw [Chip.acknowledge_none hslave]
          exact .inr (.inr rfl)
      | some k =>
          obtain ⟨hwants', -, -⟩ := first_eq_some.mp hslave
          obtain ⟨hr', hm', -⟩ := Chip.wants_iff.mp hwants'
          rw [Chip.acknowledge_fst hslave]
          unfold Pair.requested Pair.Unmasked
          rw [if_neg (by omega), if_neg (by omega), Nat.add_sub_cancel]
          exact .inl ⟨hr', hm', hm⟩
    · intro j hj hne
      unfold Pair.requested
      split
      · refine Chip.acknowledge_requests ?_
        rwa [Chip.acknowledge_fst hrequest]
      · exact Chip.acknowledge_requests (by omega)

/-- While nothing is in service, a request that the masks let through reaches the processor. -/
theorem Pair.Ready.pin_of_requested (h : p.Ready base base' mask mask') (hquiet : p.Quiet) {i : ℕ}
    (hi : i < 16) (hr : p.requested i = true) (hm : p.Unmasked i) : p.pin = true := by
  unfold Pair.requested at hr
  unfold Pair.Unmasked at hm
  by_cases hlow : i < 8
  · rw [if_pos hlow] at hr hm
    exact first_isSome.mpr ⟨i, hlow, (hquiet.master.wants_iff hlow).mpr ⟨hr, hm⟩⟩
  · rw [if_neg hlow] at hr hm
    have hslave : p.slave.request.isSome = true :=
      first_isSome.mpr ⟨i - 8, by omega, (hquiet.slave.wants_iff (by omega)).mpr ⟨hr, hm.1⟩⟩
    exact first_isSome.mpr ⟨2, by decide,
      (hquiet.master.wants_iff (by decide)).mpr ⟨h.latched hslave, hm.2⟩⟩

/-! ## End of interrupt -/

theorem Pair.out_master_eoi (p : Pair) :
    p.out 0x20 0x20 = { p with master := p.master.endOfInterrupt } := rfl

theorem Pair.out_slave_eoi (p : Pair) :
    p.out 0xA0 0x20 = Pair.latch { p with slave := p.slave.endOfInterrupt } := rfl

/-- Ending an interrupt takes no request away. -/
theorem Pair.requested_eoi {i : ℕ} (hi : i ≠ 2) :
    (p.out 0x20 0x20).requested i = p.requested i ∧
      (p.out 0xA0 0x20).requested i = p.requested i := by
  constructor
  · rw [Pair.out_master_eoi]
    unfold Pair.requested
    rw [Chip.requests_endOfInterrupt]
  · rw [Pair.out_slave_eoi, Pair.requested_latch hi]
    unfold Pair.requested
    rw [Chip.requests_endOfInterrupt]

theorem Pair.Ready.eoi_master (h : p.Ready base base' mask mask') :
    (p.out 0x20 0x20).Ready base base' mask mask' := by
  rw [Pair.out_master_eoi]
  refine ⟨?_, fun hsome => ?_⟩
  · unfold Pair.setup
    rw [Chip.setup_endOfInterrupt]
    exact h.setup
  · rw [Chip.requests_endOfInterrupt]
    exact h.latched hsome

theorem Pair.Ready.eoi_slave (h : p.Ready base base' mask mask') :
    (p.out 0xA0 0x20).Ready base base' mask mask' := by
  rw [Pair.out_slave_eoi]
  refine Pair.Ready.latch ?_
  unfold Pair.setup
  rw [Chip.setup_endOfInterrupt]
  exact h.setup

end Intel8259
