import Mathlib.Algebra.Group.Nat.Defs
import Mathlib.Data.Nat.Notation
import Mathlib.Tactic.Common

/-! Protection in the processor's 32-bit mode: segment descriptors, the checks on selectors, and
the ways from one privilege level to another, as far as code at an outer level can try them. -/

namespace X86Protection

/-! ## Descriptors -/

/-- What the checks look at in a descriptor. `limit` counts bytes or, with the granularity flag,
pages. -/
structure Descriptor where
  limit : ℕ
  access : ℕ
  flags : ℕ
  deriving DecidableEq, Repr

/-- The descriptor in eight bytes. -/
def Descriptor.decode (b : ℕ → ℕ) : Descriptor where
  limit := b 0 + 2 ^ 8 * b 1 + 2 ^ 16 * (b 6 % 16)
  access := b 5
  flags := b 6 / 16

def Descriptor.present (d : Descriptor) : Bool := d.access.testBit 7
def Descriptor.dpl (d : Descriptor) : ℕ := d.access / 32 % 4

/-- Code or data, not a system segment or a gate. -/
def Descriptor.segment (d : Descriptor) : Bool := d.access.testBit 4
def Descriptor.executable (d : Descriptor) : Bool := d.access.testBit 3
def Descriptor.conforming (d : Descriptor) : Bool := d.access.testBit 2

/-- Data that may be written, or code that may be read. -/
def Descriptor.permitted (d : Descriptor) : Bool := d.access.testBit 1

/-- The last offset in the segment. -/
def Descriptor.last (d : Descriptor) : ℕ :=
  if d.flags.testBit 3 then d.limit * 4096 + 4095 else d.limit

/-- Code that a far jump from level `cpl` may lead to. Conforming code runs at the level of its
caller. -/
def Descriptor.jumpAllowed (d : Descriptor) (cpl rpl : ℕ) : Bool :=
  d.executable &&
    (if d.conforming then decide (d.dpl ≤ cpl) else decide (rpl ≤ cpl) && d.dpl == cpl)

/-- Code that a return may lead to, at level `rpl`. -/
def Descriptor.returnAllowed (d : Descriptor) (rpl : ℕ) : Bool :=
  d.segment && d.executable && (if d.conforming then decide (d.dpl ≤ rpl) else d.dpl == rpl)

/-- An interrupt or trap gate that is present. -/
structure Gate where
  offset : ℕ
  selector : ℕ
  dpl : ℕ
  deriving DecidableEq, Repr

/-- What the table registers lead to: the bytes of the global descriptor table, the gates of the
interrupt table, the task state segment as 32-bit words, and the addresses at which a push of level 0
reaches memory. -/
structure Tables where
  gdt : ℕ → ℕ
  gdtLimit : ℕ
  gate : ℕ → Option Gate
  tss : ℕ → ℕ
  tssLimit : ℕ
  writable : ℕ → Bool

variable (t : Tables)

/-- The descriptor a selector leads to. There is no local table. -/
def Tables.lookup (sel : ℕ) : Option Descriptor :=
  if sel.testBit 2 ∨ t.gdtLimit < sel / 8 * 8 + 7 then none
  else some (.decode fun i => t.gdt (sel / 8 * 8 + i))

/-! ## Code at a privilege level -/

/-- The registers that decide about privilege. The level is that of `cs`. -/
structure Regs where
  cs : ℕ
  eip : ℕ
  ss : ℕ
  esp : ℕ
  deriving DecidableEq, Repr

def Regs.cpl (r : Regs) : ℕ := r.cs % 4

inductive Outcome
  | continues (r : Regs)
  | enters (vector : ℕ) (r : Regs)
  /-- A gate or a task state segment is used. -/
  | system
  | shutdown
  deriving DecidableEq, Repr

/-- What an instruction can try, and what can happen to the code that tries it. -/
inductive Action
  /-- `mov` or `pop` to `ds`, `es`, `fs` or `gs`, and to `ss`. -/
  | loadData (sel : ℕ)
  | loadStack (sel : ℕ)
  /-- A far jump or call. -/
  | jump (sel offset : ℕ)
  /-- A far return or `iret`, and `iret` with the nested task flag. -/
  | return (r : Regs)
  | taskReturn
  /-- `int n` -/
  | interrupt (n : ℕ)
  /-- `in` and `out`, for so many bytes. -/
  | port (n width : ℕ)
  /-- An instruction for level 0 only. -/
  | privileged
  | exception (vector : ℕ)
  | line (vector : ℕ)
  deriving DecidableEq, Repr

def generalProtection : ℕ := 13

/-- A data segment register takes segments that are not further inside. -/
def Tables.dataAllowed (cpl sel : ℕ) : Bool :=
  match t.lookup sel with
  | none => false
  | some d =>
      d.segment && (!d.executable || d.permitted) &&
        (d.executable && d.conforming || max cpl (sel % 4) ≤ d.dpl)

/-- The stack segment is writable data of the current level. -/
def Tables.stackAllowed (cpl sel : ℕ) : Bool :=
  match t.lookup sel with
  | none => false
  | some d =>
      !(sel < 4) && d.segment && !d.executable && d.permitted && d.dpl == cpl && sel % 4 == cpl

def Tables.isPresent (sel : ℕ) : Bool := ((t.lookup sel).map Descriptor.present).getD false

/-- The bytes of a frame of so many words below `esp` reach memory. -/
def Tables.frameFits (esp words : ℕ) : Bool :=
  (List.range (4 * words)).all fun k => t.writable ((esp + 2 ^ 32 - (k + 1)) % 2 ^ 32)

/-- The handler of an interrupt. If it lies further inside, the stack comes from the task state
segment, and the frame, of so many words, is pushed there. What goes wrong on the way stops the
machine here: a push that faults would have to push another frame on the same stack. -/
def Tables.enter (r : Regs) (vector words : ℕ) (g : Gate) : Outcome :=
  match t.lookup g.selector with
  | none => .shutdown
  | some d =>
      if g.selector < 4 || !(d.present && d.segment && d.executable) || r.cpl < d.dpl then
        .shutdown
      else if !d.conforming && d.dpl < r.cpl then
        let ss := t.tss (2 * d.dpl + 2) % 2 ^ 16
        if t.stackAllowed d.dpl ss && t.isPresent ss && 8 * d.dpl + 11 ≤ t.tssLimit &&
            t.frameFits (t.tss (2 * d.dpl + 1)) words then
          .enters vector
            { cs := g.selector / 4 * 4 + d.dpl
              eip := g.offset
              ss := ss
              esp := t.tss (2 * d.dpl + 1) }
        else .shutdown
      else .enters vector { r with cs := g.selector / 4 * 4 + r.cpl, eip := g.offset }

/-- The words of a frame from an outer level: some exceptions push an error code besides. -/
def frameWords (vector : ℕ) : ℕ := if vector ∈ [8, 10, 11, 12, 13, 14, 17] then 6 else 5

/-- An exception, or an interrupt of a device. The level of the gate does not matter. -/
def Tables.deliver (r : Regs) (vector : ℕ) : Outcome :=
  match t.gate vector with
  | none => .shutdown
  | some g => t.enter r vector (frameWords vector) g

/-- `int n` -/
def Tables.interrupt (r : Regs) (n : ℕ) : Outcome :=
  match t.gate n with
  | none => t.deliver r generalProtection
  | some g => if g.dpl < r.cpl then t.deliver r generalProtection else t.enter r n 5 g

/-- A far jump or call: to code of the same level, or through a descriptor of the system. -/
def Tables.jump (r : Regs) (sel offset : ℕ) : Outcome :=
  match t.lookup sel with
  | none => t.deliver r generalProtection
  | some d =>
      if sel < 4 then t.deliver r generalProtection
      else if d.segment then
        if d.jumpAllowed r.cpl (sel % 4) then
          if d.present then .continues { r with cs := sel / 4 * 4 + r.cpl, eip := offset }
          else t.deliver r 11
        else t.deliver r generalProtection
      else if max r.cpl (sel % 4) ≤ d.dpl then .system
      else t.deliver r generalProtection

/-- A return never leads further inside. -/
def Tables.return (r r' : Regs) : Outcome :=
  match t.lookup r'.cs with
  | none => t.deliver r generalProtection
  | some d =>
      if r'.cs < 4 || r'.cpl < r.cpl || !d.returnAllowed r'.cpl then
        t.deliver r generalProtection
      else if !d.present then t.deliver r 11
      else if r'.cpl = r.cpl then .continues { r' with ss := r.ss }
      else if t.stackAllowed r'.cpl r'.ss && t.isPresent r'.ss then .continues r'
      else t.deliver r generalProtection

/-- A return to another task needs a busy task state segment. -/
def Tables.taskReturn (r : Regs) : Outcome :=
  match t.lookup (t.tss 0 % 2 ^ 16) with
  | none => t.deliver r 10
  | some d => if !d.segment && d.access % 16 = 11 then .system else t.deliver r 10

/-- The bit map of ports in the task state segment. -/
def Tables.portAllowed (n width : ℕ) : Bool :=
  let map := t.tss 25 / 2 ^ 16
  map + n / 8 + 1 ≤ t.tssLimit &&
    (List.range width).all fun i =>
      !(t.tss ((map + (n + i) / 8) / 4) / 2 ^ (8 * ((map + (n + i) / 8) % 4))).testBit ((n + i) % 8)

/-- One action, at an I/O privilege level of 0. -/
def Tables.act (r : Regs) : Action → Outcome
  | .loadData sel =>
      if sel < 4 then .continues r
      else if t.dataAllowed r.cpl sel then
        if t.isPresent sel then .continues r else t.deliver r 11
      else t.deliver r generalProtection
  | .loadStack sel =>
      if t.stackAllowed r.cpl sel then
        if t.isPresent sel then .continues { r with ss := sel } else t.deliver r 12
      else t.deliver r generalProtection
  | .jump sel offset => t.jump r sel offset
  | .return r' => t.return r r'
  | .taskReturn => t.taskReturn r
  | .interrupt n => t.interrupt r n
  | .port n width =>
      if r.cpl = 0 || t.portAllowed n width then .continues r else t.deliver r generalProtection
  | .privileged => if r.cpl = 0 then .continues r else t.deliver r generalProtection
  | .exception vector => t.deliver r vector
  | .line vector => t.deliver r vector

/-- Actions up to the first that does not go on. -/
def Tables.run : Regs → List Action → Outcome
  | r, [] => .continues r
  | r, a :: actions =>
      match t.act r a with
      | .continues r' => Tables.run r' actions
      | outcome => outcome

/-! ## Sealed tables -/

/-- Tables through which level 3 gets nowhere but to the handlers: one code segment of its own,
all gates into one code segment of level 0, a stack there, and nothing to go through beside them.
-/
structure Sealed (user code stack : ℕ) : Prop where
  nonconforming : ∀ sel d, t.lookup sel = some d → d.segment = true → d.executable = true →
    d.conforming = false
  user_code : ∀ sel d, t.lookup sel = some d → d.segment = true → d.executable = true →
    d.dpl = 3 → sel / 4 * 4 = user
  system : ∀ sel d, t.lookup sel = some d → d.segment = false → d.dpl = 0
  gates : ∀ v g, t.gate v = some g → g.selector = code
  code_lookup : ∃ d, t.lookup code = some d ∧ d.present = true ∧ d.segment = true ∧
    d.executable = true ∧ d.dpl = 0
  code_selector : 4 ≤ code ∧ code % 4 = 0
  stack_selector : t.tss 2 % 2 ^ 16 = stack
  stack_allowed : t.stackAllowed 0 stack = true ∧ t.isPresent stack = true
  tss_long : 11 ≤ t.tssLimit
  stack_fits : t.frameFits (t.tss 1) 6 = true
  faults : ∀ v, 10 ≤ v → v ≤ 13 → (t.gate v).isSome = true
  link : ∀ d, t.lookup (t.tss 0 % 2 ^ 16) = some d → d.access % 16 ≠ 11
  ports : t.tssLimit ≤ t.tss 25 / 2 ^ 16

variable {t} {user code stack : ℕ} {r : Regs}

/-- The registers in a handler. -/
def Tables.handler (t : Tables) (code stack : ℕ) (g : Gate) : Regs :=
  ⟨code, g.offset, stack, t.tss 1⟩

theorem Tables.frameFits_mono {esp words words' : ℕ} (h : t.frameFits esp words' = true)
    (hle : words ≤ words') : t.frameFits esp words = true := by
  unfold Tables.frameFits at h ⊢
  rw [List.all_eq_true] at h ⊢
  intro k hk
  rw [List.mem_range] at hk
  exact h k (List.mem_range.mpr (by omega))

theorem frameWords_le (vector : ℕ) : frameWords vector ≤ 6 := by
  unfold frameWords
  split <;> decide

theorem Sealed.enter (h : Sealed t user code stack) (hr : r.cpl = 3) {v words : ℕ} {g : Gate}
    (hg : t.gate v = some g) (hwords : words ≤ 6) :
    t.enter r v words g = .enters v (t.handler code stack g) := by
  obtain ⟨d, hd, hpresent, hsegment, hexec, hdpl⟩ := h.code_lookup
  have hconforming := h.nonconforming code d hd hsegment hexec
  have hselector := h.code_selector
  have hss := h.stack_selector
  have htss := h.tss_long
  have hfits := Tables.frameFits_mono h.stack_fits hwords
  unfold Tables.enter Tables.handler
  rw [h.gates v g hg, hd]
  simp only [hpresent, hsegment, hexec, hconforming, hdpl, hr, Nat.mul_zero, Nat.zero_add, hss,
    h.stack_allowed.1, h.stack_allowed.2]
  have hcode : ¬code < 4 := by omega
  have hround : code / 4 * 4 + 0 = code := by omega
  simp [hcode, hround, htss, hfits]

theorem Sealed.deliver (h : Sealed t user code stack) (hr : r.cpl = 3) {v : ℕ} {g : Gate}
    (hg : t.gate v = some g) : t.deliver r v = .enters v (t.handler code stack g) := by
  unfold Tables.deliver
  rw [hg]
  exact h.enter hr hg (frameWords_le v)

/-- The vectors that an action may lead to. -/
def Action.Reaches (t : Tables) : Action → ℕ → Prop
  | .interrupt n, v => v = generalProtection ∨ v = n ∧ ∃ g, t.gate n = some g ∧ 3 ≤ g.dpl
  | .port _ _, v => v = generalProtection
  | .privileged, v => v = generalProtection
  | .exception w, v => v = w
  | .line w, v => v = w
  | _, v => 10 ≤ v ∧ v ≤ 13

/-- Exceptions and device interrupts have gates. -/
def Action.Served (t : Tables) : Action → Prop
  | .exception v => (t.gate v).isSome = true
  | .line v => (t.gate v).isSome = true
  | _ => True

/-- The code goes on at level 3 in its segment, or a handler is entered that the action may lead
to. -/
def Confined (t : Tables) (user code stack : ℕ) (reaches : ℕ → Prop) : Outcome → Prop
  | .continues r => r.cs = user + 3
  | .enters v r => reaches v ∧ ∃ g, t.gate v = some g ∧ r = t.handler code stack g
  | _ => False

theorem Sealed.fault (h : Sealed t user code stack) (hr : r.cpl = 3) {reaches : ℕ → Prop} {v : ℕ}
    (hlow : 10 ≤ v) (hhigh : v ≤ 13) (hv : reaches v) :
    Confined t user code stack reaches (t.deliver r v) := by
  obtain ⟨g, hg⟩ := Option.isSome_iff_exists.mp (h.faults v hlow hhigh)
  rw [h.deliver hr hg]
  exact ⟨hv, g, hg, rfl⟩

theorem Descriptor.jumpAllowed_nonconforming {d : Descriptor} {cpl rpl : ℕ}
    (hd : d.executable = true → d.conforming = false) (h : d.jumpAllowed cpl rpl = true) :
    d.executable = true ∧ d.dpl = cpl := by
  unfold Descriptor.jumpAllowed at h
  cases hexec : d.executable with
  | false => simp [hexec] at h
  | true =>
      rw [hexec, hd hexec] at h
      simp at h
      exact ⟨rfl, h.2⟩

theorem Descriptor.returnAllowed_nonconforming {d : Descriptor} {rpl : ℕ}
    (hd : d.segment = true → d.executable = true → d.conforming = false)
    (h : d.returnAllowed rpl = true) : d.segment = true ∧ d.executable = true ∧ d.dpl = rpl := by
  unfold Descriptor.returnAllowed at h
  cases hsegment : d.segment with
  | false => simp [hsegment] at h
  | true =>
      cases hexec : d.executable with
      | false => simp [hexec] at h
      | true =>
          rw [hsegment, hexec, hd hsegment hexec] at h
          simp at h
          exact ⟨rfl, rfl, h⟩

theorem Sealed.jump (h : Sealed t user code stack) (hr : r.cpl = 3) (sel offset : ℕ) :
    Confined t user code stack (fun v => 10 ≤ v ∧ v ≤ 13) (t.jump r sel offset) := by
  have hgp :
      Confined t user code stack (fun v => 10 ≤ v ∧ v ≤ 13) (t.deliver r generalProtection) :=
    h.fault hr (by decide) (by decide) (by decide)
  unfold Tables.jump
  cases hd : t.lookup sel with
  | none => exact hgp
  | some d =>
      simp only
      by_cases hnull : sel < 4
      · rw [if_pos hnull]
        exact hgp
      rw [if_neg hnull]
      by_cases hsegment : d.segment = true
      · rw [if_pos hsegment]
        by_cases hjump : d.jumpAllowed r.cpl (sel % 4) = true
        · rw [if_pos hjump]
          obtain ⟨hexec, hdpl⟩ :=
            Descriptor.jumpAllowed_nonconforming (h.nonconforming sel d hd hsegment) hjump
          have huser := h.user_code sel d hd hsegment hexec (hdpl.trans hr)
          split
          · change sel / 4 * 4 + r.cpl = user + 3
            rw [huser, hr]
          · exact h.fault hr (by decide) (by decide) (by decide)
        · rw [if_neg hjump]
          exact hgp
      · rw [if_neg hsegment]
        have hdpl := h.system sel d hd (by simpa using hsegment)
        rw [if_neg (by rw [hr, hdpl]; omega)]
        exact hgp

theorem Sealed.return (h : Sealed t user code stack) (hr : r.cpl = 3) (r' : Regs) :
    Confined t user code stack (fun v => 10 ≤ v ∧ v ≤ 13) (t.return r r') := by
  have hgp :
      Confined t user code stack (fun v => 10 ≤ v ∧ v ≤ 13) (t.deliver r generalProtection) :=
    h.fault hr (by decide) (by decide) (by decide)
  unfold Tables.return
  cases hd : t.lookup r'.cs with
  | none => exact hgp
  | some d =>
      simp only
      by_cases hrefused : (r'.cs < 4 || r'.cpl < r.cpl || !d.returnAllowed r'.cpl) = true
      · rw [if_pos hrefused]
        exact hgp
      · rw [if_neg hrefused]
        simp only [Bool.or_eq_true, decide_eq_true_eq, Bool.not_eq_true', not_or, Nat.not_lt,
          Bool.not_eq_false] at hrefused
        obtain ⟨⟨-, hlevel⟩, hallowed⟩ := hrefused
        obtain ⟨hsegment, hexec, hdpl⟩ :=
          Descriptor.returnAllowed_nonconforming (h.nonconforming _ d hd) hallowed
        have hlt : r'.cpl < 4 := Nat.mod_lt _ (by decide)
        have hcpl : r'.cpl = 3 := by omega
        have huser := h.user_code _ d hd hsegment hexec (hdpl.trans hcpl)
        split
        · exact h.fault hr (by decide) (by decide) (by decide)
        · rw [if_pos (hcpl.trans hr.symm)]
          change r'.cs = user + 3
          unfold Regs.cpl at hcpl
          omega

/-- One action at level 3. -/
theorem Sealed.act (h : Sealed t user code stack) (huser : user % 4 = 0) (hcs : r.cs = user + 3)
    {a : Action} (ha : a.Served t) :
    Confined t user code stack (a.Reaches t) (t.act r a) := by
  have hr : r.cpl = 3 := by
    unfold Regs.cpl
    omega
  have hgp : ∀ {reaches : ℕ → Prop}, reaches 13 →
      Confined t user code stack reaches (t.deliver r generalProtection) :=
    fun hreach => h.fault hr (by decide) (by decide) hreach
  have hserved : ∀ (reaches : ℕ → Prop) {v : ℕ}, reaches v → (t.gate v).isSome = true →
      Confined t user code stack reaches (t.deliver r v) := by
    intro reaches v hv hgate
    obtain ⟨g, hg⟩ := Option.isSome_iff_exists.mp hgate
    rw [h.deliver hr hg]
    exact ⟨hv, g, hg, rfl⟩
  cases a with
  | loadData sel =>
      unfold Tables.act
      simp only
      split
      · exact hcs
      split
      · split
        · exact hcs
        · exact h.fault hr (by decide) (by decide) ⟨by decide, by decide⟩
      · exact hgp ⟨by decide, by decide⟩
  | loadStack sel =>
      unfold Tables.act
      simp only
      split
      · split
        · exact hcs
        · exact h.fault hr (by decide) (by decide) ⟨by decide, by decide⟩
      · exact hgp ⟨by decide, by decide⟩
  | jump sel offset => exact h.jump hr sel offset
  | «return» r' => exact h.return hr r'
  | taskReturn =>
      change Confined t user code stack _ (t.taskReturn r)
      unfold Tables.taskReturn
      cases hd : t.lookup (t.tss 0 % 2 ^ 16) with
      | none => exact h.fault hr (by decide) (by decide) ⟨by decide, by decide⟩
      | some d =>
          have hlink := h.link d hd
          simp only
          rw [if_neg (by simp [hlink])]
          exact h.fault hr (by decide) (by decide) ⟨by decide, by decide⟩
  | interrupt n =>
      change Confined t user code stack _ (t.interrupt r n)
      unfold Tables.interrupt
      cases hg : t.gate n with
      | none => exact hgp (.inl rfl)
      | some g =>
          simp only
          split
          · exact hgp (.inl rfl)
          · rename_i hdpl
            rw [h.enter hr hg (by decide)]
            exact ⟨.inr ⟨rfl, g, hg, by omega⟩, g, hg, rfl⟩
  | port n width =>
      have hclosed : t.portAllowed n width = false := by
        have hports := h.ports
        unfold Tables.portAllowed
        rw [Bool.and_eq_false_iff]
        exact .inl (by simp; omega)
      unfold Tables.act
      simp only
      rw [hclosed, if_neg (by simp [hr])]
      exact hgp rfl
  | privileged =>
      unfold Tables.act
      simp only
      rw [if_neg (by omega)]
      exact hgp rfl
  | exception v => exact hserved (fun w => w = v) rfl ha
  | line v => exact hserved (fun w => w = v) rfl ha

/-- Whatever is tried at level 3, and for how long: it ends in a handler that its last action may
lead to, or it is still at level 3. -/
theorem Sealed.run (h : Sealed t user code stack) (huser : user % 4 = 0) {actions : List Action} :
    ∀ {r : Regs}, r.cs = user + 3 → (∀ a ∈ actions, a.Served t) →
      Confined t user code stack (fun v => ∃ a ∈ actions, a.Reaches t v) (t.run r actions) := by
  induction actions with
  | nil => exact fun hcs _ => hcs
  | cons a actions ih =>
      intro r hcs hserved
      have hstep := h.act huser hcs (hserved a List.mem_cons_self)
      rw [Tables.run]
      cases hact : t.act r a with
      | continues r' =>
          rw [hact] at hstep
          have hrest := ih hstep fun b hb => hserved b (List.mem_cons_of_mem a hb)
          simp only
          cases hrun : t.run r' actions with
          | continues r'' => rw [hrun] at hrest; exact hrest
          | enters v r'' =>
              rw [hrun] at hrest
              obtain ⟨⟨b, hb, hreach⟩, hentry⟩ := hrest
              exact ⟨⟨b, List.mem_cons_of_mem a hb, hreach⟩, hentry⟩
          | system => rw [hrun] at hrest; exact hrest
          | shutdown => rw [hrun] at hrest; exact hrest
      | enters v r' =>
          rw [hact] at hstep
          exact ⟨⟨a, List.mem_cons_self, hstep.1⟩, hstep.2⟩
      | system => rw [hact] at hstep; exact hstep
      | shutdown => rw [hact] at hstep; exact hstep

end X86Protection
