import Mathlib.Algebra.Group.Nat.Defs
import Mathlib.Data.Nat.Notation
import Mathlib.Logic.Function.Basic
import Mathlib.Tactic.Common

/-! An ATA drive behind its registers, as far as reading by programmed input goes. A command makes
the drive busy for as long as it likes; then it offers its sectors word by word. -/

namespace AtaDrive

/-- What a drive does that is not busy. -/
inductive Work
  | idle
  | failed
  /-- Sector `lba` is offered from `word` on, and `left` sectors behind it. -/
  | transfer (lba left word : ℕ)
  deriving DecidableEq, Repr

inductive Phase
  /-- Busy; `shown` is what the status register will show until then, below its first bit. -/
  | busy (shown : List ℕ) (next : Work)
  | ready (work : Work)
  deriving DecidableEq, Repr

structure Drive where
  medium : ℕ → ℕ → UInt8
  size : ℕ
  /-- How the drive will be busy, each time it is. -/
  periods : ℕ → List ℕ
  period : ℕ
  count : ℕ
  lbaLow : ℕ
  lbaMid : ℕ
  lbaHigh : ℕ
  device : ℕ
  phase : Phase

/-- `BSY` is clear and `DRDY` set; with `DRQ` in a transfer, and with `ERR` after a failure. -/
def Work.status : Work → ℕ
  | .idle => 0x50
  | .failed => 0x51
  | .transfer _ _ _ => 0x58

def Drive.enter (d : Drive) (next : Work) : Drive :=
  { d with phase := .busy (d.periods d.period) next, period := d.period + 1 }

/-- Reading the status register. -/
def Drive.readStatus (d : Drive) : ℕ × Drive :=
  match d.phase with
  | .busy (b :: shown) next => (0x80 + b % 128, { d with phase := .busy shown next })
  | .busy [] next => (next.status, { d with phase := .ready next })
  | .ready work => (work.status, d)

/-- Reading a word of the data register. Without a transfer nothing drives the bus. -/
def Drive.readData (d : Drive) : ℕ × Drive :=
  match d.phase with
  | .ready (.transfer lba left word) =>
      ((d.medium lba (2 * word)).toNat + 256 * (d.medium lba (2 * word + 1)).toNat,
        if word + 1 < 256 then { d with phase := .ready (.transfer lba left (word + 1)) }
        else if left = 0 then d.enter .idle
        else d.enter (.transfer (lba + 1) (left - 1) 0))
  | _ => (0xFFFF, d)

/-- The sector in the address registers. -/
def Drive.address (d : Drive) : ℕ :=
  d.lbaLow + 2 ^ 8 * d.lbaMid + 2 ^ 16 * d.lbaHigh + 2 ^ 24 * (d.device % 16)

/-- A command: only sectors that exist can be read, by their block address and from the first
drive. -/
def Drive.command (d : Drive) (b : ℕ) : Drive :=
  let n := if d.count = 0 then 256 else d.count
  if b = 0x20 ∧ d.device.testBit 6 ∧ ¬d.device.testBit 4 ∧ d.address + n ≤ d.size then
    d.enter (.transfer d.address (n - 1) 0)
  else d.enter .failed

/-- A byte to a register. A drive that is busy or offers a sector takes none. -/
def Drive.write (d : Drive) (port b : ℕ) : Drive :=
  match d.phase with
  | .busy _ _ => d
  | .ready (.transfer _ _ _) => d
  | .ready _ =>
      match port with
      | 0x1F2 => { d with count := b }
      | 0x1F3 => { d with lbaLow := b }
      | 0x1F4 => { d with lbaMid := b }
      | 0x1F5 => { d with lbaHigh := b }
      | 0x1F6 => { d with device := b }
      | 0x1F7 => d.command b
      | _ => d

/-- What the drive is about when it is not busy any more. -/
def Phase.work : Phase → Work
  | .busy _ next => next
  | .ready work => work

/-- No transfer is under way. -/
def Drive.Settled (d : Drive) : Prop := d.phase.work = .idle ∨ d.phase.work = .failed

/-- The same drive, with its disk and its habits. -/
structure Drive.Same (d d' : Drive) : Prop where
  medium : d'.medium = d.medium
  size : d'.size = d.size
  periods : d'.periods = d.periods

theorem Drive.Same.refl (d : Drive) : d.Same d := ⟨rfl, rfl, rfl⟩

theorem Drive.Same.trans {d d' d'' : Drive} (h : d.Same d') (h' : d'.Same d'') : d.Same d'' :=
  ⟨h'.medium.trans h.medium, h'.size.trans h.size, h'.periods.trans h.periods⟩

/-! ## The status register -/

theorem busy_status (b : ℕ) : (0x80 + b % 128) &&& 0xC0 ≠ 0x40 := by
  have hall : ∀ x < 128, (0x80 + x) &&& 0xC0 ≠ 0x40 := by decide
  exact hall _ (Nat.mod_lt b (by decide))

theorem work_status (work : Work) : work.status &&& 0xC0 = 0x40 := by
  cases work with
  | idle => rfl
  | failed => rfl
  | transfer lba left word => exact (by decide : 0x58 &&& 0xC0 = 0x40)

/-- The drive when it is not busy any more. -/
def Drive.awake (d : Drive) : Drive := { d with phase := .ready d.phase.work }

/-- How often the status can be read until the drive is not busy any more. -/
def Phase.polls : Phase → ℕ
  | .busy shown _ => shown.length + 1
  | .ready _ => 1

theorem Phase.polls_pos (p : Phase) : 0 < p.polls := by
  cases p <;> simp [Phase.polls]

/-- One look at the status: the drive is awake, or has been busy for one look more. -/
theorem Drive.readStatus_cases (d : Drive) :
    d.readStatus.1 &&& 0xC0 = 0x40 ∧ d.readStatus.2 = d.awake ∨
    d.readStatus.1 &&& 0xC0 ≠ 0x40 ∧ d.readStatus.2.awake = d.awake ∧
      d.readStatus.2.phase.polls + 1 = d.phase.polls := by
  obtain ⟨medium, size, periods, period, count, lbaLow, lbaMid, lbaHigh, device, phase⟩ := d
  cases phase with
  | ready work => exact .inl ⟨work_status work, rfl⟩
  | busy shown next =>
      cases shown with
      | nil => exact .inl ⟨work_status next, rfl⟩
      | cons b shown => exact .inr ⟨busy_status b, rfl, rfl⟩

/-! ## Commands -/

/-- The registers of a read command for one sector. -/
theorem Drive.command_read {d : Drive} {lba : ℕ} (hcount : d.count = 1)
    (hdevice : d.device = 0xE0 + lba / 2 ^ 24 % 16) (hlow : d.lbaLow = lba % 2 ^ 8)
    (hmid : d.lbaMid = lba / 2 ^ 8 % 2 ^ 8) (hhigh : d.lbaHigh = lba / 2 ^ 16 % 2 ^ 8)
    (hsize : lba % 2 ^ 28 < d.size) :
    d.command 0x20 = d.enter (.transfer (lba % 2 ^ 28) 0 0) := by
  have haddress : d.address = lba % 2 ^ 28 := by
    unfold Drive.address
    omega
  have hbits : ∀ x < 16, (0xE0 + x).testBit 6 = true ∧ (0xE0 + x).testBit 4 = false := by decide
  obtain ⟨h6, h4⟩ := hbits _ (Nat.mod_lt (lba / 2 ^ 24) (by decide))
  unfold Drive.command
  rw [hcount, hdevice, haddress, h6, h4]
  exact if_pos ⟨rfl, rfl, Bool.false_ne_true, hsize⟩

end AtaDrive
