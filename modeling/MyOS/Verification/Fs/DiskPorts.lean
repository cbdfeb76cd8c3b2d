import MyOS.Model.Boot
import MyOS.Model.Disk
import MyOS.Verification.Process.Views

/-! The disk driver at its ports, against a drive that is busy as long as it likes: what the file
system takes for reading a sector is what the driver does. -/

namespace MyOS

open AtaDrive Effect

/-! ## Waiting -/

/-- However long the drive is busy, the wait ends. -/
theorem waitDiskReady_eq {fuel : ℕ} {d : Drive} (h : d.phase.polls ≤ fuel) :
    waitDiskReady fuel d = some d.awake := by
  induction fuel generalizing d with
  | zero =>
      have := d.phase.polls_pos
      omega
  | succ fuel ih =>
      unfold waitDiskReady
      rcases d.readStatus_cases with ⟨hstatus, hawake⟩ | ⟨hstatus, hawake, hpolls⟩
      · rw [← hawake]
        exact if_neg fun hne => hne hstatus
      · have hrest := ih (d := d.readStatus.2) (by omega)
        rw [hawake] at hrest
        exact (if_pos hstatus).trans hrest

/-! ## One sector -/

/-- The bytes of a word of the medium. -/
theorem byte_of_word (low high : UInt8) :
    UInt8.ofNat ((low.toNat + 256 * high.toNat) % 256) = low ∧
      UInt8.ofNat ((low.toNat + 256 * high.toNat) / 256) = high := by
  have hlow := low.toNat_lt
  have hhigh := high.toNat_lt
  have hmod : (low.toNat + 256 * high.toNat) % 256 = low.toNat := by omega
  have hdiv : (low.toNat + 256 * high.toNat) / 256 = high.toNat := by omega
  rw [hmod, hdiv]
  exact ⟨UInt8.ofNat_toNat, UInt8.ofNat_toNat⟩

/-- After `n` words the buffer has the first `2 * n` bytes of the sector, and the drive offers the
next word; behind the last one it is idle. -/
theorem readWords_eq {d : DiskPorts} {lba : ℕ} (h : d.drive.phase = .ready (.transfer lba 0 0))
    {n : ℕ} (hn : n ≤ 256) :
    readWords n d =
      { drive :=
          if n < 256 then { d.drive with phase := .ready (.transfer lba 0 n) }
          else d.drive.enter .idle
        dmaBuffer := fun i => if i < 2 * n then d.drive.medium lba i else d.dmaBuffer i } := by
  induction n with
  | zero =>
      have hsame : { d.drive with phase := .ready (.transfer lba 0 0) } = d.drive := by rw [← h]
      rw [if_pos (by decide), hsame]
      rfl
  | succ n ih =>
      have hprev := ih (by omega)
      rw [if_pos (by omega)] at hprev
      obtain ⟨hlow, hhigh⟩ :=
        byte_of_word (d.drive.medium lba (2 * n)) (d.drive.medium lba (2 * n + 1))
      rw [readWords, hprev]
      simp only [Drive.readData, hlow, hhigh]
      congr 1
      funext i
      by_cases hhi : i = 2 * n + 1
      · rw [hhi, Function.update_self, if_pos (by omega)]
      · rw [Function.update_of_ne hhi]
        by_cases hlo : i = 2 * n
        · rw [hlo, Function.update_self, if_pos (by omega)]
        · rw [Function.update_of_ne hlo]
          by_cases hin : i < 2 * n
          · rw [if_pos hin, if_pos (by omega)]
          · rw [if_neg hin, if_neg (by omega)]

/-- A drive that is awake and has the sector takes the command. -/
theorem askForSector_eq {lba : ℕ} {drive : Drive} (hsettled : drive.Settled)
    (hsize : lba % 2 ^ 28 < drive.size) :
    ∃ asked : Drive, drive.Same asked ∧ asked.period = drive.period ∧
      askForSector lba drive.awake = asked.enter (.transfer (lba % 2 ^ 28) 0 0) := by
  have hor : ∀ x < 16, 0xE0 ||| x = 0xE0 + x := by decide
  obtain ⟨asked, hasked⟩ : ∃ asked : Drive, asked = { drive.awake with
      device := 0xE0 + lba / 2 ^ 24 % 16
      count := 1
      lbaLow := lba % 2 ^ 8
      lbaMid := lba / 2 ^ 8 % 2 ^ 8
      lbaHigh := lba / 2 ^ 16 % 2 ^ 8 } := ⟨_, rfl⟩
  have hcommand : asked.command 0x20 = asked.enter (.transfer (lba % 2 ^ 28) 0 0) := by
    rw [hasked]
    exact Drive.command_read rfl rfl rfl rfl rfl hsize
  refine ⟨asked, ?_, ?_, ?_⟩
  · rw [hasked]
    exact ⟨rfl, rfl, rfl⟩
  · rw [hasked]
    rfl
  · rw [← hcommand, hasked]
    unfold askForSector
    rw [hor _ (Nat.mod_lt _ (by decide))]
    rcases hsettled with hidle | hfailed
    · simp only [Drive.awake, hidle]
      rfl
    · simp only [Drive.awake, hfailed]
      rfl

/-- What one read takes: looks at the status before the command and behind it. -/
def patience (d : Drive) : ℕ := d.phase.polls + (d.periods d.period).length + 1

/-- A call of `read_disk_sector` for a sector that exists. -/
theorem readDiskSectorPorts_eq {lba : ℕ} {d : DiskPorts} (hsettled : d.drive.Settled)
    (hsize : lba % 2 ^ 28 < d.drive.size) :
    ∃ drive, d.drive.Same drive ∧ drive.Settled ∧ ∀ fuel, patience d.drive ≤ fuel →
      readDiskSectorPorts fuel lba d =
        some ⟨drive, fun i => if i < 512 then d.drive.medium (lba % 2 ^ 28) i else d.dmaBuffer i⟩ := by
  obtain ⟨asked, hsame, hperiod, hask⟩ := askForSector_eq hsettled hsize
  obtain ⟨offered, hoffered⟩ : ∃ offered : Drive,
      offered = (asked.enter (.transfer (lba % 2 ^ 28) 0 0)).awake := ⟨_, rfl⟩
  have hphase : offered.phase = .ready (.transfer (lba % 2 ^ 28) 0 0) := by
    rw [hoffered]
    rfl
  have hoffer : d.drive.Same offered := by
    rw [hoffered]
    exact ⟨hsame.medium, hsame.size, hsame.periods⟩
  have hwords := readWords_eq (d := { d with drive := offered }) hphase (Nat.le_refl 256)
  rw [if_neg (by decide)] at hwords
  simp only [hoffer.medium] at hwords
  refine ⟨offered.enter .idle, ⟨hoffer.medium, hoffer.size, hoffer.periods⟩, .inl rfl, ?_⟩
  intro fuel hfuel
  unfold patience at hfuel
  have hpolls : (asked.enter (.transfer (lba % 2 ^ 28) 0 0)).phase.polls ≤ fuel := by
    change (asked.periods asked.period).length + 1 ≤ fuel
    rw [hsame.periods, hperiod]
    omega
  unfold readDiskSectorPorts
  rw [waitDiskReady_eq (show d.drive.phase.polls ≤ fuel by omega), Option.bind_eq_bind,
    Option.bind_some, hask, waitDiskReady_eq hpolls, ← hoffered]
  exact congrArg some hwords

/-! ## The file system's view -/

/-- Sectors read one after the other, as the file system takes it. -/
def readSectorsTo : List (ℕ × ℕ) → Kernel Unit
  | [] => pure ()
  | (lba, bufferOut) :: reads => do
      readDiskSectorTo lba bufferOut
      readSectorsTo reads

theorem readDiskSectorTo_eq (lba bufferOut : ℕ) (s : Machine) :
    readDiskSectorTo lba bufferOut s =
      memcpyFrom bufferOut (fun i => if i < 512 then s.disk (lba % 2 ^ 28) i else s.dmaBuffer i) 512
        { s with
          dmaBuffer := fun i => if i < 512 then s.disk (lba % 2 ^ 28) i else s.dmaBuffer i } := by
  have hread : readDiskSector lba s = .ok () { s with
      dmaBuffer := fun i => if i < 512 then s.disk (lba % 2 ^ 28) i else s.dmaBuffer i } := rfl
  unfold readDiskSectorTo
  rw [bind_of_ok hread, bind_of_ok (get_apply _)]

theorem readDiskSectorVia_eq {lba : ℕ} {drive : Drive} {s : Machine}
    (hmedium : drive.medium = s.disk) (hsettled : drive.Settled)
    (hsize : lba % 2 ^ 28 < drive.size) (bufferOut : ℕ) :
    ∃ drive', drive.Same drive' ∧ drive'.Settled ∧ ∀ fuel, patience drive ≤ fuel →
      readDiskSectorVia fuel lba bufferOut drive s =
        some (drive', readDiskSectorTo lba bufferOut s) := by
  obtain ⟨drive', hsame, hsettled', hread⟩ :=
    readDiskSectorPorts_eq (d := ⟨drive, s.dmaBuffer⟩) hsettled hsize
  refine ⟨drive', hsame, hsettled', ?_⟩
  intro fuel hfuel
  unfold readDiskSectorVia
  rw [hread fuel hfuel, Option.bind_eq_bind, Option.bind_some, hmedium, readDiskSectorTo_eq]
  rfl

theorem storeBlind_disk : StoreBlind fun s t : Machine => t.disk = s.disk where
  toChain := chain_eq Machine.disk
  mem := fun _ _ => rfl

theorem memcpyFrom_disk {dest n : ℕ} {src : ℕ → UInt8} {s s' : Machine}
    (h : memcpyFrom dest src n s = .ok () s') : s'.disk = s.disk :=
  (storeBlind_disk.memcpyFrom dest src n).ok h

theorem readDiskSectorTo_disk {lba bufferOut : ℕ} {s s' : Machine}
    (h : readDiskSectorTo lba bufferOut s = .ok () s') : s'.disk = s.disk := by
  rw [readDiskSectorTo_eq] at h
  have hdisk := memcpyFrom_disk h
  exact hdisk

/-- The driver does what the file system relies on, however long the drive is busy each time: any
sequence of reads comes to an end, with the sectors where they belong, or at a copy that faults. -/
theorem disk_driver_refines (reads : List (ℕ × ℕ)) (drive : Drive) (s : Machine)
    (hmedium : drive.medium = s.disk) (hsettled : drive.Settled)
    (hsize : ∀ r ∈ reads, r.1 % 2 ^ 28 < drive.size) :
    ∃ fuel₀, ∀ fuel, fuel₀ ≤ fuel → ∃ drive',
      readSectorsVia fuel reads drive s = some (drive', readSectorsTo reads s) ∧
      drive.Same drive' ∧ drive'.Settled := by
  induction reads generalizing drive s with
  | nil => exact ⟨0, fun _ _ => ⟨drive, rfl, Drive.Same.refl drive, hsettled⟩⟩
  | cons r reads ih =>
      obtain ⟨lba, bufferOut⟩ := r
      have hlba := hsize _ List.mem_cons_self
      have hrest : ∀ r ∈ reads, r.1 % 2 ^ 28 < drive.size :=
        fun r hr => hsize r (List.mem_cons_of_mem _ hr)
      obtain ⟨drive', hsame, hsettled', hread⟩ :=
        readDiskSectorVia_eq hmedium hsettled hlba bufferOut
      cases hto : readDiskSectorTo lba bufferOut s with
      | error e t =>
          refine ⟨patience drive, fun fuel hfuel => ⟨drive', ?_, hsame, hsettled'⟩⟩
          rw [readSectorsVia, hread fuel hfuel, readSectorsTo, bind_of_error hto, hto]
          rfl
      | ok _ t =>
          have hmedium' : drive'.medium = t.disk := by
            rw [hsame.medium, hmedium, readDiskSectorTo_disk hto]
          have hrest' : ∀ r ∈ reads, r.1 % 2 ^ 28 < drive'.size := by
            rw [hsame.size]
            exact hrest
          obtain ⟨fuel₀, hfuel₀⟩ := ih drive' t hmedium' hsettled' hrest'
          refine ⟨max (patience drive) fuel₀, fun fuel hfuel => ?_⟩
          obtain ⟨drive'', hreads, hsame', hsettled''⟩ := hfuel₀ fuel (by omega)
          refine ⟨drive'', ?_, hsame.trans hsame', hsettled''⟩
          rw [readSectorsVia, hread fuel (by omega), readSectorsTo, bind_of_ok hto, hto]
          exact hreads

/-- The boot sector and the first sector of the FAT, from a floppy image that is slow to start. -/
theorem disk_driver_refines_floppy : ∃ (s : Machine) (drive drive' : Drive) (fuel : ℕ),
    drive.phase = .busy [0x7F, 0] .idle ∧
    readSectorsVia fuel [(0, 0x22000), (150, 0x300000)] drive s =
      some (drive', readSectorsTo [(0, 0x22000), (150, 0x300000)] s) := by
  obtain ⟨s, hs⟩ : ∃ s : Machine, s = kmainEntry (fun _ => 0) (fun lba _ => UInt8.ofNat lba)
    fun _ => 0 := ⟨_, rfl⟩
  obtain ⟨drive, hdrive⟩ : ∃ drive : Drive, drive =
      ⟨s.disk, 2880, fun _ => [0x50], 0, 0, 0, 0, 0, 0, .busy [0x7F, 0] .idle⟩ := ⟨_, rfl⟩
  have hmedium : drive.medium = s.disk := by rw [hdrive]
  have hsettled : drive.Settled := by
    rw [hdrive]
    exact .inl rfl
  have hsize : ∀ r ∈ [(0, 0x22000), (150, 0x300000)], r.1 % 2 ^ 28 < drive.size := by
    rw [hdrive]
    exact (by decide : ∀ r ∈ [(0, 0x22000), (150, 0x300000)], r.1 % 2 ^ 28 < 2880)
  obtain ⟨fuel, hfuel⟩ := disk_driver_refines _ drive s hmedium hsettled hsize
  obtain ⟨drive', hreads, -⟩ := hfuel fuel (Nat.le_refl _)
  exact ⟨s, drive, drive', fuel, by rw [hdrive], hreads⟩

end MyOS
