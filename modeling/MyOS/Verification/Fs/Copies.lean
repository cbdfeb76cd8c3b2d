import MyOS.Model.Copied
import MyOS.Verification.Fs.AnyVolume

/-! The copies of `fs_read_file` stay inside the file buffer and the bounce buffer, whatever the
FAT holds and however long its chain is followed. -/

namespace MyOS

open Effect Logged

/-! ## Logs -/

/-- The offsets of the file buffer written, in order. -/
def offsets (log : List CopyEvent) : List ℕ :=
  log.filterMap fun e =>
    match e with
    | .copy offset _ => some offset
    | .round => none

/-- The rounds that are over. -/
def rounds (log : List CopyEvent) : ℕ := log.count .round

/-- What was copied went to the buffer of `size` bytes from its start on, each byte once, and came
from the 512 bytes of `dma_buffer`. -/
structure Inside (size : ℕ) (log : List CopyEvent) : Prop where
  order : offsets log = List.range (offsets log).length
  length_le : (offsets log).length ≤ size
  source : ∀ offset source, CopyEvent.copy offset source ∈ log → source < 512

/-- And exactly the first bytes were, up to 512 of them in each round. -/
structure Exactly (size : ℕ) (log : List CopyEvent) : Prop extends Inside size log where
  length_eq : (offsets log).length = min size (512 * rounds log)

/-- The copies stay inside at every moment, and are exactly these between the rounds. -/
structure Copies (size : ℕ) (log : List CopyEvent) : Prop where
  inside : ∀ pre, pre <+: log → Inside size pre
  exact : ∀ pre, pre ++ [.round] <+: log → Exactly size (pre ++ [.round])

variable {log : List CopyEvent} {size : ℕ}

theorem copies_nil (size : ℕ) : Copies size [] where
  inside pre hpre := by
    rw [List.prefix_nil.mp hpre]
    exact ⟨rfl, Nat.zero_le _, fun _ _ h => absurd h List.not_mem_nil⟩
  exact pre hpre := by simp at hpre

/-- One more byte. -/
theorem Copies.copy (h : Copies size log) {offset source : ℕ}
    (hoffset : (offsets log).length = offset) (hlt : offset < size) (hsource : source < 512) :
    Copies size (log ++ [.copy offset source]) := by
  have hinside := h.inside log (List.prefix_refl log)
  have hnew : offsets (log ++ [.copy offset source]) = offsets log ++ [offset] := by
    simp [offsets]
  constructor
  · intro pre hpre
    rcases List.prefix_concat_iff.mp hpre with rfl | hpre
    · refine ⟨?_, ?_, ?_⟩
      · rw [hnew, List.length_append, List.length_singleton, List.range_succ, hoffset,
          ← hoffset, ← hinside.order]
      · rw [hnew, List.length_append, List.length_singleton]
        omega
      · intro o d hmem
        rcases List.mem_append.mp hmem with hmem | hmem
        · exact hinside.source o d hmem
        · cases List.mem_singleton.mp hmem
          exact hsource
    · exact h.inside pre hpre
  · intro pre hpre
    rcases List.prefix_concat_iff.mp hpre with heq | hpre
    · have hlast := (List.append_inj' heq rfl).2
      simp at hlast
    · exact h.exact pre hpre

/-- A round is over. -/
theorem Copies.round (h : Copies size log)
    (hlength : (offsets log).length = min size (512 * (rounds log + 1))) :
    Copies size (log ++ [.round]) := by
  have hinside := h.inside log (List.prefix_refl log)
  have hsame : offsets (log ++ [.round]) = offsets log := by simp [offsets]
  have hexact : Exactly size (log ++ [.round]) := by
    refine ⟨⟨?_, ?_, ?_⟩, ?_⟩
    · rw [hsame]
      exact hinside.order
    · rw [hsame]
      exact hinside.length_le
    · intro o d hmem
      exact hinside.source o d (by simpa using hmem)
    · rw [hsame, hlength]
      simp [rounds]
  constructor
  · intro pre hpre
    rcases List.prefix_concat_iff.mp hpre with rfl | hpre
    · exact hexact.toInside
    · exact h.inside pre hpre
  · intro pre hpre
    rcases List.prefix_concat_iff.mp hpre with heq | hpre
    · rw [heq]
      exact hexact
    · exact h.exact pre hpre

/-! ## The loop -/

/-- Steps of the machine leave the log. -/
theorem ends_quiet_bind {α β : Type} {c : Kernel α} {f : α → Copying β} {s : Machine}
    {Q : β → Machine × List CopyEvent → Prop} {E : Machine × List CopyEvent → Prop}
    (hE : ∀ t, E (t, log)) (hf : ∀ a t, c s = .ok a t → Ends Q E (f a (t, log))) :
    Ends Q E ((quiet c >>= f) (s, log)) := by
  cases hc : c s with
  | ok a t =>
      rw [bind_of_ok (quiet_ok hc log)]
      exact hf a t hc
  | error e t =>
      rw [bind_of_error (quiet_error hc log)]
      exact hE t

/-- Where `n` bytes may be copied, they are, unless the copy stops on the way. -/
theorem memcpyFromNoted_copies (fileBuffer copied : ℕ) (src : ℕ → UInt8) {s : Machine}
    (h : Copies size log) (hcopied : (offsets log).length = copied) (n : ℕ)
    (hsize : copied + n ≤ size) (hn : n ≤ 512) :
    Ends (fun _ p => Copies size p.2 ∧ (offsets p.2).length = copied + n ∧ rounds p.2 = rounds log)
      (fun p => Copies size p.2) (memcpyFromNoted fileBuffer copied src n (s, log)) := by
  induction n with
  | zero => exact ⟨h, hcopied, rfl⟩
  | succ n ih =>
      apply ends_bind (ih (by omega) (by omega))
      rintro - ⟨t, log'⟩ ⟨hcopies, hlength, hrounds⟩
      apply ends_quiet_bind fun _ => hcopies
      intro _ u _
      refine ⟨hcopies.copy hlength (by omega) (by omega), ?_, ?_⟩
      · simp [offsets] at hlength ⊢
        omega
      · simpa [rounds] using hrounds

/-- The invariant of the loop: `current_pos` is behind the bytes copied, and as many rounds were
made as it takes to get there. -/
theorem readClustersNoted_copies (fileBuffer : ℕ) (hsize : size < 2 ^ 32) (fuel : ℕ) :
    ∀ (copied cluster : ℕ) (s : Machine) (log : List CopyEvent), Copies size log →
      (offsets log).length = copied → copied = min size (512 * rounds log) →
      Ends (fun _ p => Copies size p.2) (fun p => Copies size p.2)
        (readClustersNoted fileBuffer size 512 fuel copied cluster (s, log)) := by
  induction fuel with
  | zero => exact fun _ _ _ _ h _ _ => h
  | succ fuel ih =>
      intro copied cluster s log h hlength hcopied
      unfold readClustersNoted
      by_cases hcluster : cluster < 0xFF8
      · rw [if_pos hcluster]
        apply ends_quiet_bind fun _ => h
        intro start t _
        apply ends_quiet_bind fun _ => h
        intro _ u _
        apply ends_quiet_bind fun _ => h
        intro dma v _
        -- `remaining` does not wrap
        have hremaining : (size + 2 ^ 32 - copied) % 2 ^ 32 = size - copied := by omega
        rw [hremaining]
        generalize htoCopy : (if size - copied > 512 then 512 else size - copied) = toCopy
        have hbound : toCopy ≤ 512 ∧ copied + toCopy = min size (512 * (rounds log + 1)) := by
          rw [← htoCopy]
          split <;> omega
        apply ends_bind (memcpyFromNoted_copies fileBuffer copied dma h hlength toCopy (by omega)
          hbound.1)
        rintro - ⟨w, log'⟩ ⟨hcopies, hlength', hrounds⟩
        apply ends_quiet_bind fun _ => hcopies
        intro next x _
        have hround := hcopies.round (by rw [hlength', hrounds, hbound.2])
        have hoffsets : (offsets (log' ++ [.round])).length = copied + toCopy := by
          rw [← hlength']
          simp [offsets]
        have hmore : rounds (log' ++ [.round]) = rounds log + 1 := by
          rw [← hrounds]
          simp [rounds]
        have hposition : (copied + toCopy) % 2 ^ 32 = copied + toCopy := by omega
        rw [hposition]
        exact ih _ next x _ hround hoffsets (by rw [hmore, hbound.2])
      · rw [if_neg hcluster]
        exact h

/-! ## `fs_read_file` -/

theorem load32_lt {va v : ℕ} {s t : Machine} (h : load32 va s = .ok v t) : v < 2 ^ 32 := by
  obtain ⟨b0, u0, -, h⟩ := bind_eq_ok.mp h
  obtain ⟨b1, u1, -, h⟩ := bind_eq_ok.mp h
  obtain ⟨b2, u2, -, h⟩ := bind_eq_ok.mp h
  obtain ⟨b3, u3, -, h⟩ := bind_eq_ok.mp h
  injection h with hv
  have hlt0 := b0.toNat_lt
  have hlt1 := b1.toNat_lt
  have hlt2 := b2.toNat_lt
  have hlt3 := b3.toNat_lt
  omega

/-- On any disk the copies of `fs_read_file` stay inside the file buffer and the bounce buffer. -/
theorem fs_read_file_copies (s t : Machine) (entry size buf bytesPerSector fuel : ℕ)
    (sectorsPerCluster : UInt8) (hsize : load32 (entry + 28) s = .ok size s) (hpos : 0 < size)
    (hmalloc : malloc size s = .ok buf t)
    (hsectors : load8 (t.bpb + 13) t = .ok sectorsPerCluster t)
    (hbytes : load16 (t.bpb + 11) t = .ok bytesPerSector t)
    (hcluster : sectorsPerCluster.toNat * bytesPerSector = 512) :
    Copies size (final (fsReadFileNoted fuel entry) (s, [])).2 := by
  have hnil := copies_nil size
  refine Ends.final (E := fun p : Machine × List CopyEvent => Copies size p.2) ?_
  unfold fsReadFileNoted
  rw [bind_of_ok (quiet_ok hsize _), if_neg (by omega), bind_of_ok (quiet_ok hmalloc _)]
  by_cases hnull : buf = 0
  · rw [if_pos hnull]
    exact hnil
  · rw [if_neg hnull]
    apply ends_quiet_bind fun _ => hnil
    intro cluster u hfirst
    rw [load16_state hfirst]
    apply ends_quiet_bind fun _ => hnil
    intro bpb u hbpb
    cases hbpb
    rw [bind_of_ok (quiet_ok hsectors _), bind_of_ok (quiet_ok hbytes _), hcluster]
    apply ends_bind (readClustersNoted_copies buf (load32_lt hsize) fuel 0 cluster t [] hnil rfl
      (Nat.min_zero size).symm)
    intro _ p hcopies
    exact hcopies

/-- A file of 600 bytes in two clusters. -/
theorem fs_read_file_copies_two_clusters :
    Copies 600 (final (fsReadFileNoted 5 0x4000)
      (sampleMachine (fileMemory 0x58 2 1 3) countingDisk, [])).2 := by
  have hvolume := fatVolume_fileMemory 0x58 2 1 3 countingDisk
  have hentry := fileEntry_fileMemory 0x58 2 1 3 countingDisk
  have hmalloc : MallocServes (sampleMachine (fileMemory 0x58 2 1 3) countingDisk) (floppy 1)
      0x4000 600 0x10008 (sampleMalloc (fileMemory 0x58 2 1 3) countingDisk 600) :=
    mallocServes_fileMemory 1 (by omega) (by omega)
  have hcaches := hmalloc.volume hvolume
  exact fs_read_file_copies _ _ 0x4000 600 0x10008 512 5 1 hentry.file_size (by decide)
    hmalloc.run hcaches.cluster_size hcaches.sector_size (by decide)

/-! ## Forgetting the log -/

theorem erases_memcpyFromNoted (fileBuffer copied : ℕ) (src : ℕ → UInt8) (n : ℕ) :
    Erases (memcpyFromNoted fileBuffer copied src n) (memcpyFrom (fileBuffer + copied) src n) := by
  unfold memcpyFromNoted memcpyFrom
  apply erases_forRange
  intro i
  exact (erases_quiet _).bind_note _

theorem erases_readClustersNoted (fileBuffer bytesPerCluster : ℕ) (hsize : size < 2 ^ 32)
    (fuel : ℕ) : ∀ copied cluster, copied ≤ size →
    Erases (readClustersNoted fileBuffer size bytesPerCluster fuel copied cluster)
      (readClusters fileBuffer size bytesPerCluster fuel copied cluster) := by
  induction fuel with
  | zero => exact fun _ _ _ => ⟨fun _ => rfl⟩
  | succ fuel ih =>
      intro copied cluster hcopied
      unfold readClustersNoted readClusters
      refine Erases.ite ?_ (erases_pure ())
      apply erases_read
      intro s
      apply (erases_quiet _).bind
      intro _
      have hremaining : (size + 2 ^ 32 - copied) % 2 ^ 32 = size - copied := by omega
      rw [hremaining]
      apply erases_read
      intro t
      apply (erases_memcpyFromNoted _ _ _ _).bind
      intro _
      apply (erases_quiet _).bind
      intro next
      apply Erases.note_bind
      have hle : (if size - copied > bytesPerCluster then bytesPerCluster else size - copied) ≤
          size - copied := by
        split <;> omega
      rw [Nat.mod_eq_of_lt (by omega)]
      exact ih _ next (by omega)

theorem erases_fsReadFileNoted (entry : ℕ) :
    Erases (fsReadFileNoted (2 ^ 45) entry) (fsReadFile entry) := by
  unfold fsReadFileNoted fsReadFile
  apply (erases_quiet _).bind_ok
  intro size s t hsize
  refine (erases_quiet _).ite ?_
  apply (erases_quiet _).bind
  intro fileBuffer
  refine (erases_pure 0).ite ?_
  apply (erases_quiet _).bind
  intro cluster
  apply erases_read
  intro u
  refine (erases_quiet _).bind fun sectorsPerCluster => (erases_quiet _).bind fun bytesPerSector => ?_
  exact (erases_readClustersNoted _ _ (load32_lt hsize) _ _ _ (Nat.zero_le _)).bind fun _ =>
    erases_pure _

end MyOS
