import Mathlib.Data.List.TakeWhile
import MyOS.Model.Shell
import MyOS.Verification.Memory.Identity

/-! The root directory as `ls` prints it and as `fs_find_file` searches it: both pass over the
same entries, and a file can be opened under the name that is listed. -/

namespace MyOS

open Effect X86Paging

/-! ## The cached directory -/

/-- The number of entries the loops look at. -/
def rootEntries (s : Machine) : ℕ := (s.rootDirectorySize + 31) / 32

/-- The driver has the root directory in memory. -/
def CachedDirectory (s : Machine) (dir : ℕ → UInt8) : Prop :=
  ∀ o < 32 * rootEntries s, load8 (s.rootDirectoryBuffer + o) s = .ok (dir o) s

/-- A deleted entry, a part of a long file name, or the volume label. -/
def Skipped (dir : ℕ → UInt8) (o : ℕ) : Prop :=
  dir o = 0xE5 ∨ dir (o + 11) &&& 0x0F = 0x0F ∨ dir (o + 11) &&& 0x08 ≠ 0

instance (dir : ℕ → UInt8) (o : ℕ) : Decidable (Skipped dir o) := instDecidableOr

/-- The files among `n` entries from offset `o` on, up to the end mark. -/
def filesFrom (dir : ℕ → UInt8) : ℕ → ℕ → List ℕ
  | 0, _ => []
  | n + 1, o =>
      if dir o = 0 then []
      else if Skipped dir o then filesFrom dir n (o + 32)
      else o :: filesFrom dir n (o + 32)

/-- The 11 bytes of name and extension. -/
def entryName (dir : ℕ → UInt8) (o : ℕ) : List UInt8 := (List.range 11).map fun k => dir (o + k)

/-- The line that belongs to an entry. -/
def entryLine (dir : ℕ → UInt8) (o : ℕ) : List UInt8 :=
  (entryName dir o).take 8 ++ text "  " ++ (entryName dir o).drop 8 ++ text "  0x" ++
    printHex (dir (o + 11)).toNat ++ text "  " ++
    printHex ((dir (o + 28)).toNat + 256 * (dir (o + 29)).toNat + 65536 * (dir (o + 30)).toNat +
      16777216 * (dir (o + 31)).toNat) ++ text "\n"

/-! ## The two scans -/

variable {s : Machine} {dir : ℕ → UInt8}

theorem loadBytes_eq {n addr o : ℕ} (h : ∀ k < n, load8 (addr + k) s = .ok (dir (o + k)) s) :
    loadBytes n addr s = .ok ((List.range n).map fun k => dir (o + k)) s := by
  induction n generalizing addr o with
  | zero => rfl
  | succ n ih =>
      have h0 := h 0 (by omega)
      have hrest : loadBytes n (addr + 1) s =
          .ok ((List.range n).map fun k => dir (o + 1 + k)) s := by
        refine ih fun k hk => ?_
        rw [Nat.add_assoc, Nat.add_comm 1 k, h (k + 1) (by omega), Nat.add_right_comm o 1 k,
          Nat.add_assoc o k 1]
      rw [Nat.add_zero] at h0
      rw [loadBytes, bind_of_ok h0, bind_of_ok hrest, List.range_succ_eq_map]
      simp [Function.comp_def, Nat.add_assoc, Nat.add_comm 1]

theorem memcmpEq_eq (name : List UInt8) {addr o : ℕ}
    (h : ∀ k < name.length, load8 (addr + k) s = .ok (dir (o + k)) s) :
    memcmpEq name addr s =
      .ok (decide (name = (List.range name.length).map fun k => dir (o + k))) s := by
  induction name generalizing addr o with
  | nil => rfl
  | cons b bs ih =>
      have h0 := h 0 (by simp)
      rw [Nat.add_zero, Nat.add_zero] at h0
      have hrest : memcmpEq bs (addr + 1) s =
          .ok (decide (bs = (List.range bs.length).map fun k => dir (o + 1 + k))) s := by
        refine ih fun k hk => ?_
        rw [Nat.add_assoc, Nat.add_comm 1 k, h (k + 1) (by simpa using hk),
          Nat.add_right_comm o 1 k, Nat.add_assoc o k 1]
      rw [memcmpEq, bind_of_ok h0, List.length_cons, List.range_succ_eq_map]
      by_cases hb : b = dir o
      · rw [if_pos hb, hrest]
        simp [hb, Function.comp_def, Nat.add_assoc, Nat.add_comm 1]
      · rw [if_neg hb]
        simp [hb]

theorem entryName_take (dir : ℕ → UInt8) (o : ℕ) :
    (entryName dir o).take 8 = (List.range 8).map fun k => dir (o + k) := rfl

theorem entryName_drop (dir : ℕ → UInt8) (o : ℕ) :
    (entryName dir o).drop 8 = (List.range 3).map fun k => dir (o + 8 + k) := rfl

section Scan

variable {base limit : ℕ} (hdir : ∀ o < limit, load8 (base + o) s = .ok (dir o) s)
include hdir

theorem load8_entry {o k : ℕ} (h : o + k < limit) :
    load8 (base + o + k) s = .ok (dir (o + k)) s := by
  rw [Nat.add_assoc]
  exact hdir _ h

theorem lsLine_eq {o : ℕ} (h : o + 32 ≤ limit) :
    lsLine (base + o) s = .ok (entryLine dir o) s := by
  have hname : loadBytes 8 (base + o) s = .ok ((entryName dir o).take 8) s := by
    rw [entryName_take]
    exact loadBytes_eq fun k hk => load8_entry hdir (by omega)
  have hextension : loadBytes 3 (base + o + 8) s = .ok ((entryName dir o).drop 8) s := by
    rw [entryName_drop]
    refine loadBytes_eq fun k hk => ?_
    rw [Nat.add_assoc (base + o), Nat.add_assoc o]
    exact load8_entry hdir (by omega)
  have hsize : load32 (base + o + 28) s = .ok ((dir (o + 28)).toNat +
      256 * (dir (o + 29)).toNat + 65536 * (dir (o + 30)).toNat +
      16777216 * (dir (o + 31)).toNat) s := by
    rw [load32, bind_of_ok (load8_entry hdir (by omega)), Nat.add_assoc (base + o),
      bind_of_ok (load8_entry hdir (by omega)), Nat.add_assoc (base + o),
      bind_of_ok (load8_entry hdir (by omega)), Nat.add_assoc (base + o),
      bind_of_ok (load8_entry hdir (by omega))]
    rfl
  rw [lsLine, bind_of_ok hname, bind_of_ok hextension,
    bind_of_ok (load8_entry hdir (show o + 11 < limit by omega)), bind_of_ok hsize]
  rfl

/-- `ls` prints the files. -/
theorem lsLines_eq {n o : ℕ} (h : o + 32 * n ≤ limit) :
    lsLines n (base + o) s = .ok ((filesFrom dir n o).flatMap (entryLine dir)) s := by
  induction n generalizing o with
  | zero => rfl
  | succ n ih =>
      have hrest := ih (show o + 32 + 32 * n ≤ limit by omega)
      rw [← Nat.add_assoc] at hrest
      rw [lsLines, bind_of_ok (hdir o (by omega)), filesFrom]
      by_cases hend : dir o = 0
      · rw [if_pos hend, if_pos hend]
        rfl
      · rw [if_neg hend, if_neg hend]
        by_cases hdeleted : dir o = 0xE5
        · rw [if_pos hdeleted, if_pos (.inl hdeleted)]
          exact hrest
        · rw [if_neg hdeleted, bind_of_ok (load8_entry hdir (show o + 11 < limit by omega))]
          by_cases hlong : dir (o + 11) &&& 0x0F = 0x0F
          · rw [if_pos hlong, if_pos (.inr (.inl hlong))]
            exact hrest
          · rw [if_neg hlong]
            by_cases hlabel : dir (o + 11) &&& 0x08 ≠ 0
            · rw [if_pos hlabel, if_pos (.inr (.inr hlabel))]
              exact hrest
            · have hfile : ¬Skipped dir o := by
                rintro (h | h | h)
                · exact hdeleted h
                · exact hlong h
                · exact hlabel h
              rw [if_neg hlabel, if_neg hfile, bind_of_ok (lsLine_eq hdir (by omega)),
                bind_of_ok hrest]
              rfl

/-- The search returns the first file of that name. -/
theorem searchDirectory_eq {name : List UInt8} (hname : name.length = 11) {n o : ℕ}
    (h : o + 32 * n ≤ limit) : searchDirectory name n (base + o) s =
      .ok (((filesFrom dir n o).find? fun e => entryName dir e = name).elim 0 (base + ·)) s := by
  induction n generalizing o with
  | zero => rfl
  | succ n ih =>
      have hrest := ih (show o + 32 + 32 * n ≤ limit by omega)
      rw [← Nat.add_assoc] at hrest
      rw [searchDirectory, bind_of_ok (hdir o (by omega)), filesFrom]
      by_cases hend : dir o = 0
      · rw [if_pos hend, if_pos hend]
        rfl
      · rw [if_neg hend, if_neg hend]
        by_cases hdeleted : dir o = 0xE5
        · rw [if_pos hdeleted, if_pos (.inl hdeleted)]
          exact hrest
        · rw [if_neg hdeleted, bind_of_ok (load8_entry hdir (show o + 11 < limit by omega))]
          by_cases hattributes : dir (o + 11) &&& 0x0F = 0x0F ∨ dir (o + 11) &&& 0x08 ≠ 0
          · rw [if_pos hattributes, if_pos (.inr hattributes)]
            exact hrest
          · have hfile : ¬Skipped dir o := by
              rintro (h | h)
              · exact hdeleted h
              · exact hattributes h
            have htake : memcmpEq (name.take 8) (base + o) s =
                .ok (decide (name.take 8 = (entryName dir o).take 8)) s := by
              have hlen : (name.take 8).length = 8 := by simp [hname]
              have hbytes : ∀ k < (name.take 8).length,
                  load8 (base + o + k) s = .ok (dir (o + k)) s :=
                fun k hk => load8_entry hdir (by omega)
              have hcmp := memcmpEq_eq (name.take 8) hbytes
              rwa [hlen, ← entryName_take] at hcmp
            have hdrop : memcmpEq (name.drop 8) (base + o + 8) s =
                .ok (decide (name.drop 8 = (entryName dir o).drop 8)) s := by
              have hlen : (name.drop 8).length = 3 := by simp [hname]
              have hbytes : ∀ k < (name.drop 8).length,
                  load8 (base + o + 8 + k) s = .ok (dir (o + 8 + k)) s := by
                intro k hk
                rw [Nat.add_assoc (base + o), Nat.add_assoc o]
                exact load8_entry hdir (by omega)
              have hcmp := memcmpEq_eq (name.drop 8) hbytes
              rwa [hlen, ← entryName_drop] at hcmp
            rw [if_neg hattributes, if_neg hfile, bind_of_ok htake, List.find?_cons]
            by_cases heq : entryName dir o = name
            · have htrue : decide (name.take 8 = (entryName dir o).take 8) = true := by
                simp [heq]
              have htrue' : decide (name.drop 8 = (entryName dir o).drop 8) = true := by
                simp [heq]
              rw [if_pos htrue, bind_of_ok hdrop, if_pos htrue']
              simp [heq]
            · simp only [heq, decide_false]
              by_cases hhead : name.take 8 = (entryName dir o).take 8
              · have hext : name.drop 8 ≠ (entryName dir o).drop 8 := by
                  intro hext
                  refine heq ?_
                  rw [← List.take_append_drop 8 name, hhead, hext, List.take_append_drop]
                rw [if_pos (by simpa using hhead), bind_of_ok hdrop,
                  if_neg (by simpa using hext)]
                exact hrest
              · rw [if_neg (by simpa using hhead)]
                exact hrest

end Scan

/-! ## Names -/

/-- A character of an 8.3 name: no terminator, padding, dot or lower-case letter. -/
def NameChar (b : UInt8) : Prop := b ≠ 0 ∧ b ≠ 32 ∧ b ≠ 46 ∧ ¬(97 ≤ b ∧ b ≤ 122)

/-- Name and extension of a file. -/
structure ShortName (base ext : List UInt8) : Prop where
  base_pos : 0 < base.length
  base_le : base.length ≤ 8
  ext_le : ext.length ≤ 3
  base_char : ∀ b ∈ base, NameChar b
  ext_char : ∀ b ∈ ext, NameChar b

/-- The 11 bytes, padded with spaces. -/
def padded (base ext : List UInt8) : List UInt8 :=
  base ++ List.replicate (8 - base.length) 32 ++ (ext ++ List.replicate (3 - ext.length) 32)

/-- The name as it is typed, with a dot before an extension. -/
def dotted (base ext : List UInt8) : List UInt8 := if ext = [] then base else base ++ 46 :: ext

theorem length_fatName {filename name : List UInt8} (h : fatName filename = some name) :
    name.length = 11 := by
  have hparts : ∀ base rest : List UInt8, base.length ≤ 8 →
      (if rest.drop 3 = [] then
        some (base.map toupper ++ List.replicate (8 - base.length) 32 ++
          ((rest.take 3).map toupper ++ List.replicate (3 - (rest.take 3).length) 32))
      else none) = some name → name.length = 11 := by
    intro base rest hbase hsome
    split at hsome
    · rw [← Option.some.inj hsome]
      simp only [List.length_append, List.length_map, List.length_replicate, List.length_take]
      omega
    · cases hsome
  exact hparts _ _ (List.length_take_le 8 _) h

theorem toupper_eq_of_not_letter {c d : UInt8} (hd : ¬(65 ≤ d.toNat ∧ d.toNat ≤ 90))
    (h : toupper c = d) : c = d := by
  unfold toupper at h
  split at h
  · rename_i hletter
    exfalso
    have hlow : 97 ≤ c.toNat := UInt8.le_iff_toNat_le.mp hletter.1
    have hhigh : c.toNat ≤ 122 := UInt8.le_iff_toNat_le.mp hletter.2
    have hvalue : (c - 97 + 65).toNat = d.toNat := by rw [h]
    rw [UInt8.toNat_add, UInt8.toNat_sub_of_le _ _ hletter.1] at hvalue
    change (c.toNat - 97 + 65) % 256 = d.toNat at hvalue
    omega
  · exact h

/-- The conversion undoes padding, dot and case. -/
theorem fatName_dotted {base ext filename : List UInt8} (h : ShortName base ext)
    (hfilename : filename.map toupper = dotted base ext) :
    fatName filename = some (padded base ext) := by
  -- the part before the dot
  obtain ⟨front, back, rfl, hfront, hback⟩ : ∃ front back, filename = front ++ back ∧
      front.map toupper = base ∧ back.map toupper = if ext = [] then [] else 46 :: ext := by
    refine List.map_eq_append_iff.mp ?_
    rw [hfilename, dotted]
    split
    · rw [List.append_nil]
    · rfl
  have hlength : front.length = base.length := by rw [← hfront, List.length_map]
  have hnodot : ∀ c ∈ front, decide (c ≠ 46) = true := by
    intro c hc
    have hchar := h.base_char (toupper c) (hfront ▸ List.mem_map_of_mem hc)
    rw [decide_eq_true_eq]
    rintro rfl
    exact hchar.2.2.1 rfl
  -- and behind it
  obtain ⟨tail, htail, hwhile, hrest⟩ : ∃ tail, tail.map toupper = ext ∧
      (front ++ back).takeWhile (· ≠ 46) = front ∧
      (if back.head? = some 46 then back.tail else back) = tail := by
    by_cases hext : ext = []
    · rw [if_pos hext, List.map_eq_nil_iff] at hback
      refine ⟨[], by rw [hext]; rfl, ?_, by rw [hback]; rfl⟩
      rw [hback, List.append_nil]
      exact List.takeWhile_eq_self_iff.mpr hnodot
    · rw [if_neg hext] at hback
      obtain ⟨c, tail, rfl, hc, htail⟩ := List.map_eq_cons_iff.mp hback
      obtain rfl := toupper_eq_of_not_letter (by decide) hc
      refine ⟨tail, htail, ?_, rfl⟩
      rw [List.takeWhile_append_of_pos hnodot]
      simp
  have hle := h.base_le
  have htaillen : tail.length = ext.length := by rw [← htail, List.length_map]
  have htaille := h.ext_le
  have hbase : ((front ++ back).takeWhile (· ≠ 46)).take 8 = front := by
    rw [hwhile]
    exact List.take_of_length_le (by omega)
  unfold fatName
  simp only
  rw [hbase, List.drop_left, hrest, if_pos (List.drop_of_length_le (by omega)),
    List.take_of_length_le (by omega), hfront, htail, hlength, htaillen]
  rfl

/-- The search as a function of the directory. -/
theorem fsFindFile_eq (hdir : CachedDirectory s dir) (filename : List UInt8) :
    fsFindFile filename s =
      .ok ((((fatName filename).bind fun name =>
        (filesFrom dir (rootEntries s) 0).find? fun e => entryName dir e = name)).elim 0
          (s.rootDirectoryBuffer + ·)) s := by
  unfold fsFindFile
  cases hname : fatName filename with
  | none => rfl
  | some name =>
      simp only
      rw [bind_of_ok (get_apply s)]
      exact searchDirectory_eq hdir (length_fatName hname) (show 0 + 32 * rootEntries s ≤ _ by omega)

/-- `ls` prints the lines of exactly those entries among which `fs_find_file` looks, and a listed
file is found under its name in any mix of letter case: the first one of that name, which is the
file itself when there is no other. -/
theorem ls_fs_find_file_agree (s : Machine) (dir : ℕ → UInt8) (hdir : CachedDirectory s dir) :
    ls s = .ok (lsHeader ++ (filesFrom dir (rootEntries s) 0).flatMap (entryLine dir)) s ∧
    (∀ filename, fsFindFile filename s =
      .ok ((((fatName filename).bind fun name =>
        (filesFrom dir (rootEntries s) 0).find? fun e => entryName dir e = name)).elim 0
          (s.rootDirectoryBuffer + ·)) s) ∧
    ∀ o ∈ filesFrom dir (rootEntries s) 0, ∀ base ext, ShortName base ext →
      entryName dir o = padded base ext →
      ∀ filename, filename.map toupper = dotted base ext →
        ∃ e, (filesFrom dir (rootEntries s) 0).find? (fun e => entryName dir e = padded base ext) =
            some e ∧
          fsFindFile filename s = .ok (s.rootDirectoryBuffer + e) s ∧
          ((∀ e' ∈ filesFrom dir (rootEntries s) 0, entryName dir e' = entryName dir o → e' = o) →
            e = o) := by
  have hfind := fsFindFile_eq hdir
  refine ⟨?_, hfind, ?_⟩
  · rw [ls, bind_of_ok (get_apply s)]
    have hlines := lsLines_eq hdir (show 0 + 32 * rootEntries s ≤ _ by omega)
    rw [Nat.add_zero] at hlines
    exact bind_of_ok hlines
  · intro o ho base ext hshort hentry filename hfilename
    obtain ⟨e, he⟩ : ∃ e, (filesFrom dir (rootEntries s) 0).find?
        (fun e => entryName dir e = padded base ext) = some e := by
      rw [← Option.isSome_iff_exists, List.find?_isSome]
      exact ⟨o, ho, by simpa using hentry⟩
    refine ⟨e, he, ?_, ?_⟩
    · rw [hfind, fatName_dotted hshort hfilename]
      rw [Option.bind_some, he]
      rfl
    · intro hunique
      refine hunique e (List.mem_of_find?_eq_some he) ?_
      have hname := List.find?_some he
      rw [decide_eq_true_eq] at hname
      rw [hname, hentry]

/-! A directory with the volume label and the file `README.TXT`, at `0x9000`. -/

def directoryMemory : ByteMemory := fun x =>
  if x = 0x9000 then 76
  else if x = 0x900B then 0x08
  else if x = 0x902B then 0x20
  else [82, 69, 65, 68, 77, 69, 32, 32, 84, 88, 84].getD (x - 0x9020) 0

def directoryMachine : Machine :=
  { identityMachine directoryMemory with rootDirectoryBuffer := 0x9000, rootDirectorySize := 96 }

/-- It is found as `ReadMe.txt`. -/
theorem ls_fs_find_file_agree_readme :
    fsFindFile [82, 101, 97, 100, 77, 101, 46, 116, 120, 116] directoryMachine =
      .ok 0x9020 directoryMachine := by
  have hdir : CachedDirectory directoryMachine fun o => directoryMachine.mem (0x9000 + o) := by
    intro o ho
    have ho : o < 96 := ho
    have hmapped : directoryMachine.translate (0x9000 + o) = some (0x9000 + o) := by
      rw [translate_eq rfl (by omega)]
      exact (hasIdentity_identityMachine directoryMemory).translate (by omega)
    exact load8_eq hmapped
  obtain ⟨-, -, hopen⟩ := ls_fs_find_file_agree directoryMachine
    (fun o => directoryMachine.mem (0x9000 + o)) hdir
  have hshort : ShortName [82, 69, 65, 68, 77, 69] [84, 88, 84] := by
    refine ⟨by decide, by decide, by decide, ?_, ?_⟩
    · unfold NameChar
      decide +kernel
    · unfold NameChar
      decide +kernel
  obtain ⟨e, hfirst, hfind, -⟩ := hopen 32 (by decide) [82, 69, 65, 68, 77, 69] [84, 88, 84] hshort
    (by decide) [82, 101, 97, 100, 77, 101, 46, 116, 120, 116] (by decide)
  obtain rfl : 32 = e := Option.some.inj (Eq.trans (by decide) hfirst)
  exact hfind

end MyOS
