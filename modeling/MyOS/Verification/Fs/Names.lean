import Mathlib.Data.List.DropRight
import MyOS.Verification.Fs.Directory

/-! Which strings open which file. The conversion of `fs_find_file` takes the dot as optional and
pads with spaces, so a name of nine to eleven characters without a dot, and a name with spaces
behind one of its parts, open a file that is called otherwise. -/

namespace MyOS

open Effect X86Paging

/-! ## Letters -/

theorem toupper_toupper (c : UInt8) : toupper (toupper c) = toupper c := by
  by_cases h : 97 ≤ c ∧ c ≤ 122
  · have hlow : 97 ≤ c.toNat := UInt8.le_iff_toNat_le.mp h.1
    have hhigh : c.toNat ≤ 122 := UInt8.le_iff_toNat_le.mp h.2
    have hvalue : (toupper c).toNat = c.toNat - 32 := by
      rw [toupper, if_pos h, UInt8.toNat_add, UInt8.toNat_sub_of_le _ _ h.1]
      change (c.toNat - 97 + 65) % 256 = c.toNat - 32
      omega
    rw [toupper, if_neg]
    rintro ⟨hlow', -⟩
    have hlow' : 97 ≤ (toupper c).toNat := UInt8.le_iff_toNat_le.mp hlow'
    omega
  · have hsame : toupper c = c := if_neg h
    rw [hsame, hsame]

theorem mem_map_toupper {d : UInt8} (hd : ¬(65 ≤ d.toNat ∧ d.toNat ≤ 90)) {xs : List UInt8}
    (h : d ∈ xs.map toupper) : d ∈ xs := by
  obtain ⟨c, hc, hcd⟩ := List.mem_map.mp h
  rwa [← toupper_eq_of_not_letter hd hcd]

theorem getLast?_map_toupper {xs : List UInt8} :
    (xs.map toupper).getLast? = some 32 ↔ xs.getLast? = some 32 := by
  rw [List.getLast?_map]
  constructor
  · intro h
    obtain ⟨c, hc, hspace⟩ := Option.map_eq_some_iff.mp h
    rw [hc, toupper_eq_of_not_letter (by decide) hspace]
  · intro h
    rw [h]
    rfl

/-! ## Padded fields -/

/-- Without the spaces at the end. -/
def trim (xs : List UInt8) : List UInt8 := xs.rdropWhile (· = 32)

theorem trim_append_spaces (xs : List UInt8) (n : ℕ) :
    trim (xs ++ List.replicate n 32) = trim xs := by
  induction n with
  | zero => simp
  | succ n ih =>
      rw [List.replicate_succ', ← List.append_assoc, ← ih]
      exact List.rdropWhile_concat_pos _ _ _ rfl

theorem trim_eq_self {xs : List UInt8} : trim xs = xs ↔ xs.getLast? ≠ some 32 := by
  rw [trim, List.rdropWhile_eq_self_iff]
  constructor
  · intro h hlast
    have hne : xs ≠ [] := by
      rintro rfl
      cases hlast
    refine h hne ?_
    rw [List.getLast?_eq_some_getLast hne] at hlast
    simpa using hlast
  · intro h hne hspace
    refine h ?_
    rw [List.getLast?_eq_some_getLast hne]
    simpa using hspace

theorem exists_trim (xs : List UInt8) : ∃ n, xs = trim xs ++ List.replicate n 32 := by
  induction xs using List.reverseRecOn with
  | nil => exact ⟨0, rfl⟩
  | append_singleton xs b ih =>
      by_cases hb : b = 32
      · obtain ⟨n, hn⟩ := ih
        have htrim : trim (xs ++ [b]) = trim xs := List.rdropWhile_concat_pos _ _ _ (by simpa using hb)
        refine ⟨n + 1, ?_⟩
        rw [htrim, List.replicate_succ', ← List.append_assoc, ← hn, hb]
      · have htrim : trim (xs ++ [b]) = xs ++ [b] :=
          List.rdropWhile_concat_neg _ _ _ (by simpa using hb)
        exact ⟨0, by rw [htrim]; simp⟩

theorem length_trim_le (xs : List UInt8) : (trim xs).length ≤ xs.length := by
  obtain ⟨n, hn⟩ := exists_trim xs
  have hlength := congrArg List.length hn
  rw [List.length_append] at hlength
  omega

theorem trim_trim (xs : List UInt8) : trim (trim xs) = trim xs := by
  obtain ⟨n, hn⟩ := exists_trim xs
  have h := trim_append_spaces (trim xs) n
  rw [← hn] at h
  exact h.symm

theorem padded_trim {base ext : List UInt8} (hbase : base.length ≤ 8) (hext : ext.length ≤ 3) :
    padded base ext = padded (trim base) (trim ext) := by
  have hfield : ∀ (xs : List UInt8) (n : ℕ), xs.length ≤ n →
      xs ++ List.replicate (n - xs.length) 32 =
        trim xs ++ List.replicate (n - (trim xs).length) 32 := by
    intro xs n hn
    obtain ⟨k, hk⟩ := exists_trim xs
    have hlength := congrArg List.length hk
    rw [List.length_append, List.length_replicate] at hlength
    nth_rewrite 1 [hk]
    rw [List.append_assoc, List.replicate_append_replicate]
    congr 2
    omega
  rw [padded, hfield base 8 hbase, hfield ext 3 hext]
  rfl

theorem padded_inj {base base' ext ext' : List UInt8} (hbase : base.length ≤ 8)
    (hbase' : base'.length ≤ 8) (h : padded base ext = padded base' ext') :
    trim base = trim base' ∧ trim ext = trim ext' := by
  obtain ⟨hfront, hback⟩ := List.append_inj h (by simp; omega)
  constructor
  · have htrim := congrArg trim hfront
    rwa [trim_append_spaces, trim_append_spaces] at htrim
  · have htrim := congrArg trim hback
    rwa [trim_append_spaces, trim_append_spaces] at htrim

/-! ## The conversion -/

/-- How the conversion cuts a string in two: at the first dot, or behind eight characters. -/
inductive Parts : List UInt8 → List UInt8 → List UInt8 → Prop where
  | bare {base : List UInt8} (hdot : 46 ∉ base) (hbase : base.length ≤ 8) : Parts base base []
  | dot {base rest : List UInt8} (hdot : 46 ∉ base) (hbase : base.length ≤ 8) :
      Parts (base ++ 46 :: rest) base rest
  | long {base rest : List UInt8} (hdot : 46 ∉ base) (hbase : base.length = 8)
      (hrest : rest ≠ []) (hhead : rest.head? ≠ some 46) : Parts (base ++ rest) base rest

theorem exists_parts (f : List UInt8) : ∃ base rest, Parts f base rest := by
  have hdot : ∀ n, 46 ∉ (f.takeWhile (· ≠ 46)).take n := by
    intro n hmem
    have hne := List.mem_takeWhile_imp (List.mem_of_mem_take hmem)
    simp at hne
  by_cases hlong : (f.takeWhile (· ≠ 46)).length ≤ 8
  · have hdot := hdot 8
    rw [List.take_of_length_le hlong] at hdot
    cases hrest : f.dropWhile (· ≠ 46) with
    | nil =>
        have hf : f.takeWhile (· ≠ 46) = f := by
          have happ := List.takeWhile_append_dropWhile (p := (· ≠ 46)) (l := f)
          rwa [hrest, List.append_nil] at happ
        rw [hf] at hdot hlong
        exact ⟨f, [], .bare hdot hlong⟩
    | cons c rest =>
        obtain rfl : c = 46 := by
          have hhead := List.head?_dropWhile_not (· ≠ 46) f
          rw [hrest] at hhead
          simpa using hhead
        have hf : f = f.takeWhile (· ≠ 46) ++ 46 :: rest := by
          rw [← hrest, List.takeWhile_append_dropWhile]
        refine ⟨f.takeWhile (· ≠ 46), rest, ?_⟩
        have hparts : Parts (f.takeWhile (· ≠ 46) ++ 46 :: rest) _ rest := .dot hdot hlong
        rwa [← hf] at hparts
  · have hfront : f.take 8 = (f.takeWhile (· ≠ 46)).take 8 := by
      nth_rewrite 1 [← List.takeWhile_append_dropWhile (p := (· ≠ 46)) (l := f)]
      exact List.take_append_of_le_length (by omega)
    have hback : f.drop 8 = (f.takeWhile (· ≠ 46)).drop 8 ++ f.dropWhile (· ≠ 46) := by
      nth_rewrite 1 [← List.takeWhile_append_dropWhile (p := (· ≠ 46)) (l := f)]
      exact List.drop_append_of_le_length (by omega)
    cases hrest : (f.takeWhile (· ≠ 46)).drop 8 with
    | nil =>
        rw [List.drop_eq_nil_iff] at hrest
        omega
    | cons c rest =>
        have hc : c ≠ 46 := by
          have hmem : c ∈ f.takeWhile (· ≠ 46) :=
            List.mem_of_mem_drop (hrest ▸ List.mem_cons_self)
          simpa using List.mem_takeWhile_imp hmem
        rw [hrest] at hback
        refine ⟨f.take 8, f.drop 8, ?_⟩
        have hparts : Parts (f.take 8 ++ f.drop 8) (f.take 8) (f.drop 8) :=
          .long (by rw [hfront]; exact hdot 8) (by rw [hfront, List.length_take]; omega)
            (by rw [hback]; simp) (by rw [hback]; simpa using hc)
        rwa [List.take_append_drop] at hparts

theorem fatName_parts {f base rest : List UInt8} (h : Parts f base rest) :
    fatName f = if rest.length ≤ 3 then some (padded (base.map toupper) (rest.map toupper))
      else none := by
  have htakeWhile : ∀ base : List UInt8, 46 ∉ base →
      ∀ c ∈ base, decide (c ≠ 46) = true := by
    intro base hdot c hc
    rw [decide_eq_true_eq]
    rintro rfl
    exact hdot hc
  obtain ⟨hfront, hrest⟩ : (f.takeWhile (· ≠ 46)).take 8 = base ∧
      (if (f.drop base.length).head? = some 46 then (f.drop base.length).tail
        else f.drop base.length) = rest := by
    cases h with
    | bare hdot hbase =>
        rw [List.takeWhile_eq_self_iff.mpr (htakeWhile _ hdot), List.drop_length]
        exact ⟨List.take_of_length_le hbase, rfl⟩
    | dot hdot hbase =>
        rw [List.takeWhile_append_of_pos (htakeWhile _ hdot), List.drop_left]
        refine ⟨?_, rfl⟩
        rw [List.takeWhile_cons_of_neg (by simp), List.append_nil]
        exact List.take_of_length_le hbase
    | long hdot hbase hrest hhead =>
        rw [List.takeWhile_append_of_pos (htakeWhile _ hdot), List.drop_left, if_neg hhead]
        exact ⟨List.take_left' hbase, rfl⟩
  unfold fatName
  simp only
  rw [hfront, hrest]
  by_cases hlength : rest.length ≤ 3
  · rw [if_pos hlength, if_pos (List.drop_of_length_le hlength), List.take_of_length_le hlength,
      padded, List.length_map, List.length_map]
  · rw [if_neg hlength, if_neg]
    rw [List.drop_eq_nil_iff]
    exact hlength

/-! ## Names of files -/

/-- What an 11-byte name stands for: no dots, and no spaces but inside. -/
structure CanonicalName (base ext : List UInt8) : Prop where
  base_le : base.length ≤ 8
  ext_le : ext.length ≤ 3
  base_dot : 46 ∉ base
  ext_dot : 46 ∉ ext
  base_end : base.getLast? ≠ some 32
  ext_end : ext.getLast? ≠ some 32

theorem CanonicalName.padded_inj {base base' ext ext' : List UInt8} (h : CanonicalName base ext)
    (h' : CanonicalName base' ext') (heq : padded base ext = padded base' ext') :
    base = base' ∧ ext = ext' := by
  obtain ⟨hbase, hext⟩ := MyOS.padded_inj h.base_le h'.base_le heq
  rw [trim_eq_self.mpr h.base_end, trim_eq_self.mpr h'.base_end] at hbase
  rw [trim_eq_self.mpr h.ext_end, trim_eq_self.mpr h'.ext_end] at hext
  exact ⟨hbase, hext⟩

/-- The string is the file's name, up to letter case and a dot at the end. -/
def Names (f base ext : List UInt8) : Prop :=
  f.map toupper = (dotted base ext).map toupper ∨
    f.map toupper = (dotted base ext ++ [46]).map toupper

/-- Strings that open a file of another name: the dot is missing, or there are spaces behind the
name or the extension. A name that starts with the mark of a deleted entry opens nothing. -/
def Misread (f : List UInt8) : Prop :=
  f.head? ≠ some 0xE5 ∧
    ((46 ∉ f ∧ 9 ≤ f.length ∧ f.length ≤ 11) ∨
      ∃ base ext, (f = base ∧ ext = [] ∨ f = base ++ 46 :: ext) ∧ 46 ∉ base ∧ 46 ∉ ext ∧
        base.length ≤ 8 ∧ ext.length ≤ 3 ∧
        (base.getLast? = some 32 ∨ ext.getLast? = some 32))

variable {f base ext : List UInt8}

theorem getLast?_of_map_eq {xs ys : List UInt8} (h : xs.map toupper = ys.map toupper)
    (hys : ys.getLast? ≠ some 32) : xs.getLast? ≠ some 32 := by
  intro hxs
  refine hys ?_
  rwa [← getLast?_map_toupper, ← h, getLast?_map_toupper]

theorem append_dot_inj {xs ys as bs : List UInt8} (hxs : 46 ∉ xs) (hys : 46 ∉ ys)
    (h : xs ++ 46 :: as = ys ++ 46 :: bs) : xs = ys ∧ as = bs := by
  induction xs generalizing ys with
  | nil =>
      cases ys with
      | nil => simpa using h
      | cons y ys =>
          injection h with hy _
          exact absurd (hy ▸ List.mem_cons_self) hys
  | cons x xs ih =>
      cases ys with
      | nil =>
          injection h with hx _
          exact absurd (hx ▸ List.mem_cons_self) hxs
      | cons y ys =>
          injection h with hx hrest
          obtain ⟨hinit, htail⟩ := ih (fun hmem => hxs (List.mem_cons_of_mem x hmem))
            (fun hmem => hys (List.mem_cons_of_mem y hmem)) hrest
          exact ⟨by rw [hx, hinit], htail⟩

theorem dot_not_mem_map {xs : List UInt8} (h : 46 ∉ xs) : 46 ∉ xs.map toupper :=
  fun hmem => h (mem_map_toupper (by decide) hmem)

/-- A string without a dot names a file without extension only. -/
theorem Names.bare (h : Names f base ext) (hname : CanonicalName base ext) (hdot : 46 ∉ f) :
    f.length ≤ 8 ∧ f.getLast? ≠ some 32 := by
  have hnodot := dot_not_mem_map hdot
  obtain ⟨hext, hf⟩ : ext = [] ∧ f.map toupper = base.map toupper := by
    rcases h with h | h
    · by_cases hext : ext = []
      · rw [dotted, if_pos hext] at h
        exact ⟨hext, h⟩
      · rw [dotted, if_neg hext] at h
        rw [h] at hnodot
        exact absurd (by simp [toupper]) hnodot
    · rw [h] at hnodot
      exact absurd (by simp [toupper]) hnodot
  have hlength : f.length = base.length := by
    rw [← List.length_map (f := toupper), hf, List.length_map]
  exact ⟨hlength ▸ hname.base_le, getLast?_of_map_eq hf hname.base_end⟩

/-- A string with one dot names the file with these parts only. -/
theorem Names.dot {front back : List UInt8} (h : Names (front ++ 46 :: back) base ext)
    (hname : CanonicalName base ext) (hfront : 46 ∉ front) (hback : 46 ∉ back) :
    front.getLast? ≠ some 32 ∧ back.getLast? ≠ some 32 := by
  have hfront' := dot_not_mem_map hfront
  have hback' := dot_not_mem_map hback
  have hbase' := dot_not_mem_map hname.base_dot
  have hmap : (front ++ 46 :: back).map toupper =
      front.map toupper ++ 46 :: back.map toupper := by
    rw [List.map_append]
    rfl
  rw [Names, hmap] at h
  obtain ⟨hf, hb⟩ : front.map toupper = base.map toupper ∧ back.map toupper = ext.map toupper := by
    by_cases hext : ext = []
    · rw [dotted, if_pos hext] at h
      rcases h with h | h
      · rw [← h] at hbase'
        exact absurd (by simp) hbase'
      · rw [List.map_append] at h
        obtain ⟨hf, hb⟩ := append_dot_inj hfront' hbase' h
        exact ⟨hf, by rw [hb, hext]⟩
    · rw [dotted, if_neg hext] at h
      rcases h with h | h
      · rw [List.map_append] at h
        exact append_dot_inj hfront' hbase' h
      · rw [List.map_append, List.map_append, List.append_assoc] at h
        obtain ⟨-, hb⟩ := append_dot_inj hfront' hbase' h
        rw [hb] at hback'
        exact absurd (by simp [toupper]) hback'
  exact ⟨getLast?_of_map_eq hf hname.base_end, getLast?_of_map_eq hb hname.ext_end⟩

/-! ## What a string opens -/

theorem dot_not_mem_trim {xs : List UInt8} : 46 ∉ trim xs ↔ 46 ∉ xs := by
  obtain ⟨n, hn⟩ := exists_trim xs
  nth_rewrite 2 [hn]
  simp

theorem trim_map_eq {xs : List UInt8} (h : xs.getLast? ≠ some 32) :
    trim (xs.map toupper) = xs.map toupper :=
  trim_eq_self.mpr fun hlast => h (getLast?_map_toupper.mp hlast)

theorem map_toupper_map (xs : List UInt8) : (xs.map toupper).map toupper = xs.map toupper := by
  rw [List.map_map]
  exact List.map_congr_left fun c _ => toupper_toupper c

/-- A string that is not misread opens a file under its name. -/
theorem names_of_fatName (hname : CanonicalName base ext)
    (hfat : fatName f = some (padded base ext)) (hhead : f.head? ≠ some 0xE5)
    (h : ¬Misread f) : Names f base ext := by
  obtain ⟨front, back, hparts⟩ := exists_parts f
  rw [fatName_parts hparts] at hfat
  split at hfat
  · rename_i hback
    have hfront : front.length ≤ 8 := by
      cases hparts with
      | bare _ hbase => exact hbase
      | dot _ hbase => exact hbase
      | long _ hbase => exact hbase.le
    obtain ⟨hbase, hext⟩ := padded_inj (by simpa using hfront) hname.base_le (Option.some.inj hfat)
    rw [trim_eq_self.mpr hname.base_end] at hbase
    rw [trim_eq_self.mpr hname.ext_end] at hext
    have hbackdot : 46 ∉ back := by
      have hdot := hname.ext_dot
      rw [← hext, dot_not_mem_trim] at hdot
      exact fun hmem => hdot (List.mem_map.mpr ⟨46, hmem, rfl⟩)
    have hends : ∀ front back : List UInt8, (f = front ∧ back = [] ∨ f = front ++ 46 :: back) →
        46 ∉ front → 46 ∉ back → front.length ≤ 8 → back.length ≤ 3 →
        front.getLast? ≠ some 32 ∧ back.getLast? ≠ some 32 := by
      intro front back hf hdot hdot' hlength hlength'
      constructor
      · intro hlast
        exact h ⟨hhead, .inr ⟨front, back, hf, hdot, hdot', hlength, hlength', .inl hlast⟩⟩
      · intro hlast
        exact h ⟨hhead, .inr ⟨front, back, hf, hdot, hdot', hlength, hlength', .inr hlast⟩⟩
    cases hparts with
    | bare hdot hlength =>
        have hend := (hends f [] (.inl ⟨rfl, rfl⟩) hdot hbackdot hlength hback).1
        rw [trim_map_eq hend] at hbase
        refine .inl ?_
        rw [← hext, ← hbase]
        exact (map_toupper_map f).symm
    | dot hdot hlength =>
        obtain ⟨hend, hend'⟩ := hends front back (.inr rfl) hdot hbackdot hlength hback
        rw [trim_map_eq hend] at hbase
        rw [trim_map_eq hend'] at hext
        by_cases hnil : back = []
        · refine .inr ?_
          rw [← hext, ← hbase, hnil, List.map_nil, dotted, if_pos rfl, List.map_append,
            List.map_append, map_toupper_map]
        · refine .inl ?_
          rw [← hext, ← hbase, dotted, if_neg (by simpa using hnil), List.map_append,
            List.map_append, List.map_cons, List.map_cons, map_toupper_map, map_toupper_map]
    | long hdot hlength hrest =>
        refine absurd ⟨hhead, .inl ⟨?_, ?_, ?_⟩⟩ h
        · rw [List.mem_append]
          exact fun hmem => hmem.elim hdot hbackdot
        · have hpos := List.length_pos_of_ne_nil hrest
          rw [List.length_append]
          omega
        · rw [List.length_append]
          omega
  · cases hfat

/-- A misread string can open a file that is called otherwise. -/
theorem Misread.fatName (h : Misread f) : ∃ base ext, CanonicalName base ext ∧
    fatName f = some (padded base ext) ∧ ¬Names f base ext := by
  obtain ⟨front, back, hparts, hdot, hdot', hlength, hlength', hnames⟩ :
      ∃ front back, Parts f front back ∧ 46 ∉ front ∧ 46 ∉ back ∧ front.length ≤ 8 ∧
        back.length ≤ 3 ∧ ∀ base ext, CanonicalName base ext → ¬Names f base ext := by
    obtain ⟨-, ⟨hdot, hlow, hhigh⟩ | ⟨front, back, hf, hdot, hdot', hlength, hlength', hend⟩⟩ := h
    · refine ⟨f.take 8, f.drop 8, ?_, fun hmem => hdot (List.mem_of_mem_take hmem),
        fun hmem => hdot (List.mem_of_mem_drop hmem), List.length_take_le 8 f,
        by rw [List.length_drop]; omega, ?_⟩
      · have hparts : Parts (f.take 8 ++ f.drop 8) (f.take 8) (f.drop 8) :=
          .long (fun hmem => hdot (List.mem_of_mem_take hmem)) (by rw [List.length_take]; omega)
            (by rw [ne_eq, List.drop_eq_nil_iff]; omega)
            (fun hhead => hdot (List.mem_of_mem_drop (List.mem_of_mem_head? hhead)))
        rwa [List.take_append_drop] at hparts
      · intro base ext hname h
        have hle := (h.bare hname hdot).1
        omega
    · rcases hf with ⟨rfl, rfl⟩ | rfl
      · refine ⟨f, [], .bare hdot hlength, hdot, hdot', hlength, hlength', ?_⟩
        intro base ext hname h
        rcases hend with hend | hend
        · exact (h.bare hname hdot).2 hend
        · cases hend
      · refine ⟨front, back, .dot hdot hlength, hdot, hdot', hlength, hlength', ?_⟩
        intro base ext hname h
        obtain ⟨hfront, hback⟩ := h.dot hname hdot hdot'
        exact hend.elim hfront hback
  have hname : CanonicalName (trim (front.map toupper)) (trim (back.map toupper)) := by
    refine ⟨?_, ?_, ?_, ?_, ?_, ?_⟩
    · have hle := length_trim_le (front.map toupper)
      rw [List.length_map] at hle
      omega
    · have hle := length_trim_le (back.map toupper)
      rw [List.length_map] at hle
      omega
    · exact dot_not_mem_trim.mpr (dot_not_mem_map hdot)
    · exact dot_not_mem_trim.mpr (dot_not_mem_map hdot')
    · exact trim_eq_self.mp (trim_trim _)
    · exact trim_eq_self.mp (trim_trim _)
  refine ⟨_, _, hname, ?_, hnames _ _ hname⟩
  rw [fatName_parts hparts, if_pos hlength', padded_trim (by simpa using hlength) (by simpa using hlength')]

theorem head?_fatName {name : List UInt8} (h : fatName f = some name) :
    name.head? = some ((f.head?.filter (· ≠ 46)).elim 32 toupper) := by
  obtain ⟨front, back, hparts⟩ := exists_parts f
  rw [fatName_parts hparts] at h
  split at h
  · rw [← Option.some.inj h]
    cases hparts with
    | bare hdot _ =>
        cases f with
        | nil => rfl
        | cons c f =>
            have hc : c ≠ 46 := fun hc => hdot (hc ▸ List.mem_cons_self)
            simp [padded, Option.filter, hc]
    | dot hdot _ =>
        cases front with
        | nil => simp [padded, Option.filter]
        | cons c front =>
            have hc : c ≠ 46 := fun hc => hdot (hc ▸ List.mem_cons_self)
            simp [padded, Option.filter, hc]
    | long hdot hbase =>
        cases front with
        | nil => cases hbase
        | cons c front =>
            have hc : c ≠ 46 := fun hc => hdot (hc ▸ List.mem_cons_self)
            simp [padded, Option.filter, hc]
  · cases h

/-- All files of the directory have canonical names. -/
def CanonicalDirectory (dir : ℕ → UInt8) (n : ℕ) : Prop :=
  ∀ o ∈ filesFrom dir n 0, ∃ base ext, CanonicalName base ext ∧ entryName dir o = padded base ext

theorem not_skipped_of_mem {dir : ℕ → UInt8} {n o e : ℕ} (h : e ∈ filesFrom dir n o) :
    ¬Skipped dir e := by
  induction n generalizing o with
  | zero => cases h
  | succ n ih =>
      rw [filesFrom] at h
      split at h
      · cases h
      · split at h
        · exact ih h
        · rename_i hfile
          rcases List.mem_cons.mp h with rfl | h
          · exact hfile
          · exact ih h

/-- The entry that was found has the name the string is converted to. -/
theorem fsFindFile_some {s s' : Machine} {dir : ℕ → UInt8} {entry : ℕ}
    (hdir : CachedDirectory s dir) (h : fsFindFile f s = .ok entry s') (hentry : entry ≠ 0) :
    ∃ o ∈ filesFrom dir (rootEntries s) 0, entry = s.rootDirectoryBuffer + o ∧
      fatName f = some (entryName dir o) := by
  rw [fsFindFile_eq hdir] at h
  injection h with h _
  cases hfat : MyOS.fatName f with
  | none =>
      rw [hfat] at h
      exact absurd h.symm hentry
  | some name =>
      rw [hfat, Option.bind_some] at h
      cases hfind : (filesFrom dir (rootEntries s) 0).find? fun e => entryName dir e = name with
      | none =>
          rw [hfind] at h
          exact absurd h.symm hentry
      | some o =>
          rw [hfind] at h
          have hname := List.find?_some hfind
          rw [decide_eq_true_eq] at hname
          exact ⟨o, List.mem_of_find?_eq_some hfind, h.symm, by rw [hname]⟩

/-- Only a misread string opens a file under a wrong name. -/
theorem names_of_fsFindFile {s s' : Machine} {dir : ℕ → UInt8} {entry : ℕ}
    (hdir : CachedDirectory s dir) (hnames : CanonicalDirectory dir (rootEntries s))
    (hf : ¬Misread f) (h : fsFindFile f s = .ok entry s') (hentry : entry ≠ 0) :
    ∃ o ∈ filesFrom dir (rootEntries s) 0, entry = s.rootDirectoryBuffer + o ∧
      ∃ base ext, CanonicalName base ext ∧ entryName dir o = padded base ext ∧
        Names f base ext := by
  obtain ⟨o, ho, hat, hfat⟩ := fsFindFile_some hdir h hentry
  obtain ⟨base, ext, hname, hpadded⟩ := hnames o ho
  refine ⟨o, ho, hat, base, ext, hname, hpadded, ?_⟩
  refine names_of_fatName hname (by rw [hfat, hpadded]) ?_ hf
  intro hdeleted
  have hhead := head?_fatName hfat
  rw [hdeleted] at hhead
  have hfirst : dir o = 0xE5 := by
    injection hhead
  exact not_skipped_of_mem ho (.inl hfirst)

/-! ## A directory of one file -/

/-- The file's entry stands at `0x9000`; what is behind its name is zero. -/
def singleFileMachine (name : List UInt8) : Machine :=
  { identityMachine (fun x => name.getD (x - 0x9000) 0) with
    rootDirectoryBuffer := 0x9000, rootDirectorySize := 32 }

theorem rootEntries_singleFile (name : List UInt8) : rootEntries (singleFileMachine name) = 1 := by
  simp [rootEntries, singleFileMachine]

theorem cachedDirectory_singleFile (name : List UInt8) :
    CachedDirectory (singleFileMachine name) fun o => name.getD o 0 := by
  intro o ho
  rw [rootEntries_singleFile] at ho
  have hmapped : (singleFileMachine name).translate (0x9000 + o) = some (0x9000 + o) := by
    rw [translate_eq rfl (by omega)]
    exact (hasIdentity_identityMachine _).translate (by omega)
  have hbyte : (singleFileMachine name).mem (0x9000 + o) = name.getD o 0 := by
    change (if 0x1000 ≤ 0x9000 + o ∧ 0x9000 + o < 0x3000 then _ else _) = _
    rw [if_neg (by omega), Nat.add_sub_cancel_left]
  have hload := load8_eq hmapped
  rwa [hbyte] at hload

theorem entryName_singleFile {name : List UInt8} (h : name.length = 11) :
    entryName (fun o => name.getD o 0) 0 = name := by
  refine List.ext_getElem (by simp [entryName, h]) ?_
  intro k hk hk'
  simp [entryName, hk']

theorem filesFrom_singleFile {name : List UInt8} (h : name.length = 11)
    (hend : name.head? ≠ some 0) (hdeleted : name.head? ≠ some 0xE5) :
    filesFrom (fun o => name.getD o 0) 1 0 = [0] := by
  cases name with
  | nil => cases h
  | cons c rest =>
      have hc : c ≠ 0 := by simpa using hend
      have hc' : c ≠ 0xE5 := by simpa using hdeleted
      have hattributes : (c :: rest).getD 11 0 = 0 := by
        rw [List.getD_eq_getElem?_getD, List.getElem?_eq_none h.le]
        rfl
      have hfile : ¬Skipped (fun o => (c :: rest).getD o 0) 0 := by
        rintro (hskip | hskip | hskip)
        · exact hc' hskip
        · simp only [Nat.zero_add, hattributes] at hskip
          exact absurd hskip (by decide)
        · simp only [Nat.zero_add, hattributes] at hskip
          exact absurd hskip (by decide)
      rw [filesFrom, if_neg (by simpa using hc), if_neg hfile]
      rfl

/-- A string that is converted to the file's name opens it. -/
theorem fsFindFile_singleFile (hname : CanonicalName base ext)
    (hfat : fatName f = some (padded base ext)) (hend : (padded base ext).head? ≠ some 0)
    (hdeleted : (padded base ext).head? ≠ some 0xE5) :
    CanonicalDirectory (fun o => (padded base ext).getD o 0) 1 ∧
    fsFindFile f (singleFileMachine (padded base ext)) =
      .ok 0x9000 (singleFileMachine (padded base ext)) := by
  have hlength := length_fatName hfat
  have hfiles := filesFrom_singleFile hlength hend hdeleted
  have hentry := entryName_singleFile hlength
  constructor
  · intro o ho
    rw [hfiles, List.mem_singleton] at ho
    exact ⟨base, ext, hname, by rw [ho, hentry]⟩
  · rw [fsFindFile_eq (cachedDirectory_singleFile _), hfat, Option.bind_some,
      rootEntries_singleFile, hfiles, List.find?_cons_of_pos (by simpa using hentry)]
    rfl

/-- The first byte looked for is the first character, unless the name is empty. -/
theorem head?_fatName_ne {name : List UInt8} (h : fatName f = some name) {d : UInt8}
    (hspace : d ≠ 32) (hletter : ¬(65 ≤ d.toNat ∧ d.toNat ≤ 90)) (hd : f.head? ≠ some d) :
    name.head? ≠ some d := by
  rw [head?_fatName h]
  intro heq
  injection heq with heq
  cases hf : f.head? with
  | none =>
      rw [hf] at heq
      exact hspace heq.symm
  | some c =>
      rw [hf] at heq
      by_cases hc : c = 46
      · rw [hc] at heq
        exact hspace heq.symm
      · simp only [Option.filter, ne_eq, hc, not_false_eq_true, decide_true, if_true,
          Option.elim_some] at heq
        rw [hf, toupper_eq_of_not_letter hletter heq] at hd
        exact hd rfl

/-! ## Lookup -/

/-- Whatever the directory, the string opens a file under its name only. -/
def OpensOnlyItsName (f : List UInt8) : Prop :=
  ∀ s dir, CachedDirectory s dir → CanonicalDirectory dir (rootEntries s) →
    ∀ entry s', fsFindFile f s = .ok entry s' → entry ≠ 0 →
      ∃ o ∈ filesFrom dir (rootEntries s) 0, entry = s.rootDirectoryBuffer + o ∧
        ∃ base ext, CanonicalName base ext ∧ entryName dir o = padded base ext ∧ Names f base ext

/-- Such a string is the name of every file it is converted to. -/
theorem OpensOnlyItsName.names (h : OpensOnlyItsName f) (hname : CanonicalName base ext)
    (hfat : fatName f = some (padded base ext)) (hend : (padded base ext).head? ≠ some 0)
    (hdeleted : (padded base ext).head? ≠ some 0xE5) : Names f base ext := by
  have hlength := length_fatName hfat
  obtain ⟨hnames, hfind⟩ := fsFindFile_singleFile hname hfat hend hdeleted
  rw [← rootEntries_singleFile (padded base ext)] at hnames
  obtain ⟨o, ho, -, base', ext', hname', hentry', hsame⟩ :=
    h _ _ (cachedDirectory_singleFile _) hnames _ _ hfind (Nat.succ_ne_zero _)
  rw [rootEntries_singleFile, filesFrom_singleFile hlength hend hdeleted, List.mem_singleton] at ho
  rw [ho, entryName_singleFile hlength] at hentry'
  obtain ⟨rfl, rfl⟩ := hname.padded_inj hname' hentry'
  exact hsame

/-- A string opens files under its name only, if and only if it is not one of the misread ones;
two such strings open one file only if they are the same name. -/
theorem fs_find_file_names_iff (f : List UInt8) (hf : 0 ∉ f) :
    (OpensOnlyItsName f ↔ ¬Misread f) ∧
    ∀ g, ¬Misread f → ¬Misread g → ∀ s dir, CachedDirectory s dir →
      CanonicalDirectory dir (rootEntries s) → ∀ entry s', entry ≠ 0 →
      fsFindFile f s = .ok entry s' → fsFindFile g s = .ok entry s' →
      ∃ base ext, Names f base ext ∧ Names g base ext := by
  refine ⟨⟨?_, ?_⟩, ?_⟩
  · intro honly hmisread
    obtain ⟨base, ext, hname, hfat, hother⟩ := hmisread.fatName
    have hzero : f.head? ≠ some 0 := fun hzero => hf (List.mem_of_mem_head? hzero)
    exact hother (honly.names hname hfat (head?_fatName_ne hfat (by decide) (by decide) hzero)
      (head?_fatName_ne hfat (by decide) (by decide) hmisread.1))
  · intro hmisread s dir hdir hnames entry s' hfind hne
    exact names_of_fsFindFile hdir hnames hmisread hfind hne
  · intro g hmisread hmisread' s dir hdir hnames entry s' hne hfind hfind'
    obtain ⟨o, ho, hat, base, ext, hname, hentry, hsame⟩ :=
      names_of_fsFindFile hdir hnames hmisread hfind hne
    obtain ⟨o', ho', hat', base', ext', hname', hentry', hsame'⟩ :=
      names_of_fsFindFile hdir hnames hmisread' hfind' hne
    obtain rfl : o = o' := Nat.add_left_cancel (hat.symm.trans hat')
    obtain ⟨hbase, hext⟩ := hname.padded_inj hname' (hentry.symm.trans hentry')
    rw [← hbase, ← hext] at hsame'
    exact ⟨base, ext, hsame, hsame'⟩

/-- `args.bin` is the name of whatever it opens. -/
theorem fs_find_file_names_args : OpensOnlyItsName (text "args.bin") := by
  refine (fs_find_file_names_iff (text "args.bin") (by decide)).1.mpr ?_
  rintro ⟨-, ⟨hdot, -⟩ | ⟨front, back, hf, hdot, hdot', -, -, hend⟩⟩
  · exact hdot (by decide)
  · rcases hf with ⟨rfl, -⟩ | hf
    · exact hdot (by decide)
    · have hsplit : text "args" ++ 46 :: text "bin" = front ++ 46 :: back := hf
      obtain ⟨rfl, rfl⟩ := append_dot_inj (by decide) hdot hsplit
      exact absurd hend (by decide)

/-- `FILENAMETXT` opens the file `FILENAME.TXT`. -/
theorem fs_find_file_filenametxt :
    (CachedDirectory (singleFileMachine (padded (text "FILENAME") (text "TXT")))
        (fun o => (padded (text "FILENAME") (text "TXT")).getD o 0) ∧
      CanonicalDirectory (fun o => (padded (text "FILENAME") (text "TXT")).getD o 0) 1 ∧
      fsFindFile (text "FILENAMETXT") (singleFileMachine (padded (text "FILENAME") (text "TXT"))) =
        .ok 0x9000 (singleFileMachine (padded (text "FILENAME") (text "TXT")))) ∧
    ¬OpensOnlyItsName (text "FILENAMETXT") := by
  have hname : CanonicalName (text "FILENAME") (text "TXT") := by
    constructor <;> decide
  have hfat : fatName (text "FILENAMETXT") = some (padded (text "FILENAME") (text "TXT")) := by
    decide
  refine ⟨⟨cachedDirectory_singleFile _, ?_⟩, ?_⟩
  · exact fsFindFile_singleFile hname hfat (by decide) (by decide)
  · intro honly
    have hnames := honly.names hname hfat (by decide) (by decide)
    exact absurd (hnames.bare hname (by decide)).1 (by decide)

end MyOS
