import Mathlib.Algebra.Group.Nat.Defs
import Mathlib.Data.Nat.Notation
import Mathlib.Tactic.Common

/-! Text broken into rows of a fixed width, and a page that shows the last ones. -/

namespace TextRows

variable {α : Type} [DecidableEq α]

/-- The rows of a text behind the characters of an unfinished row: a row ends at a line break, and
as soon as it is full. -/
def rowsFrom (newline : α) (width : ℕ) : List α → List α → List (List α)
  | row, [] => [row]
  | row, c :: text =>
      if c = newline then row :: rowsFrom newline width [] text
      else if row.length + 1 = width then (row ++ [c]) :: rowsFrom newline width [] text
      else rowsFrom newline width (row ++ [c]) text

/-- The rows of a text. -/
def rows (newline : α) (width : ℕ) (text : List α) : List (List α) := rowsFrom newline width [] text

/-- The last rows. -/
def lastRows (height : ℕ) (rows : List (List α)) : List (List α) := rows.drop (rows.length - height)

/-- The row that is written and the rows above it. -/
structure Page (α : Type) where
  above : List (List α)
  row : List α

def Page.visible (p : Page α) : List (List α) := p.above ++ [p.row]

/-- A new row begins. The first one goes when the page is full. -/
def Page.break (height : ℕ) (p : Page α) : Page α where
  above := p.visible.drop (p.visible.length + 1 - height)
  row := []

/-- A character in the current row. -/
def Page.put (p : Page α) (c : α) : Page α := { p with row := p.row ++ [c] }

def Page.add (newline : α) (width height : ℕ) (p : Page α) (c : α) : Page α :=
  if c = newline then p.break height
  else if p.row.length + 1 = width then (p.put c).break height
  else p.put c

/-- The page stays within its height and its width. -/
structure Page.Fits (width height : ℕ) (p : Page α) : Prop where
  above : p.above.length < height
  row : p.row.length < width

variable {newline : α} {width height : ℕ} {p : Page α}

omit [DecidableEq α] in
theorem Page.visible_length (p : Page α) : p.visible.length = p.above.length + 1 := by
  simp [Page.visible]

omit [DecidableEq α] in
theorem Page.length_break (hp : p.above.length < height) :
    (p.break height).above.length = min (p.above.length + 1) (height - 1) := by
  change (p.visible.drop _).length = _
  rw [List.length_drop, p.visible_length]
  omega

omit [DecidableEq α] in
theorem Page.Fits.break (hp : p.above.length < height) (hwidth : 0 < width) :
    (p.break height).Fits width height := by
  refine ⟨?_, hwidth⟩
  rw [Page.length_break hp]
  omega

theorem Page.Fits.add (h : p.Fits width height) (c : α) :
    (p.add newline width height c).Fits width height := by
  have hwidth : 0 < width := Nat.zero_lt_of_lt h.row
  unfold Page.add
  split
  · exact .break h.above hwidth
  split
  · exact Page.Fits.break (p := p.put c) h.above hwidth
  · rename_i hfull
    have hrow := h.row
    refine ⟨h.above, ?_⟩
    change (p.row ++ [c]).length < width
    rw [List.length_append, List.length_singleton]
    omega

/-- Every character of the rows is one of the text. -/
theorem mem_of_mem_rowsFrom {x : α} {r : List α} (text : List α) :
    ∀ row, r ∈ rowsFrom newline width row text → x ∈ r → x ∈ row ∨ x ∈ text := by
  induction text with
  | nil =>
      intro row hr hx
      obtain rfl := List.mem_singleton.mp hr
      exact .inl hx
  | cons c text ih =>
      have hend : ∀ row : List α, r ∈ row :: rowsFrom newline width [] text → x ∈ r →
          x ∈ row ∨ x ∈ text := by
        intro row hr hx
        rcases List.mem_cons.mp hr with rfl | hr
        · exact .inl hx
        · exact .inr ((ih [] hr hx).resolve_left List.not_mem_nil)
      have hmore : ∀ row : List α, x ∈ row ++ [c] ∨ x ∈ text → x ∈ row ∨ x ∈ c :: text := by
        intro row hx
        simp only [List.mem_append, List.mem_cons] at hx ⊢
        tauto
      intro row hr hx
      rw [rowsFrom] at hr
      split at hr
      · exact (hend row hr hx).imp_right (List.mem_cons_of_mem c)
      split at hr
      · exact hmore row (hend _ hr hx)
      · exact hmore row (ih _ hr hx)

theorem mem_of_mem_lastRows {x : α} {r text : List α}
    (hr : r ∈ lastRows height (rows newline width text)) (hx : x ∈ r) : x ∈ text :=
  (mem_of_mem_rowsFrom text [] (List.mem_of_mem_drop hr) hx).resolve_left List.not_mem_nil

/-- The page below `above` and the last rows of it. -/
theorem visible_foldl (newline : α) (width : ℕ) (hheight : 0 < height) (text : List α) :
    ∀ above row, (text.foldl (Page.add newline width height)
        ⟨above.drop (above.length + 1 - height), row⟩).visible =
      lastRows height (above ++ rowsFrom newline width row text) := by
  have hbreak : ∀ (above : List (List α)) (row : List α),
      Page.break height ⟨above.drop (above.length + 1 - height), row⟩ =
        ⟨(above ++ [row]).drop ((above ++ [row]).length + 1 - height), []⟩ := by
    intro above row
    have hvisible : Page.visible ⟨above.drop (above.length + 1 - height), row⟩ =
        (above ++ [row]).drop (above.length + 1 - height) := by
      rw [List.drop_append_of_le_length (by omega)]
      rfl
    unfold Page.break
    rw [hvisible, List.drop_drop, List.length_drop, List.length_append, List.length_singleton]
    congr 2
    omega
  induction text with
  | nil =>
      intro above row
      change above.drop (above.length + 1 - height) ++ [row] = lastRows height (above ++ [row])
      unfold lastRows
      rw [List.length_append, List.length_singleton, List.drop_append_of_le_length (by omega)]
  | cons c text ih =>
      intro above row
      have hadd : ∀ a : List (List α), Page.add newline width height ⟨a, row⟩ c =
          if c = newline then Page.break height ⟨a, row⟩
          else if row.length + 1 = width then Page.break height ⟨a, row ++ [c]⟩
          else ⟨a, row ++ [c]⟩ := fun a => rfl
      rw [List.foldl_cons, rowsFrom, hadd]
      by_cases hc : c = newline
      · rw [if_pos hc, if_pos hc, hbreak, ih, List.append_assoc]
        rfl
      · rw [if_neg hc, if_neg hc]
        by_cases hfull : row.length + 1 = width
        · rw [if_pos hfull, if_pos hfull, hbreak, ih, List.append_assoc]
          rfl
        · rw [if_neg hfull, if_neg hfull]
          exact ih above (row ++ [c])

/-- A page to which a text is added row by row shows the last rows of the text. -/
theorem visible_eq_lastRows (hheight : 0 < height) (text : List α) :
    (text.foldl (Page.add newline width height) ⟨[], []⟩).visible =
      lastRows height (rows newline width text) := by
  have hrun := visible_foldl newline width hheight text [] []
  rwa [List.drop_nil] at hrun

end TextRows
