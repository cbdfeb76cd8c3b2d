import Mathlib.Data.List.GetD
import MyOS.Lib.TextRows
import MyOS.Verification.Screen.Cells

/-! The console shows the end of what was printed: the last rows of the text, from the top of the
screen on. -/

namespace MyOS

open TextRows

/-! ## Pages on the screen -/

/-- The cell in column `j` of a row. -/
def rowCell (row : List UInt8) (j : ℕ) : UInt16 := (row[j]?.map vgaCell).getD vgaBlank

/-- The screen shows the page, with blanks behind and below its rows and the cursor at its end. -/
structure Vga.Shows (v : Vga) (p : Page UInt8) : Prop where
  cells : ∀ i < 2000, v.cells i = rowCell (p.visible.getD (i / 80) []) (i % 80)
  cursorRow : v.cursorRow = p.above.length
  cursorCol : v.cursorCol = p.row.length

variable {v : Vga} {p : Page UInt8} {c : UInt8}

theorem visible_above {j : ℕ} (hj : j < p.above.length) (row : List UInt8) :
    (Page.visible { p with row := row }).getD j [] = p.above.getD j [] := by
  change (p.above ++ [row]).getD j [] = _
  rw [List.getD_append _ _ _ _ hj]

theorem visible_row (row : List UInt8) :
    (Page.visible { p with row := row }).getD p.above.length [] = row := by
  change (p.above ++ [row]).getD p.above.length [] = _
  rw [List.getD_append_right _ _ _ _ (Nat.le_refl _), Nat.sub_self]
  rfl

theorem visible_below {j : ℕ} (hj : p.above.length < j) (row : List UInt8) :
    (Page.visible { p with row := row }).getD j [] = [] := by
  refine List.getD_eq_default _ _ ?_
  rw [Page.visible_length]
  exact hj

/-- A character at the end of a row. -/
theorem rowCell_append (row : List UInt8) (c : UInt8) (j : ℕ) :
    rowCell (row ++ [c]) j = if j = row.length then vgaCell c else rowCell row j := by
  unfold rowCell
  by_cases hj : j < row.length
  · rw [List.getElem?_append_left hj, if_neg (by omega)]
  · rw [List.getElem?_append_right (by omega)]
    by_cases hend : j = row.length
    · rw [hend, Nat.sub_self, if_pos rfl]
      rfl
    · rw [if_neg hend, List.getElem?_eq_none (by omega : row.length ≤ j),
        List.getElem?_eq_none (by rw [List.length_singleton]; omega)]

/-- A character in the current row. -/
theorem Vga.Shows.put (h : v.Shows p) (hp : p.Fits 80 25) (c : UInt8) :
    Vga.Shows { v.put (vgaCell c) with cursorCol := v.cursorCol + 1 } (p.put c) := by
  have habove := hp.above
  have hrow := hp.row
  refine ⟨?_, h.cursorRow, ?_⟩
  · intro i hi
    have hcell : (v.put (vgaCell c)).cells i =
        if i = p.above.length * 80 + p.row.length then vgaCell c else v.cells i := by
      rw [← h.cursorRow, ← h.cursorCol]
      exact Function.update_apply _ _ _ _
    change (v.put (vgaCell c)).cells i = rowCell ((Page.visible { p with row := _ }).getD _ _) _
    have hold : v.cells i = rowCell ((Page.visible { p with row := p.row }).getD (i / 80) []) (i % 80) :=
      h.cells i hi
    rw [hcell, hold]
    rcases Nat.lt_trichotomy (i / 80) p.above.length with hlt | heq | hgt
    · rw [if_neg (by omega), visible_above hlt, visible_above hlt]
    · rw [heq, visible_row, visible_row, rowCell_append]
      simp only [show (i = p.above.length * 80 + p.row.length) ↔ (i % 80 = p.row.length) by omega]
    · rw [if_neg (by omega), visible_below hgt, visible_below hgt]
  · change v.cursorCol + 1 = (p.row ++ [c]).length
    rw [h.cursorCol, List.length_append]
    rfl

/-- A new row, with a scroll when the page is full. -/
theorem Vga.Shows.break (h : v.Shows p) (hp : p.above.length < 25) :
    (Vga.scroll { v with cursorRow := v.cursorRow + 1, cursorCol := 0 }).Shows (p.break 25) := by
  have hheight : vgaHeight = 25 := rfl
  have hwidth : vgaWidth = 80 := rfl
  have hlength := p.visible_length
  have hlast : ∀ (rows : List (List UInt8)) (j : ℕ), (rows ++ [[]]).getD j [] = rows.getD j [] := by
    intro rows j
    by_cases hj : j < rows.length
    · exact List.getD_append _ _ _ _ hj
    · rw [List.getD_append_right _ _ _ _ (by omega), List.getD_eq_default rows _ (by omega)]
      cases j - rows.length <;> rfl
  have habove := Page.length_break hp
  unfold Vga.scroll
  split
  · rename_i hfull
    have hcursor : v.cursorRow + 1 = 25 := by
      have := h.cursorRow
      change vgaHeight ≤ v.cursorRow + 1 at hfull
      omega
    have hrows : (p.break 25).above = p.visible.drop 1 := by
      change p.visible.drop (p.visible.length + 1 - 25) = _
      have := h.cursorRow
      congr 1
      omega
    refine ⟨?_, ?_, rfl⟩
    · intro i hi
      change (if i < (vgaHeight - 1) * vgaWidth then v.cells (i + vgaWidth)
        else if i < vgaHeight * vgaWidth then vgaBlank else v.cells i) =
          rowCell (((p.break 25).above ++ [[]]).getD (i / 80) []) (i % 80)
      rw [hlast, hrows, show (vgaHeight - 1) * vgaWidth = 1920 from rfl,
        show vgaHeight * vgaWidth = 2000 from rfl, hwidth, List.getD_eq_getElem?_getD,
        List.getElem?_drop, ← List.getD_eq_getElem?_getD]
      by_cases hupper : i < 1920
      · rw [if_pos hupper, h.cells _ (by omega)]
        congr 1
        · congr 1
          omega
        · omega
      · rw [if_neg hupper, if_pos hi, List.getD_eq_default _ _ (by have := h.cursorRow; omega)]
        rfl
    · rw [habove]
      have := h.cursorRow
      change vgaHeight - 1 = _
      omega
  · rename_i hroom
    change ¬vgaHeight ≤ v.cursorRow + 1 at hroom
    have hcursor := h.cursorRow
    have hrows : (p.break 25).above = p.visible := by
      change p.visible.drop (p.visible.length + 1 - 25) = _
      rw [show p.visible.length + 1 - 25 = 0 by omega]
      rfl
    refine ⟨?_, ?_, rfl⟩
    · intro i hi
      change v.cells i = rowCell (((p.break 25).above ++ [[]]).getD (i / 80) []) (i % 80)
      rw [hlast, hrows]
      exact h.cells i hi
    · rw [hrows, hlength, ← hcursor]

/-- One character, with the break behind a full row. -/
theorem Vga.Shows.add (h : v.Shows p) (hp : p.Fits 80 25) (hc : c ≠ 8) :
    (printChar c v).Shows (p.add 10 80 25 c) := by
  have hwidth : vgaWidth = 80 := rfl
  have hheight : vgaHeight = 25 := rfl
  have habove := hp.above
  have hrow := hp.row
  unfold printChar Page.add
  rw [if_neg hc]
  by_cases hline : c = 10
  · rw [if_pos hline, if_pos hline]
    exact h.break habove
  · rw [if_neg hline, if_neg hline]
    have hput := h.put hp c
    generalize hw : ({ v.put (vgaCell c) with cursorCol := v.cursorCol + 1 } : Vga) = w at hput
    have hcol : w.cursorCol = p.row.length + 1 := by
      rw [← hw, ← h.cursorCol]
    have hcursor : w.cursorRow = p.above.length := hput.cursorRow
    by_cases hfull : p.row.length + 1 = 80
    · rw [if_pos hfull]
      have hwrap : w.wrap = { w with cursorRow := w.cursorRow + 1, cursorCol := 0 } := by
        unfold Vga.wrap
        exact if_pos (by omega)
      change w.wrap.scroll.Shows _
      rw [hwrap]
      exact hput.break habove
    · rw [if_neg hfull]
      have hwrap : w.wrap = w := by
        unfold Vga.wrap
        exact if_neg (by omega)
      have hscroll : w.scroll = w := by
        unfold Vga.scroll
        exact if_neg (by omega)
      change w.wrap.scroll.Shows _
      rw [hwrap, hscroll]
      exact hput

/-! ## Whole texts -/

theorem shows_clearScreen (s : Screen) : (clearScreen s).vga.Shows ⟨[], []⟩ := by
  refine ⟨?_, rfl, rfl⟩
  intro i hi
  have hsize : vgaWidth * vgaHeight = 2000 := rfl
  have hcell : (clearScreen s).vga.cells i = vgaBlank := by
    change (s.write 0 (fun _ => 32) (vgaWidth * vgaHeight)).vga.cells i = _
    rw [Screen.write_cells, if_pos (by omega), vgaCell_space]
  rw [hcell]
  change _ = rowCell (([[]] : List (List UInt8)).getD (i / 80) []) (i % 80)
  cases i / 80 <;> rfl

theorem Screen.shows_printString (text : List UInt8) (htext : ∀ c ∈ text, c ≠ 8) :
    ∀ (s : Screen) (p : Page UInt8), s.vga.Shows p → p.Fits 80 25 →
      (s.printString text).vga.Shows (text.foldl (Page.add 10 80 25) p) := by
  induction text with
  | nil => exact fun s p hs _ => hs
  | cons c text ih =>
      intro s p hs hp
      have hc : c ≠ 8 := htext c (by simp)
      refine ih (fun d hd => htext d (by simp [hd])) _ _ ?_ (hp.add c)
      rw [Screen.printChar_vga]
      exact hs.add hp hc

theorem Screen.OnScreen.printString {s : Screen} (h : s.OnScreen) (text : List UInt8) :
    (s.printString text).OnScreen := by
  induction text generalizing s with
  | nil => exact h
  | cons c text ih => exact ih (h.printChar c)

/-- The hardware cursor is where the driver's is. -/
def Screen.Synced (s : Screen) : Prop :=
  s.position = (s.vga.cursorRow * vgaWidth + s.vga.cursorCol) % 2 ^ 16

theorem Screen.synced_printString (text : List UInt8) :
    ∀ s : Screen, s.Synced → (s.printString text).Synced := by
  induction text with
  | nil => exact fun s h => h
  | cons c text ih => exact fun s _ => ih _ rfl

/-- The character attribute of a cell. -/
theorem rowCell_attribute {row : List UInt8} (h : ∀ c ∈ row, c < 128) (j : ℕ) :
    rowCell row j >>> 8 = 0x0F := by
  have hcell : ∀ c : UInt8, c < 128 → vgaCell c >>> 8 = 0x0F := by
    rintro ⟨b⟩
    revert b
    decide +kernel
  unfold rowCell
  cases hj : row[j]? with
  | none => decide
  | some c => exact hcell c (h c (List.mem_of_getElem? hj))

/-- The contract of the console: the screen shows the last 25 rows of the text, white on black, and
the cursor stands behind the last one. -/
structure ConsoleSpec (s : Screen) (text : List UInt8) : Prop where
  cells : ∀ i < 2000, s.vga.cells i =
    rowCell ((lastRows 25 (rows 10 80 text)).getD (i / 80) []) (i % 80)
  white : ∀ i < 2000, s.vga.cells i >>> 8 = 0x0F
  cursorRow : s.vga.cursorRow + 1 = (lastRows 25 (rows 10 80 text)).length
  cursorCol : ∃ row, (lastRows 25 (rows 10 80 text)).getLast? = some row ∧
    s.vga.cursorCol = row.length
  position : s.Synced

/-- What is printed on a cleared screen, be it ever so much, leaves its last rows there. -/
theorem print_string_console (v : Vga) (position : ℕ) (text : List UInt8)
    (htext : ∀ c ∈ text, c < 128 ∧ c ≠ 8) :
    ConsoleSpec ((clearScreen ⟨v, [], position⟩).printString text) text ∧
      ∀ printed, printed <+: text →
        ((clearScreen ⟨v, [], position⟩).printString printed).OnScreen := by
  have hvisible : (text.foldl (Page.add 10 80 25) ⟨[], []⟩).visible = lastRows 25 (rows 10 80 text) :=
    visible_eq_lastRows (by decide) text
  have hshows := Screen.shows_printString text (fun c hc => (htext c hc).2) _ ⟨[], []⟩
    (shows_clearScreen ⟨v, [], position⟩) ⟨by decide, by decide⟩
  have hcells := hshows.cells
  rw [hvisible] at hcells
  have hclear : (clearScreen ⟨v, [], position⟩).OnScreen :=
    Screen.onScreen_clearScreen fun i hi => absurd hi List.not_mem_nil
  refine ⟨⟨hcells, ?_, ?_, ?_, ?_⟩, fun printed _ => hclear.printString printed⟩
  · intro i hi
    rw [hcells i hi]
    apply rowCell_attribute
    intro c hc
    by_cases hrow : i / 80 < (lastRows 25 (rows 10 80 text)).length
    · rw [List.getD_eq_getElem _ _ hrow] at hc
      exact (htext c (mem_of_mem_lastRows (List.getElem_mem hrow) hc)).1
    · rw [List.getD_eq_default _ _ (by omega)] at hc
      cases hc
  · rw [← hvisible, Page.visible_length, hshows.cursorRow]
  · rw [← hvisible]
    exact ⟨_, List.getLast?_concat, hshows.cursorCol⟩
  · exact Screen.synced_printString text _ rfl

/-- Two rows. -/
theorem print_string_console_rows :
    ConsoleSpec ((clearScreen ⟨⟨fun _ => 0, 7, 3⟩, [], 0⟩).printString [79, 75, 10, 65])
        [79, 75, 10, 65] ∧
      lastRows 25 (rows (10 : UInt8) 80 [79, 75, 10, 65]) = [[79, 75], [65]] :=
  ⟨(print_string_console _ _ _ (by decide +kernel)).1, by decide +kernel⟩

end MyOS
