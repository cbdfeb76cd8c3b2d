import MyOS.Verification.Screen.Console
import MyOS.Verification.Screen.Redraw
import MyOS.Verification.Shell.Session

/-! The line behind its prompt as the last row of a page: what a redraw puts there, and a break
behind it. -/

namespace MyOS

open CString TextRows

/-! ## Lines of printable characters -/

def Printable (xs : List UInt8) : Prop := ∀ c ∈ xs, 32 ≤ c ∧ c ≤ 126

/-- The line and the commands of the history are printable. -/
structure Editor.AllPrintable (e : Editor) : Prop where
  line : Printable e.line
  history : ∀ i, Printable (e.history i)

variable {s : Shell} {e : Editor} {c : UInt8}

theorem Editor.AllPrintable.recall (h : e.AllPrintable) {i : ℕ} {line : List UInt8}
    (hline : Printable line) : (Editor.recall { e with historyIndex := i } line).AllPrintable :=
  ⟨hline, h.history⟩

theorem Editor.AllPrintable.input (h : e.AllPrintable) (c : UInt8) : (e.input c).AllPrintable := by
  have hnil : Printable [] := fun c hc => absurd hc List.not_mem_nil
  unfold Editor.input
  split_ifs with _ _ _ _ _ hc
  · exact ⟨h.line, h.history⟩
  · exact ⟨h.line, h.history⟩
  · unfold Editor.previous
    split
    · exact h.recall (h.history _)
    · exact h
  · unfold Editor.next
    split
    · refine h.recall ?_
      split
      · exact hnil
      · exact h.history _
    · exact h
  · unfold Editor.delete
    split
    · refine ⟨?_, h.history⟩
      intro d hd
      rcases List.mem_append.mp hd with hd | hd
      · exact h.line d (List.mem_of_mem_take hd)
      · exact h.line d (List.mem_of_mem_drop hd)
    · exact h
  · unfold Editor.insert
    split
    · refine ⟨?_, h.history⟩
      intro d hd
      rcases List.mem_append.mp hd with hd | hd
      · exact h.line d (List.mem_of_mem_take hd)
      · rcases List.mem_cons.mp hd with rfl | hd
        · exact hc
        · exact h.line d (List.mem_of_mem_drop hd)
    · exact h
  · exact h

theorem Editor.AllPrintable.submit (h : e.AllPrintable) : e.submit.AllPrintable := by
  unfold Editor.submit
  split
  · exact h
  · refine ⟨fun c hc => absurd hc List.not_mem_nil, ?_⟩
    intro i c hc
    simp only [Function.update_apply] at hc
    split at hc
    · exact h.line c ((List.dropWhile_sublist _).subset hc)
    · exact h.history i c hc

/-! ## The row of the line -/

/-- The page with this text, up to its last row. -/
def pageOf (txt : List UInt8) : Page UInt8 := txt.foldl (Page.add 10 80 25) ⟨[], []⟩

theorem fits_pageOf (txt : List UInt8) : (pageOf txt).Fits 80 25 := by
  have hrun : ∀ (txt : List UInt8) (p : Page UInt8), p.Fits 80 25 →
      (txt.foldl (Page.add 10 80 25) p).Fits 80 25 := by
    intro txt
    induction txt with
    | nil => exact fun p h => h
    | cons c txt ih => exact fun p h => ih _ (h.add c)
  exact hrun txt _ ⟨by decide, by decide⟩

/-- Characters that stay in the row. -/
theorem foldl_add_row {xs : List UInt8} : ∀ {p : Page UInt8}, (∀ c ∈ xs, c ≠ 10) →
    p.row.length + xs.length < 80 →
    xs.foldl (Page.add 10 80 25) p = { p with row := p.row ++ xs } := by
  induction xs with
  | nil => exact fun _ _ => by simp
  | cons c xs ih =>
      intro p hxs hlen
      rw [List.length_cons] at hlen
      have hadd : p.add 10 80 25 c = { p with row := p.row ++ [c] } := by
        unfold Page.add
        rw [if_neg (hxs c (by simp)), if_neg (by omega)]
        rfl
      rw [List.foldl_cons, hadd, ih (fun d hd => hxs d (by simp [hd]))]
      · simp
      · simp only [List.length_append, List.length_singleton]
        omega

theorem pageOf_newline (txt : List UInt8) : (pageOf (txt ++ text "\n")).row = [] := by
  unfold pageOf
  rw [List.foldl_append]
  rfl

/-- The screen when the line is drawn behind the prompt, wherever its cursor is. -/
def Vga.ShowsLine (v : Vga) (above line : List UInt8) : Prop :=
  Vga.Shows { v with cursorCol := (prompt ++ line).length }
    { pageOf above with row := prompt ++ line }

/-- A redraw shows the new line in place of the old one. -/
theorem Vga.ShowsLine.redraw {t : Screen} {above line : List UInt8} (h : t.vga.ShowsLine above line)
    (hs : s.Refines e) (hfits : e.line.length ≤ 73) :
    (shellRedrawLine s t).vga.ShowsLine above e.line := by
  have hrow : t.vga.cursorRow = (pageOf above).above.length := h.cursorRow
  have habove := (fits_pageOf above).above
  have hprompt : prompt.length = 6 := rfl
  have hlen := hs.lineLen
  refine ⟨?_, hrow, rfl⟩
  intro i hi
  have hcell : (shellRedrawLine s t).vga.cells i =
      if t.vga.cursorRow * 80 + 6 ≤ i ∧ i < t.vga.cursorRow * 80 + 6 + s.lineLen then
        vgaCell (s.currentLine (i - (t.vga.cursorRow * 80 + 6)))
      else if t.vga.cursorRow * 80 ≤ i ∧ i < t.vga.cursorRow * 80 + 6 then
        vgaCell (prompt.getD (i - t.vga.cursorRow * 80) 0)
      else if t.vga.cursorRow * 80 ≤ i ∧ i < t.vga.cursorRow * 80 + 80 then vgaBlank
      else t.vga.cells i := by
    unfold shellRedrawLine Screen.clear
    simp only [Screen.setCursor, Screen.write_cells, hprompt, vgaCell_space]
  have hold := h.cells i hi
  change (shellRedrawLine s t).vga.cells i =
    rowCell ((Page.visible { pageOf above with row := prompt ++ e.line }).getD (i / 80) []) (i % 80)
  rw [hcell, hrow]
  rcases Nat.lt_trichotomy (i / 80) (pageOf above).above.length with hlt | heq | hgt
  · rw [if_neg (by omega), if_neg (by omega), if_neg (by omega), visible_above hlt]
    rw [visible_above hlt] at hold
    exact hold
  · rw [heq, visible_row]
    unfold rowCell
    by_cases hp : i % 80 < 6
    · rw [if_neg (by omega), if_pos (by omega), List.getElem?_append_left (by omega),
        show i - (pageOf above).above.length * 80 = i % 80 by omega, List.getD_eq_getElem?_getD]
      rw [List.getElem?_eq_getElem (by omega : i % 80 < prompt.length)]
      rfl
    · rw [List.getElem?_append_right (by omega), hprompt]
      by_cases hl : i % 80 - 6 < e.line.length
      · have hchar := hs.line (i % 80 - 6) _ (List.getElem?_eq_getElem hl)
        rw [if_pos (by omega), List.getElem?_eq_getElem hl,
          show i - ((pageOf above).above.length * 80 + 6) = i % 80 - 6 by omega, hchar]
        rfl
      · rw [if_neg (by omega), if_neg (by omega), if_pos (by omega),
          List.getElem?_eq_none (by omega)]
        rfl
  · rw [if_neg (by omega), if_neg (by omega), if_neg (by omega), visible_below hgt]
    rw [visible_below hgt] at hold
    exact hold

/-- The line is the last row of the page. -/
theorem pageOf_line {above line : List UInt8} (hrow : (pageOf above).row = [])
    (hline : Printable line) (hfits : line.length ≤ 73) :
    pageOf (above ++ prompt ++ line) = { pageOf above with row := prompt ++ line } := by
  have hlen : prompt.length = 6 := rfl
  have hprompt : ∀ c ∈ prompt, c ≠ 10 := by decide +kernel
  have hchars : ∀ c ∈ prompt ++ line, c ≠ 10 := by
    intro c hc
    rcases List.mem_append.mp hc with hc | hc
    · exact hprompt c hc
    · rintro rfl
      exact absurd (hline 10 hc).1 (by decide)
  rw [List.append_assoc]
  unfold pageOf at hrow ⊢
  rw [List.foldl_append, foldl_add_row hchars, hrow, List.nil_append]
  rw [hrow, List.length_append, List.length_nil]
  omega

theorem shows_append {t : Screen} {txt : List UInt8} (h : t.vga.Shows (pageOf txt))
    {output : List UInt8} (hout : ∀ c ∈ output, c ≠ 8) :
    (t.printString output).vga.Shows (pageOf (txt ++ output)) := by
  have hshows := Screen.shows_printString output hout t _ h (fits_pageOf txt)
  unfold pageOf at hshows ⊢
  rw [List.foldl_append]
  exact hshows

/-- A break behind the line, wherever the cursor is in it. -/
theorem Vga.ShowsLine.break {v : Vga} {above line : List UInt8} (h : v.ShowsLine above line)
    (hrow : (pageOf above).row = []) (hline : Printable line) (hfits : line.length ≤ 73) :
    (printChar 10 v).Shows (pageOf (above ++ prompt ++ line ++ text "\n")) := by
  have hbreak := Vga.Shows.break h (fits_pageOf above).above
  have hend : pageOf (above ++ prompt ++ line ++ text "\n") =
      (pageOf (above ++ prompt ++ line)).break 25 := by
    unfold pageOf
    rw [List.foldl_append]
    rfl
  rw [hend, pageOf_line hrow hline hfits]
  exact hbreak

/-- Spaces look like the blanks behind the prompt. -/
theorem Vga.ShowsLine.spaces {v : Vga} {above typed : List UInt8} (h : v.ShowsLine above [])
    (htyped : ∀ c ∈ typed, c = 32) : v.ShowsLine above typed := by
  refine ⟨?_, h.cursorRow, rfl⟩
  intro i hi
  have hold := h.cells i hi
  rw [List.append_nil] at hold
  have hcell : ∀ j, rowCell (prompt ++ typed) j = rowCell prompt j := by
    intro j
    unfold rowCell
    by_cases hj : j < prompt.length
    · rw [List.getElem?_append_left hj]
    · rw [List.getElem?_append_right (by omega),
        List.getElem?_eq_none (by omega : prompt.length ≤ j)]
      cases hc : typed[j - prompt.length]? with
      | none => rfl
      | some c =>
          rw [htyped c (List.mem_of_getElem? hc)]
          exact vgaCell_space
  change v.cells i =
    rowCell ((Page.visible { pageOf above with row := prompt ++ typed }).getD (i / 80) []) (i % 80)
  refine Eq.trans hold ?_
  rcases Nat.lt_trichotomy (i / 80) (pageOf above).above.length with hlt | heq | hgt
  · rw [visible_above hlt, visible_above hlt]
  · rw [heq, visible_row, visible_row, hcell]
  · rw [visible_below hgt, visible_below hgt]

end MyOS
