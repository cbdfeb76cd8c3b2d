import MyOS.Model.Screen

/-! The loops of the screen: which cells they write and what they leave in them, and that
`print_char` with its loops is `printChar`. -/

namespace MyOS

variable {s : Screen} {base n i x : ℕ} {str : ℕ → UInt8} {c : UInt8}

/-! ## Loops -/

/-- The cursor is where it was. -/
structure Screen.KeepsCursor (s t : Screen) : Prop where
  cursorRow : t.vga.cursorRow = s.vga.cursorRow
  cursorCol : t.vga.cursorCol = s.vga.cursorCol

theorem Screen.keepsCursor_write (s : Screen) (base : ℕ) (str : ℕ → UInt8) (n : ℕ) :
    s.KeepsCursor (s.write base str n) := by
  induction n with
  | zero => exact ⟨rfl, rfl⟩
  | succ n ih => exact ⟨ih.cursorRow, ih.cursorCol⟩

theorem Screen.write_cells (s : Screen) (base : ℕ) (str : ℕ → UInt8) (n x : ℕ) :
    (s.write base str n).vga.cells x =
      if base ≤ x ∧ x < base + n then vgaCell (str (x - base)) else s.vga.cells x := by
  induction n with
  | zero => rw [if_neg (by omega)]; rfl
  | succ n ih =>
      change Function.update (s.write base str n).vga.cells (base + n) (vgaCell (str n)) x = _
      by_cases hx : x = base + n
      · rw [hx, Function.update_self, if_pos (by omega), Nat.add_sub_cancel_left]
      · rw [Function.update_of_ne hx, ih]
        simp only [show (base ≤ x ∧ x < base + (n + 1)) ↔ (base ≤ x ∧ x < base + n) by omega]

theorem Screen.mem_write : i ∈ (s.write base str n).written ↔
    i ∈ s.written ∨ base ≤ i ∧ i < base + n := by
  induction n with
  | zero => exact ⟨.inl, fun h => h.resolve_right (by omega)⟩
  | succ n ih =>
      change i ∈ (base + n) :: (s.write base str n).written ↔ _
      rw [List.mem_cons, ih, or_left_comm]
      exact or_congr Iff.rfl (by omega)

theorem Screen.keepsCursor_moveUp (n : ℕ) :
    ∀ (i : ℕ) (s : Screen), s.KeepsCursor (s.moveUp n i) := by
  induction n with
  | zero => exact fun i s => ⟨rfl, rfl⟩
  | succ n ih =>
      intro i s
      have hrest := ih (i + 1) (s.store i (s.vga.cells (i + vgaWidth)))
      exact ⟨hrest.cursorRow, hrest.cursorCol⟩

/-- The copy overlaps its source, but it reads each cell before it writes it. -/
theorem Screen.moveUp_cells (n : ℕ) : ∀ (i : ℕ) (s : Screen) (x : ℕ),
    (s.moveUp n i).vga.cells x =
      if i ≤ x ∧ x < i + n then s.vga.cells (x + vgaWidth) else s.vga.cells x := by
  induction n with
  | zero =>
      intro i s x
      rw [if_neg (by omega)]
      rfl
  | succ n ih =>
      intro i s x
      have hwidth : vgaWidth = 80 := rfl
      have hstore : ∀ y, (s.store i (s.vga.cells (i + vgaWidth))).vga.cells y =
          if y = i then s.vga.cells (i + vgaWidth) else s.vga.cells y := fun y =>
        Function.update_apply _ _ _ _
      rw [Screen.moveUp, ih]
      by_cases hin : i + 1 ≤ x ∧ x < i + 1 + n
      · rw [if_pos hin, hstore, if_neg (by omega), if_pos (by omega)]
      · rw [if_neg hin, hstore]
        by_cases hx : x = i
        · rw [if_pos hx, if_pos (by omega), hx]
        · rw [if_neg hx, if_neg (by omega)]

theorem Screen.mem_moveUp (n : ℕ) : ∀ (i : ℕ) (s : Screen) (x : ℕ),
    x ∈ (s.moveUp n i).written ↔ x ∈ s.written ∨ i ≤ x ∧ x < i + n := by
  induction n with
  | zero => exact fun i s x => ⟨.inl, fun h => h.resolve_right (by omega)⟩
  | succ n ih =>
      intro i s x
      rw [Screen.moveUp, ih]
      change x ∈ i :: s.written ∨ _ ↔ _
      rw [List.mem_cons, or_assoc, or_left_comm]
      exact or_congr Iff.rfl (by omega)

/-! ## The plain screen -/

theorem vgaCell_space : vgaCell 32 = vgaBlank := rfl

/-- The screen after the lines were moved up and the last one was cleared. -/
def Screen.scrolled (s : Screen) : Screen :=
  (s.moveUp ((vgaHeight - 1) * vgaWidth) 0).clear ((vgaHeight - 1) * vgaWidth) vgaWidth

theorem Screen.scroll_eq (s : Screen) :
    s.scroll = if vgaHeight ≤ s.vga.cursorRow then
        { s.scrolled with vga := { s.scrolled.vga with cursorRow := vgaHeight - 1 } }
      else s := rfl

theorem Screen.scrolled_cursorCol (s : Screen) : s.scrolled.vga.cursorCol = s.vga.cursorCol :=
  (Screen.keepsCursor_write _ _ _ _).cursorCol.trans (Screen.keepsCursor_moveUp _ _ _).cursorCol

theorem Screen.scrolled_cells (s : Screen) :
    s.scrolled.vga.cells = fun i =>
      if i < (vgaHeight - 1) * vgaWidth then s.vga.cells (i + vgaWidth)
      else if i < vgaHeight * vgaWidth then vgaBlank
      else s.vga.cells i := by
  funext x
  have hlast : (vgaHeight - 1) * vgaWidth = 1920 := rfl
  have hwidth : vgaWidth = 80 := rfl
  have hsize : vgaHeight * vgaWidth = 2000 := rfl
  unfold Screen.scrolled Screen.clear
  rw [Screen.write_cells, Screen.moveUp_cells, hlast, hsize, vgaCell_space]
  by_cases hupper : x < 1920
  · rw [if_neg (by omega), if_pos (by omega), if_pos hupper]
  · rw [if_neg hupper]
    by_cases hlower : x < 2000
    · rw [if_pos (by omega), if_pos hlower]
    · rw [if_neg (by omega), if_neg (by omega), if_neg hlower]

/-- The loops of the scroll move the lines up and clear the last one. -/
theorem Screen.scroll_vga (s : Screen) : s.scroll.vga = s.vga.scroll := by
  have hcells := s.scrolled_cells
  have hcol := s.scrolled_cursorCol
  rw [Screen.scroll_eq]
  unfold Vga.scroll
  generalize s.scrolled = t at *
  split
  · exact congrArg₂ (fun cells col => (⟨cells, vgaHeight - 1, col⟩ : Vga)) hcells hcol
  · rfl

theorem Screen.printChar_vga (s : Screen) (c : UInt8) : (s.printChar c).vga = MyOS.printChar c s.vga := by
  have hcharacter : (s.character c).vga =
      if c = 8 then s.vga.back.put vgaBlank
      else if c = 10 then { s.vga with cursorRow := s.vga.cursorRow + 1, cursorCol := 0 }
      else { s.vga.put (vgaCell c) with cursorCol := s.vga.cursorCol + 1 } := by
    unfold Screen.character
    split
    · rfl
    · split <;> rfl
  have hscroll := Screen.scroll_vga { s.character c with vga := (s.character c).vga.wrap }
  have hcursor : ∀ t : Screen, (t.setCursor t.vga.cursorRow t.vga.cursorCol).vga = t.vga :=
    fun t => rfl
  unfold MyOS.printChar Screen.printChar
  rw [← hcharacter]
  exact (hcursor _).trans hscroll

/-! ## Bounds -/

/-- The cursor is on the screen, and so are all cells that were written. -/
structure Screen.OnScreen (s : Screen) : Prop where
  cursorRow : s.vga.cursorRow < 25
  cursorCol : s.vga.cursorCol < 80
  written : ∀ i ∈ s.written, i < 2000

theorem Vga.back_bounds {v : Vga} (hrow : v.cursorRow < 25) (hcol : v.cursorCol < 80) :
    v.back.cursorRow < 25 ∧ v.back.cursorCol < 80 := by
  have hwidth : vgaWidth = 80 := rfl
  unfold Vga.back
  split
  · exact ⟨hrow, by change v.cursorCol - 1 < 80; omega⟩
  split
  · exact ⟨by change v.cursorRow - 1 < 25; omega, by change vgaWidth - 1 < 80; omega⟩
  · exact ⟨hrow, hcol⟩

/-- One character: at most one cell of the screen, and the cursor leaves its row or the screen by
one place. -/
theorem Screen.OnScreen.character (h : s.OnScreen) (c : UInt8) :
    (s.character c).vga.cursorRow ≤ 25 ∧
      ((s.character c).vga.cursorCol < 80 ∨
        (s.character c).vga.cursorCol = 80 ∧ (s.character c).vga.cursorRow < 25) ∧
      ∀ i ∈ (s.character c).written, i < 2000 := by
  have hwidth : vgaWidth = 80 := rfl
  have hrow := h.cursorRow
  have hcol := h.cursorCol
  have hstored : ∀ {row col i}, row < 25 → col < 80 → i ∈ (row * vgaWidth + col) :: s.written →
      i < 2000 := by
    intro row col i hr hc hi
    rcases List.mem_cons.mp hi with rfl | hi
    · rw [hwidth]
      omega
    · exact h.written i hi
  unfold Screen.character
  split
  · obtain ⟨hr, hc⟩ := Vga.back_bounds hrow hcol
    exact ⟨Nat.le_of_lt hr, .inl hc, fun i hi => hstored hr hc hi⟩
  split
  · exact ⟨hrow, .inl (by decide : 0 < 80), h.written⟩
  · refine ⟨Nat.le_of_lt hrow, ?_, fun i hi => hstored hrow hcol hi⟩
    change s.vga.cursorCol + 1 < 80 ∨ s.vga.cursorCol + 1 = 80 ∧ s.vga.cursorRow < 25
    omega

theorem Screen.mem_scrolled (hi : i ∈ s.scrolled.written) : i ∈ s.written ∨ i < 2000 := by
  have hlast : (vgaHeight - 1) * vgaWidth = 1920 := rfl
  have hwidth : vgaWidth = 80 := rfl
  rcases Screen.mem_write.mp hi with hi | hi
  · rcases (Screen.mem_moveUp _ _ _ _).mp hi with hi | hi
    · exact .inl hi
    · exact .inr (by omega)
  · exact .inr (by omega)

theorem Screen.onScreen_scroll (hrow : s.vga.cursorRow ≤ 25) (hcol : s.vga.cursorCol < 80)
    (hwritten : ∀ i ∈ s.written, i < 2000) : s.scroll.OnScreen := by
  have hheight : vgaHeight = 25 := rfl
  have hkept := s.scrolled_cursorCol
  have hcells : ∀ i ∈ s.scrolled.written, i < 2000 := fun i hi =>
    (Screen.mem_scrolled hi).elim (hwritten i) id
  rw [Screen.scroll_eq]
  generalize s.scrolled = t at *
  split
  · exact ⟨(by decide : vgaHeight - 1 < 25), lt_of_eq_of_lt hkept hcol, hcells⟩
  · exact ⟨by omega, hcol, hwritten⟩

theorem Screen.OnScreen.setCursor (h : s.OnScreen) {row col : ℕ} (hrow : row < 25)
    (hcol : col < 80) : (s.setCursor row col).OnScreen :=
  ⟨hrow, hcol, h.written⟩

theorem Screen.OnScreen.printChar (h : s.OnScreen) (c : UInt8) : (s.printChar c).OnScreen := by
  have hwidth : vgaWidth = 80 := rfl
  obtain ⟨hrow, hcol, hwritten⟩ := h.character c
  have hwrap : (s.character c).vga.wrap.cursorRow ≤ 25 ∧ (s.character c).vga.wrap.cursorCol < 80 := by
    unfold Vga.wrap
    split
    · refine ⟨?_, (by decide : 0 < 80)⟩
      change (s.character c).vga.cursorRow + 1 ≤ 25
      omega
    · exact ⟨hrow, by omega⟩
  have hscroll : Screen.OnScreen
      (Screen.scroll { s.character c with vga := (s.character c).vga.wrap }) :=
    Screen.onScreen_scroll hwrap.1 hwrap.2 hwritten
  exact hscroll.setCursor hscroll.cursorRow hscroll.cursorCol

theorem Screen.onScreen_clearScreen (h : ∀ i ∈ s.written, i < 2000) : (clearScreen s).OnScreen := by
  refine ⟨(by decide : 0 < 25), (by decide : 0 < 80), ?_⟩
  intro i hi
  have hsize : vgaWidth * vgaHeight = 2000 := rfl
  have hcells : i ∈ (s.write 0 (fun _ => 32) (vgaWidth * vgaHeight)).written := hi
  rcases Screen.mem_write.mp hcells with hi | hi
  · exact h i hi
  · omega

end MyOS
