import MyOS.Lib.Runs
import MyOS.Verification.Screen.Cells
import MyOS.Verification.Shell.History

/-! The line of the shell on the screen: it is drawn on the row of the cursor without a look at
where that row ends. -/

namespace MyOS

open CString Runs

/-! ## One redraw -/

/-- With the prompt, the line ends on the screen and the cursor stays in its row. -/
def LineFits (len cursor : ℕ) (s : Screen) : Prop :=
  prompt.length + cursor < vgaWidth ∧
    s.vga.cursorRow * vgaWidth + prompt.length + len ≤ vgaWidth * vgaHeight

theorem lineFits_iff {len cursor : ℕ} {s : Screen} :
    LineFits len cursor s ↔ 6 + cursor < 80 ∧ s.vga.cursorRow * 80 + 6 + len ≤ 2000 := Iff.rfl

/-- The cells of a redrawn line: its row, and where the line goes. -/
theorem mem_shellRedrawLine {shell : Shell} {s : Screen} {i : ℕ} :
    i ∈ (shellRedrawLine shell s).written ↔
      i ∈ s.written ∨ s.vga.cursorRow * 80 ≤ i ∧ i < s.vga.cursorRow * 80 + 80 ∨
        s.vga.cursorRow * 80 + 6 ≤ i ∧ i < s.vga.cursorRow * 80 + 6 + shell.lineLen := by
  have hprompt : prompt.length = 6 := rfl
  unfold shellRedrawLine Screen.clear
  simp only [Screen.setCursor, Screen.mem_write, hprompt]
  constructor
  · rintro (((hi | hi) | hi) | hi)
    · exact .inl hi
    · exact .inr (.inl hi)
    · exact .inr (.inl (by omega))
    · exact .inr (.inr hi)
  · rintro (hi | hi | hi)
    · exact .inl (.inl (.inl hi))
    · exact .inl (.inl (.inr hi))
    · exact .inr hi

/-- A redraw keeps to the screen exactly if the line fits on it. -/
theorem Screen.OnScreen.redraw_iff {s : Screen} (h : s.OnScreen) (shell : Shell) :
    (shellRedrawLine shell s).OnScreen ↔ LineFits shell.lineLen shell.cursorPos s := by
  have hrow := h.cursorRow
  rw [lineFits_iff]
  constructor
  · intro hdrawn
    refine ⟨hdrawn.cursorCol, ?_⟩
    by_cases hempty : shell.lineLen = 0
    · omega
    · have hlast := hdrawn.written (s.vga.cursorRow * 80 + 6 + shell.lineLen - 1)
        (mem_shellRedrawLine.mpr (.inr (.inr (by omega))))
      omega
  · rintro ⟨hcol, hline⟩
    refine ⟨hrow, hcol, ?_⟩
    intro i hi
    rcases mem_shellRedrawLine.mp hi with hi | hi | hi
    · exact h.written i hi
    · omega
    · omega

/-! ## The line behind a key -/

/-- The length of the command in a slot of the history. -/
def slotLen (s : Shell) (i : ℕ) : ℕ := strlen (s.historyBuffer (i % historySize))

/-- The length of the line and the place of the cursor behind a key that redraws the line. -/
def lineAfter (c : UInt8) (s : Shell) : ℕ × ℕ :=
  if c = arrowLeft then (s.lineLen, s.cursorPos - 1)
  else if c = arrowRight then (s.lineLen, s.cursorPos + 1)
  else if c = arrowUp then (slotLen s (s.historyIndex - 1), slotLen s (s.historyIndex - 1))
  else if c = arrowDown then
    if s.historyIndex + 1 = s.historyCount then (0, 0)
    else (slotLen s (s.historyIndex + 1), slotLen s (s.historyIndex + 1))
  else if c = 8 then (s.lineLen - 1, s.cursorPos - 1)
  else (s.lineLen + 1, s.cursorPos + 1)

variable {s : Shell} {e : Editor} {c : UInt8}

theorem Shell.Refines.goTo_len (h : s.Refines e) (i : ℕ) :
    (s.goTo i).lineLen = slotLen s i ∧ (s.goTo i).cursorPos = slotLen s i := by
  have hslot := slot_lt i
  have hmax : maxCmdLen = 256 := rfl
  have hlt := h.stored.length_lt _ hslot
  have hline := (h.setIndex i).recalled hslot
  have hlen : (s.goTo i).lineLen = (e.history (i % historySize)).length :=
    strlen_eq hline (by omega)
  have hstored : slotLen s i = (e.history (i % historySize)).length :=
    strlen_eq (h.stored.holds _ hslot) (by omega)
  rw [hstored]
  exact ⟨hlen, hlen⟩

theorem Shell.insert_len (hroom : s.lineLen < maxCmdLen - 1) :
    (s.insert c).lineLen = s.lineLen + 1 ∧ (s.insert c).cursorPos = s.cursorPos + 1 := by
  have hsame := (Shell.shiftUp_writes s.cursorPos s.lineLen (by omega) s).same
  unfold Shell.insert
  rw [if_pos hroom]
  simp only [Shell.put]
  rw [hsame]
  exact ⟨rfl, rfl⟩

theorem Shell.Refines.backspace_len (h : s.Refines e) (hpos : 0 < s.cursorPos) :
    s.backspace.lineLen = s.lineLen - 1 ∧ s.backspace.cursorPos = s.cursorPos - 1 := by
  have hlen := h.lineLen
  have hcursor := h.cursor_le
  have hle := h.length_le
  have hplace := h.cursorPos
  have hmax : maxCmdLen = 256 := rfl
  have hsame := (Shell.shiftDown_writes (s.lineLen - s.cursorPos) s.cursorPos (by omega) s).same
  unfold Shell.backspace
  rw [if_pos hpos]
  simp only [Shell.put]
  rw [hsame]
  exact ⟨rfl, rfl⟩

/-- The line after a key is as long as the state before tells. -/
theorem Shell.Refines.lineAfter_eq (h : s.Refines e) (hredraw : redraws c s) :
    ((shellInput s c).lineLen, (shellInput s c).cursorPos) = lineAfter c s := by
  have henter : c ≠ 10 := by
    rintro rfl
    exact hredraw
  unfold shellInput
  rw [if_neg henter]
  unfold shellHandleInput lineAfter
  unfold redraws at hredraw
  by_cases hleft : c = arrowLeft
  · simp only [if_pos hleft] at hredraw ⊢
    rw [if_pos hredraw]
  simp only [if_neg hleft] at hredraw ⊢
  by_cases hright : c = arrowRight
  · simp only [if_pos hright] at hredraw ⊢
    rw [if_pos hredraw]
  simp only [if_neg hright] at hredraw ⊢
  by_cases hup : c = arrowUp
  · simp only [if_pos hup] at hredraw ⊢
    rw [Shell.historyUp_eq, if_pos hredraw]
    exact Prod.ext (h.goTo_len _).1 (h.goTo_len _).2
  simp only [if_neg hup] at hredraw ⊢
  by_cases hdown : c = arrowDown
  · simp only [if_pos hdown] at hredraw ⊢
    rw [Shell.historyDown_eq, if_pos hredraw]
    by_cases hend : s.historyIndex + 1 = s.historyCount
    · rw [if_pos hend, if_pos hend]
      exact Prod.ext s.goToEnd_spec.1.lineLen s.goToEnd_spec.1.cursorPos
    · rw [if_neg hend, if_neg hend]
      exact Prod.ext (h.goTo_len _).1 (h.goTo_len _).2
  simp only [if_neg hdown, if_neg henter] at hredraw ⊢
  by_cases hback : c = 8
  · simp only [if_pos hback] at hredraw ⊢
    exact Prod.ext (h.backspace_len hredraw).1 (h.backspace_len hredraw).2
  simp only [if_neg hback] at hredraw ⊢
  by_cases hprintable : 32 ≤ c ∧ c ≤ 126
  · rw [if_pos hprintable] at hredraw ⊢
    exact Prod.ext (Shell.insert_len hredraw).1 (Shell.insert_len hredraw).2
  · rw [if_neg hprintable] at hredraw
    exact hredraw.elim

/-! ## Runs -/

/-- Every key that redraws the line leaves one that fits on the screen. -/
def TerminalEvent.Fits (t : Terminal) : TerminalEvent → Prop
  | .key c =>
      redraws c t.shell → LineFits (lineAfter c t.shell).1 (lineAfter c t.shell).2 t.screen
  | .print _ => True
  | .clear => True

/-- At boot. -/
def Terminal.boot (cells : ℕ → UInt16) (position : ℕ) : Terminal :=
  ⟨shellInit, ⟨⟨cells, 0, 0⟩, [], position⟩⟩

theorem Terminal.step_shell (t : Terminal) (c : UInt8) :
    (terminalStep t (.key c)).shell = shellInput t.shell c := by
  unfold terminalStep
  simp only
  split
  · rfl
  · split <;> rfl

theorem terminalStep_onScreen_iff {t : Terminal} (h : t.shell.Refines e) (hscreen : t.screen.OnScreen)
    (event : TerminalEvent) :
    (terminalStep t event).screen.OnScreen ↔ event.Fits t := by
  cases event with
  | print c => exact iff_of_true (hscreen.printChar c) trivial
  | clear => exact iff_of_true (Screen.onScreen_clearScreen hscreen.written) trivial
  | key c =>
      unfold terminalStep TerminalEvent.Fits
      simp only
      by_cases henter : c = 10
      · rw [if_pos henter]
        refine iff_of_true (hscreen.printChar c) ?_
        intro hredraw
        subst henter
        exact hredraw.elim
      · rw [if_neg henter]
        by_cases hredraw : redraws c t.shell
        · rw [if_pos hredraw, hscreen.redraw_iff, ← h.lineAfter_eq hredraw]
          exact ⟨fun hfits _ => hfits, fun hfits => hfits hredraw⟩
        · rw [if_neg hredraw]
          exact iff_of_true hscreen fun hc => absurd hc hredraw

/-- In every run from boot the screen is kept exactly if every line that is drawn fits on it. -/
theorem terminal_onScreen_iff (cells : ℕ → UInt16) (position : ℕ) (events : List TerminalEvent) :
    Always terminalStep (fun t => t.screen.OnScreen) (Terminal.boot cells position) events ↔
      Meets terminalStep (fun t event => event.Fits t) (Terminal.boot cells position) events := by
  apply always_iff_meets (I := fun t => ∃ e, t.shell.Refines e)
  · rintro t event ⟨e, h⟩
    cases event with
    | print c => exact ⟨e, h⟩
    | clear => exact ⟨e, h⟩
    | key c =>
        refine ⟨e.key c, ?_⟩
        rw [t.step_shell]
        exact h.key c
  · rintro t event ⟨e, h⟩ hscreen
    exact terminalStep_onScreen_iff h hscreen event
  · exact ⟨_, shellInit_refines⟩
  · exact ⟨Nat.zero_lt_succ _, Nat.zero_lt_succ _, fun i hi => absurd hi List.not_mem_nil⟩

/-! ## A long line -/

/-- `n` letters on an empty line. -/
theorem Terminal.typed (t : Terminal) (hline : t.shell.lineLen = 0) (hcursor : t.shell.cursorPos = 0)
    (n : ℕ) (hn : n ≤ 255) :
    let t' := (List.replicate n (.key 97)).foldl terminalStep t
    t'.shell.lineLen = n ∧ t'.shell.cursorPos = n ∧
      (0 < n → t'.screen.vga.cursorCol = 6 + n) := by
  induction n with
  | zero => exact ⟨hline, hcursor, fun h => absurd h (Nat.lt_irrefl 0)⟩
  | succ n ih =>
      obtain ⟨hlen, hplace, -⟩ := ih (by omega)
      rw [List.replicate_succ', List.foldl_append]
      generalize (List.replicate n (.key 97)).foldl terminalStep t = u at hlen hplace
      have hmax : maxCmdLen = 256 := rfl
      have hinsert := Shell.insert_len (s := u.shell) (c := 97) (by omega)
      have hredraw : redraws 97 u.shell := by
        change u.shell.lineLen < maxCmdLen - 1
        omega
      have hstep : terminalStep u (.key 97) =
          ⟨u.shell.insert 97, shellRedrawLine (u.shell.insert 97) u.screen⟩ := if_pos hredraw
      change (terminalStep u (.key 97)).shell.lineLen = _ ∧ _
      rw [List.foldl_cons, List.foldl_nil, hstep]
      refine ⟨by rw [hinsert.1, hlen], by rw [hinsert.2, hplace], fun _ => ?_⟩
      change prompt.length + (u.shell.insert 97).cursorPos = _
      rw [hinsert.2, hplace]
      rfl

/-- The prompt and 74 letters. -/
theorem terminal_off_screen :
    let events := prompt.map .print ++ List.replicate 74 (.key 97)
    (events.foldl terminalStep (Terminal.boot (fun _ => 0) 0)).screen.vga.cursorCol = 80 ∧
      ¬Always terminalStep (fun t => t.screen.OnScreen) (Terminal.boot (fun _ => 0) 0) events := by
  intro events
  have hcol : (events.foldl terminalStep (Terminal.boot (fun _ => 0) 0)).screen.vga.cursorCol = 80 := by
    rw [List.foldl_append]
    exact (Terminal.typed _ rfl rfl 74 (by decide)).2.2 (by decide)
  refine ⟨hcol, fun halways => ?_⟩
  have hlast := halways.last.cursorCol
  omega

end MyOS
