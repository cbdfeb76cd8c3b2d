import MyOS.Model.Session
import MyOS.Model.Vga

/-! The text screen cell by cell: `print_char`, `print_string` and `clear_screen` of
`kernel/drivers/vga.c` with their loops, and `shell_redraw_line` of `kernel/shell.c`, which writes
to the same memory and sets the same cursor. -/

namespace MyOS

/-- `written` lists the indices into `VGA_BUFFER` written so far, the newest first, and `position`
is that of the hardware cursor. -/
structure Screen where
  vga : Vga
  written : List ℕ
  position : ℕ

/-- `VGA_BUFFER[i] = cell` -/
def Screen.store (s : Screen) (i : ℕ) (cell : UInt16) : Screen :=
  { s with
    vga := { s.vga with cells := Function.update s.vga.cells i cell }
    written := i :: s.written }

/-- The characters `str` in white on black, `n` of them from index `base` on. -/
def Screen.write (s : Screen) (base : ℕ) (str : ℕ → UInt8) : ℕ → Screen
  | 0 => s
  | n + 1 => (s.write base str n).store (base + n) (vgaCell (str n))

/-- Blanks, `n` of them from index `base` on. -/
def Screen.clear (s : Screen) (base n : ℕ) : Screen := s.write base (fun _ => 32) n

/-- The cursor of the driver, and `update_cursor`. -/
def Screen.setCursor (s : Screen) (row col : ℕ) : Screen where
  vga := { s.vga with cursorRow := row, cursorCol := col }
  written := s.written
  position := (row * vgaWidth + col) % 2 ^ 16

def clearScreen (s : Screen) : Screen := (s.clear 0 (vgaWidth * vgaHeight)).setCursor 0 0

/-- The loop of the scroll, with `n` cells to go from index `i` on. -/
def Screen.moveUp (s : Screen) : ℕ → ℕ → Screen
  | 0, _ => s
  | n + 1, i => (s.store i (s.vga.cells (i + vgaWidth))).moveUp n (i + 1)

/-- The case split of `print_char`. -/
def Screen.character (s : Screen) (c : UInt8) : Screen :=
  if c = 8 then
    let s := { s with vga := s.vga.back }
    s.store (s.vga.cursorRow * vgaWidth + s.vga.cursorCol) vgaBlank
  else if c = 10 then
    { s with vga := { s.vga with cursorRow := s.vga.cursorRow + 1, cursorCol := 0 } }
  else
    let s := s.store (s.vga.cursorRow * vgaWidth + s.vga.cursorCol) (vgaCell c)
    { s with vga := { s.vga with cursorCol := s.vga.cursorCol + 1 } }

def Screen.scroll (s : Screen) : Screen :=
  if vgaHeight ≤ s.vga.cursorRow then
    let s := (s.moveUp ((vgaHeight - 1) * vgaWidth) 0).clear ((vgaHeight - 1) * vgaWidth) vgaWidth
    { s with vga := { s.vga with cursorRow := vgaHeight - 1 } }
  else
    s

/-- `print_char` -/
def Screen.printChar (s : Screen) (c : UInt8) : Screen :=
  let s := s.character c
  let s := { s with vga := s.vga.wrap }.scroll
  s.setCursor s.vga.cursorRow s.vga.cursorCol

/-- `print_string` -/
def Screen.printString (s : Screen) (str : List UInt8) : Screen := str.foldl Screen.printChar s

/-! ## The line of the shell -/

/-- `PROMPT` -/
def prompt : List UInt8 := text "PGOS> "

/-- `shell_redraw_line` -/
def shellRedrawLine (shell : Shell) (s : Screen) : Screen :=
  let row := s.vga.cursorRow
  let s := s.clear (row * 80) 80
  let s := s.write (row * 80) (fun i => prompt.getD i 0) prompt.length
  let s := s.write (row * 80 + prompt.length) shell.currentLine shell.lineLen
  s.setCursor row (prompt.length + shell.cursorPos)

/-- Whether `shell_handle_input` redraws the line for this character. -/
def redraws (c : UInt8) (s : Shell) : Prop :=
  if c = arrowLeft then 0 < s.cursorPos
  else if c = arrowRight then s.cursorPos < s.lineLen
  else if c = arrowUp then 0 < s.historyIndex
  else if c = arrowDown then s.historyIndex < s.historyCount
  else if c = 10 then False
  else if c = 8 then 0 < s.cursorPos
  else if 32 ≤ c ∧ c ≤ 126 then s.lineLen < maxCmdLen - 1
  else False

instance (c : UInt8) (s : Shell) : Decidable (redraws c s) := by
  unfold redraws
  infer_instance

/-- The shell and the screen. -/
structure Terminal where
  shell : Shell
  screen : Screen

/-- A key for the shell, or output of a command or a program. -/
inductive TerminalEvent where
  | key (c : UInt8)
  | print (c : UInt8)
  | clear

/-- `shell_handle_input` for a key. Enter is echoed; what its command prints is output of its own. -/
def terminalStep (t : Terminal) : TerminalEvent → Terminal
  | .key c =>
      let shell := shellInput t.shell c
      if c = 10 then ⟨shell, t.screen.printChar c⟩
      else if redraws c t.shell then ⟨shell, shellRedrawLine shell t.screen⟩
      else ⟨shell, t.screen⟩
  | .print c => { t with screen := t.screen.printChar c }
  | .clear => { t with screen := clearScreen t.screen }

end MyOS
