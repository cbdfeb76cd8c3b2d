import Mathlib.Data.Nat.Notation
import Mathlib.Logic.Function.Basic
import MyOS.Model.Keyboard

/-! The line editor of `kernel/shell.c`: one line edited in place, and a history of commands to
recall. Redrawing the line on the screen changes nothing here. -/

namespace MyOS

def maxCmdLen : ℕ := 256
def historySize : ℕ := 10

/-- `written` lists the cells of `current_line` written so far, the newest last. -/
structure Shell where
  historyBuffer : ℕ → ℕ → UInt8
  historyCount : ℕ
  historyIndex : ℕ
  currentLine : ℕ → UInt8
  cursorPos : ℕ
  lineLen : ℕ
  written : List ℕ

/-- `current_line[i] = c` -/
def Shell.put (s : Shell) (i : ℕ) (c : UInt8) : Shell :=
  { s with currentLine := Function.update s.currentLine i c, written := s.written ++ [i] }

/-- `strlen` from index `i` on. No string is longer than the address space. -/
def strlenFrom (str : ℕ → UInt8) : ℕ → ℕ → ℕ
  | 0, i => i
  | fuel + 1, i => if str i = 0 then i else strlenFrom str fuel (i + 1)

def strlen (str : ℕ → UInt8) : ℕ := strlenFrom str (2 ^ 32) 0

/-- The second loop of `strncpy`: zeros from index `i` on. -/
def Shell.clearFrom (s : Shell) : ℕ → ℕ → Shell
  | 0, _ => s
  | n + 1, i => (s.put i 0).clearFrom n (i + 1)

/-- `strncpy(current_line, src, ...)` from index `i` on, with `n` cells to go. -/
def Shell.copyFrom (src : ℕ → UInt8) (s : Shell) : ℕ → ℕ → Shell
  | 0, _ => s
  | n + 1, i =>
      if src i ≠ 0 then Shell.copyFrom src (s.put i (src i)) n (i + 1) else s.clearFrom (n + 1) i

/-- The cursor goes behind the last character. -/
def Shell.toEnd (s : Shell) : Shell :=
  { s with lineLen := strlen s.currentLine, cursorPos := strlen s.currentLine }

/-- The loop that makes room: cells move up, the last one first. -/
def Shell.shiftUp (s : Shell) (cursor : ℕ) : ℕ → Shell
  | 0 => s
  | i + 1 => if cursor < i + 1 then (s.put (i + 1) (s.currentLine i)).shiftUp cursor i else s

/-- The loop that closes a gap: `n` cells from `i` on move down. -/
def Shell.shiftDown (s : Shell) : ℕ → ℕ → Shell
  | 0, _ => s
  | n + 1, i => (s.put (i - 1) (s.currentLine i)).shiftDown n (i + 1)

def Shell.insert (s : Shell) (c : UInt8) : Shell :=
  if s.lineLen < maxCmdLen - 1 then
    let s := (s.shiftUp s.cursorPos s.lineLen).put s.cursorPos c
    { s with lineLen := s.lineLen + 1, cursorPos := s.cursorPos + 1 }
  else
    s

def Shell.backspace (s : Shell) : Shell :=
  if 0 < s.cursorPos then
    let s := s.shiftDown (s.lineLen - s.cursorPos) s.cursorPos
    let s := { s with lineLen := s.lineLen - 1 }
    let s := s.put s.lineLen 0
    { s with cursorPos := s.cursorPos - 1 }
  else
    s

def Shell.historyUp (s : Shell) : Shell :=
  if 0 < s.historyIndex then
    let s := { s with historyIndex := s.historyIndex - 1 }
    (Shell.copyFrom (s.historyBuffer (s.historyIndex % historySize)) s maxCmdLen 0).toEnd
  else
    s

def Shell.historyDown (s : Shell) : Shell :=
  if s.historyIndex < s.historyCount then
    let s := { s with historyIndex := s.historyIndex + 1 }
    if s.historyIndex = s.historyCount then
      (s.put 0 0).toEnd
    else
      (Shell.copyFrom (s.historyBuffer (s.historyIndex % historySize)) s maxCmdLen 0).toEnd
  else
    s

/-- What `process_command` does to the history: a command with more than spaces is stored
without the leading ones. -/
def Shell.saveCommand (s : Shell) : Shell :=
  let blanks := strlenFrom (fun i => if s.currentLine i = 32 then 1 else 0) (2 ^ 32) 0
  let start := fun i => s.currentLine (blanks + i)
  if 0 < strlen start then
    let row := fun i => if ∀ j ≤ i, start j ≠ 0 then start i else 0
    { s with
      historyBuffer := Function.update s.historyBuffer (s.historyCount % historySize)
        fun i => if i < maxCmdLen then row i
          else s.historyBuffer (s.historyCount % historySize) i
      historyCount := s.historyCount + 1
      historyIndex := s.historyCount + 1 }
  else
    s

/-- `shell_handle_input` up to the call of `process_command`. -/
def shellHandleInput (c : UInt8) (s : Shell) : Shell :=
  if c = arrowLeft then
    if 0 < s.cursorPos then { s with cursorPos := s.cursorPos - 1 } else s
  else if c = arrowRight then
    if s.cursorPos < s.lineLen then { s with cursorPos := s.cursorPos + 1 } else s
  else if c = arrowUp then
    s.historyUp
  else if c = arrowDown then
    s.historyDown
  else if c = 10 then
    s.put s.lineLen 0
  else if c = 8 then
    s.backspace
  else if 32 ≤ c ∧ c ≤ 126 then
    s.insert c
  else
    s

end MyOS
