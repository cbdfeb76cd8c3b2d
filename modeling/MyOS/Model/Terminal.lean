import MyOS.Model.Keyboard
import MyOS.Model.Screen

/-! The shell at its terminal: what `process_command` shows around the output of its command, and
the words it hands to the command. -/

namespace MyOS

/-- `strcmp` from index `i` on. No string is longer than the address space. -/
def strcmpFrom (str1 str2 : ℕ → UInt8) : ℕ → ℕ → ℤ
  | 0, i => (str1 i).toNat - (str2 i).toNat
  | fuel + 1, i =>
      if str1 i ≠ 0 ∧ str1 i = str2 i then strcmpFrom str1 str2 fuel (i + 1)
      else (str1 i).toNat - (str2 i).toNat

def strcmp (str1 str2 : ℕ → UInt8) : ℤ := strcmpFrom str1 str2 (2 ^ 32) 0

/-- A string literal in memory. -/
def literal (str : String) : ℕ → UInt8 := fun i => (text str).getD i 0

/-- The characters of a string in memory. -/
def stringAt (str : ℕ → UInt8) : List UInt8 := (List.range (strlen str)).map str

/-- The string at a pointer into `current_line`. -/
def argString (line : ℕ → UInt8) (argv : ℕ → Option ℕ) (i : ℕ) : ℕ → UInt8 :=
  fun k => line ((argv i).getD 0 + k)

/-- The arguments that `process_command` hands to a command, as strings. -/
def argStrings (line : ℕ → UInt8) : List (List UInt8) :=
  match parseCommand ⟨line, [], none⟩ with
  | .ok (argc, argv) t => (List.range argc).map fun i => stringAt (argString t.line argv i)
  | .error _ _ => []

/-- `memset(current_line, 0, MAX_CMD_LEN)` -/
def clearedLine (line : ℕ → UInt8) : ℕ → UInt8 := fun i => if i < maxCmdLen then 0 else line i

/-- What `process_command` shows for a line whose command prints `output`. The second look at
`argv[0]` comes when the line it points into has been cleared. -/
def processCommandEvents (line : ℕ → UInt8) (output : List UInt8) : List TerminalEvent :=
  match parseCommand ⟨line, [], none⟩ with
  | .ok (argc, argv) t =>
      if argc = 0 then
        (text "\n" ++ prompt).map .print
      else
        (text "\n").map .print ++
          (if strcmp (argString t.line argv 0) (literal "cls") = 0 then [.clear]
            else output.map .print) ++
          (if strcmp (argString (clearedLine t.line) argv 0) (literal "cls") ≠ 0 then
            (text "\n").map .print
          else []) ++
          prompt.map .print
  | .error _ _ => []

/-- A key for the shell. If it is Enter, `output` is what its command prints, with all that a
program prints while the shell waits for it. -/
def sessionStep (t : Terminal) (key : UInt8 × List UInt8) : Terminal :=
  if key.1 = 10 then
    (processCommandEvents (t.shell.put t.shell.lineLen 0).currentLine key.2).foldl terminalStep
      (terminalStep t (.key key.1))
  else
    terminalStep t (.key key.1)

/-- The terminal when `shell_init` has printed the first prompt on the cleared screen. -/
def sessionStart (v : Vga) (position : ℕ) : Terminal :=
  (prompt.map .print).foldl terminalStep ⟨shellInit, clearScreen ⟨v, [], position⟩⟩

/-- `shell_run`, the one reader of the keyboard, under interrupts that may come between any two
steps of the reader. `scancodes` have arrived so far, and `keys` have been handled. -/
inductive ShellRun (v : Vga) (position : ℕ) :
    Keyboard → Reader → Terminal → List UInt8 → List (UInt8 × List UInt8) → Prop where
  | start :
      ShellRun v position ⟨fun _ => 0, 0, 0, false⟩ .idle (sessionStart v position) [] []
  | interrupt {k r t scancodes keys} (scancode : UInt8) :
      ShellRun v position k r t scancodes keys →
      ShellRun v position (keyboardHandler scancode k) r t (scancodes ++ [scancode]) keys
  | wait {k k' r r' t scancodes keys} :
      ShellRun v position k r t scancodes keys → ReaderStep k r k' r' none →
      ShellRun v position k' r' t scancodes keys
  | handle {k k' r r' t scancodes keys c} (output : List UInt8) :
      ShellRun v position k r t scancodes keys → ReaderStep k r k' r' (some c) →
      ShellRun v position k' r' (sessionStep t (c, output)) scancodes (keys ++ [(c, output)])

end MyOS
