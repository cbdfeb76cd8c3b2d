import MyOS.Model.CommandLine

/-! The variables of the shell over whole lines: `shell_init`, and `process_command` of
`kernel/shell.c` as far as it changes them. The commands themselves leave them alone. The counters
of the history are unbounded here, and `int` in the source. -/

namespace MyOS

/-- `shell_init` at boot, when all variables are zero. -/
def shellInit : Shell := ⟨fun _ _ => 0, 0, 0, fun _ => 0, 0, 0, []⟩

/-- The end of `process_command`: `memset(current_line, 0, MAX_CMD_LEN)`, and an empty line. -/
def Shell.reset (s : Shell) : Shell := { s.clearFrom maxCmdLen 0 with lineLen := 0, cursorPos := 0 }

/-- `process_command`: the line goes to the history and is cut up. A line without words returns
before the reset. -/
def Shell.processCommand (s : Shell) : Shell :=
  match parseCommand ⟨s.currentLine, [], none⟩ with
  | .ok (argc, _) t =>
      let s := { s.saveCommand with currentLine := t.line }
      if argc = 0 then s else s.reset
  | .error _ _ => s

/-- `shell_handle_input` -/
def shellInput (s : Shell) (c : UInt8) : Shell :=
  if c = 10 then (shellHandleInput c s).processCommand else shellHandleInput c s

/-- The shell after these keys. -/
def shellRun (keys : List UInt8) : Shell := keys.foldl shellInput shellInit

end MyOS
