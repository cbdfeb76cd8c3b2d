import MyOS.Model.LineEditor
import MyOS.Model.Machine

/-! The parse of `process_command` in `kernel/shell.c`: the command goes to the history, and the
line is cut into words in place. -/

namespace MyOS

open Effect

/-- `current_line` while it is cut up. `accessed` lists the cells read or written so far, the
newest first, and `saved` is the row that `strncpy` stores in the history, if any. -/
structure CommandLine where
  line : ℕ → UInt8
  accessed : List ℕ
  saved : Option (List UInt8)

abbrev Tokenizer := EStateM Halt CommandLine

/-- `*p` for a pointer to cell `i` of the line -/
def readChar (i : ℕ) : Tokenizer UInt8 := do
  modify fun s => { s with accessed := i :: s.accessed }
  return (← get).line i

/-- `*p = c` -/
def writeChar (i : ℕ) (c : UInt8) : Tokenizer Unit :=
  modify fun s => { s with line := Function.update s.line i c, accessed := i :: s.accessed }

/-- `while (*p == ' ') p++`; a pointer that went through the whole address space never stops. -/
def skipSpaces : ℕ → ℕ → Tokenizer ℕ
  | 0, _ => throw .spin
  | fuel + 1, i => do
      if (← readChar i) = 32 then skipSpaces fuel (i + 1) else return i

/-- `strlen(start)`, with `len` characters counted so far -/
def lengthFrom : ℕ → ℕ → ℕ → Tokenizer ℕ
  | 0, _, _ => throw .spin
  | fuel + 1, start, len => do
      if (← readChar (start + len)) ≠ 0 then lengthFrom fuel start (len + 1) else return len

/-- What `strncpy` takes from cell `i` on for `n` cells of a row. -/
def copyChars : ℕ → ℕ → Tokenizer (List UInt8)
  | 0, _ => return []
  | n + 1, i => do
      if (← readChar i) ≠ 0 then
        let c ← readChar i
        let cs ← copyChars n (i + 1)
        return c :: cs
      else
        return List.replicate (n + 1) 0

/-- A command that is not empty is stored in the history first. -/
def saveLine (start : ℕ) : Tokenizer Unit := do
  if 0 < (← lengthFrom (2 ^ 32) start 0) then
    let row ← copyChars maxCmdLen start
    modify fun s => { s with saved := some row }
  else
    pure ()

/-- `while (*word_end && *word_end != ' ') word_end++` -/
def findWordEnd : ℕ → ℕ → Tokenizer ℕ
  | 0, _ => throw .spin
  | fuel + 1, i => do
      if (← readChar i) ≠ 0 then
        if (← readChar i) ≠ 32 then findWordEnd fuel (i + 1) else return i
      else
        return i

/-- The loop over the words. `argv` holds the cell a pointer points to, or `none` for `NULL`. -/
def parseWords : ℕ → ℕ → (ℕ → Option ℕ) → ℕ → Tokenizer (ℕ × (ℕ → Option ℕ))
  | 0, _, _, _ => throw .spin
  | fuel + 1, argc, argv, wordStart => do
      if (← readChar wordStart) ≠ 0 ∧ argc < maxArgs then
        let wordEnd ← findWordEnd (2 ^ 32) wordStart
        let argv := Function.update argv argc (some wordStart)
        if (← readChar wordEnd) = 32 then
          writeChar wordEnd 0
          let wordStart ← skipSpaces (2 ^ 32) (wordEnd + 1)
          parseWords fuel (argc + 1) argv wordStart
        else
          return (argc + 1, argv)
      else
        return (argc, argv)

/-- `process_command` up to `argc` and `argv`. -/
def parseCommand : Tokenizer (ℕ × (ℕ → Option ℕ)) := do
  let start ← skipSpaces (2 ^ 32) 0
  saveLine start
  parseWords (2 ^ 32) 0 (fun _ => none) start

end MyOS
