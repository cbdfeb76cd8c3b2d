import MyOS.Model.Session
import MyOS.Verification.Shell.CommandLine
import MyOS.Verification.Shell.LineEditor

/-! Whole sessions against the editor of lists: Enter stores the line and, unless it is blank,
clears it. -/

namespace MyOS

open CString

/-- The line without its leading spaces. -/
def command (line : List UInt8) : List UInt8 := line.dropWhile (· = 32)

/-- Enter: a command goes to the history, and a new line begins. -/
def Editor.submit (e : Editor) : Editor :=
  if command e.line = [] then e
  else
    { line := []
      cursor := 0
      history := Function.update e.history (e.historyCount % historySize) (command e.line)
      historyCount := e.historyCount + 1
      historyIndex := e.historyCount + 1 }

def Editor.key (e : Editor) (c : UInt8) : Editor := if c = 10 then e.submit else e.input c

def Editor.init : Editor := ⟨[], 0, fun _ => [], 0, 0⟩

variable {s : Shell} {e : Editor}

/-! ## Enter -/

/-- The line is empty, all of `current_line` is zero, and the history is as before. -/
structure Shell.Cleared (s t : Shell) : Prop where
  lineLen : t.lineLen = 0
  cursorPos : t.cursorPos = 0
  currentLine : ∀ i < maxCmdLen, t.currentLine i = 0
  historyBuffer : t.historyBuffer = s.historyBuffer
  historyCount : t.historyCount = s.historyCount
  historyIndex : t.historyIndex = s.historyIndex
  written : ∀ i ∈ t.written, i ∈ s.written ∨ i < maxCmdLen

theorem Shell.cleared_reset (s : Shell) : s.Cleared s.reset := by
  have hwrites := Shell.clearFrom_writes maxCmdLen 0 (Nat.le_refl _) s
  have hcells := Shell.clearFrom_currentLine maxCmdLen 0 s
  have hsame := hwrites.same
  unfold Shell.reset
  generalize s.clearFrom maxCmdLen 0 = t at *
  refine ⟨rfl, rfl, ?_, ?_, ?_, ?_, hwrites.written⟩
  · intro i hi
    exact (hcells i).trans (if_pos ⟨Nat.zero_le _, by omega⟩)
  · rw [hsame]
  · rw [hsame]
  · rw [hsame]

/-- The shell after a command was stored in its slot. -/
def Shell.store (s : Shell) (row : ℕ → UInt8) : Shell :=
  { s with
    historyBuffer := Function.update s.historyBuffer (s.historyCount % historySize) row
    historyCount := s.historyCount + 1
    historyIndex := s.historyCount + 1 }

/-- The row that the parse stores is the one that goes to the history buffer. -/
theorem Shell.saveCommand_saved {xs : List UInt8} (hline : Holds s.currentLine xs)
    (hlen : xs.length < maxCmdLen) {r : ℕ × (ℕ → Option ℕ)} {t : CommandLine}
    (hrun : parseCommand ⟨s.currentLine, [], none⟩ = .ok r t) :
    t.saved = none ∧ s.saveCommand = s ∨
      ∃ row, t.saved = some row ∧ s.saveCommand = s.store fun i =>
        if i < maxCmdLen then row.getD i 0 else s.historyBuffer (s.historyCount % historySize) i := by
  have hmax : maxCmdLen = 256 := rfl
  have hle : (xs.dropWhile (· = 32)).length ≤ xs.length := (List.dropWhile_suffix _).length_le
  have hsaved := parseCommand_saved (by omega) hline hrun
  rcases Shell.saveCommand_eq hline hlen with ⟨hblank, hsave⟩ | ⟨hword, row, -, hcells, hsave⟩
  · rw [if_pos hblank] at hsaved
    exact .inl ⟨hsaved, hsave⟩
  · rw [if_neg hword] at hsaved
    refine .inr ⟨_, hsaved, hsave.trans ?_⟩
    have hrow : row = fun i =>
        if i < maxCmdLen then (strncpy (xs.dropWhile (· = 32)) maxCmdLen).getD i 0
        else s.historyBuffer (s.historyCount % historySize) i := by
      funext i
      rw [hcells i, strncpy, List.take_of_length_le (by omega)]
      by_cases hi : i < (xs.dropWhile (· = 32)).length
      · simp [List.getElem?_append, hi]
      · simp only [List.getD_eq_getElem?_getD, List.getElem?_append, List.getElem?_replicate, if_neg hi,
          List.getElem?_eq_none (Nat.le_of_not_lt hi)]
        split
        · split <;> rfl
        · rfl
    rw [hrow]
    rfl

/-- A blank line only gets its terminator. Any other line is stored and cleared. -/
theorem Shell.Refines.enter (h : s.Refines e) :
    command e.line = [] ∧ shellInput s 10 = s.put s.lineLen 0 ∨
      command e.line ≠ [] ∧ ∃ row line, Holds row (command e.line) ∧
        shellInput s 10 = Shell.reset { (s.put s.lineLen 0).store row with currentLine := line } := by
  have hlen := h.length_le
  have hline : Holds (s.put s.lineLen 0).currentLine e.line := h.spec.newline
  have hinput : shellInput s 10 = (s.put s.lineLen 0).processCommand := rfl
  rw [hinput, Shell.processCommand]
  rcases Shell.saveCommand_eq hline (Nat.lt_succ_of_le hlen) with
    ⟨hblank, hsaved⟩ | ⟨hword, row, hrow, -, hsaved⟩
  · obtain ⟨argv, t, hparse, ht⟩ := parseCommand_blank (by omega) hline hblank
    refine .inl ⟨hblank, ?_⟩
    rw [hparse, hsaved]
    simp only [if_true]
    rw [ht]
  · obtain ⟨argc, argv, t, hparse, hargc⟩ := parseCommand_first (by omega) hline hword
    refine .inr ⟨hword, row, t.line, hrow, ?_⟩
    rw [hparse, hsaved]
    simp only [if_neg hargc]
    rfl

theorem Shell.Refines.submit (h : s.Refines e) : (shellInput s 10).Refines e.submit := by
  have hlen := h.length_le
  have hmax : maxCmdLen = 256 := rfl
  have hput := Shell.Writes.put s s.lineLen 0 (by have := h.lineLen; omega)
  unfold Editor.submit
  rcases h.enter with ⟨hblank, hrun⟩ | ⟨hword, row, line, hrow, hrun⟩
  · rw [if_pos hblank, hrun]
    exact
      { line := h.spec.newline.begins
        nonzero := h.nonzero
        lineLen := h.lineLen
        cursorPos := h.cursorPos
        cursor_le := h.cursor_le
        length_le := hlen
        historyIndex := h.historyIndex
        historyCount := h.historyCount
        stored := h.stored
        written := hput.bounded h.written }
  · have hle : (command e.line).length ≤ e.line.length := (List.dropWhile_suffix _).length_le
    rw [if_neg hword, hrun]
    generalize hstored : { (s.put s.lineLen 0).store row with currentLine := line } = t
    have hclear := t.cleared_reset
    generalize t.reset = u at hclear
    have hcount : t.historyCount = e.historyCount + 1 := by
      rw [← hstored, ← h.historyCount]
      rfl
    have hindex : t.historyIndex = e.historyCount + 1 := by
      rw [← hstored, ← h.historyCount]
      rfl
    have hbuffer : Stored t.historyBuffer
        (Function.update e.history (e.historyCount % historySize) (command e.line)) := by
      rw [← hstored, ← h.historyCount]
      exact h.stored.store hrow (by omega)
    have hbounded : ∀ i ∈ t.written, i < maxCmdLen := by
      rw [← hstored]
      exact hput.bounded h.written
    exact
      { line := begins_nil _
        nonzero := fun c hc => by cases hc
        lineLen := hclear.lineLen
        cursorPos := hclear.cursorPos
        cursor_le := Nat.le_refl _
        length_le := Nat.zero_le _
        historyIndex := hclear.historyIndex.trans hindex
        historyCount := hclear.historyCount.trans hcount
        stored := by
          rw [hclear.historyBuffer]
          exact hbuffer
        written := fun i hi => (hclear.written i hi).elim (hbounded i) id }

/-! ## Runs -/

theorem Shell.Refines.key (h : s.Refines e) (c : UInt8) : (shellInput s c).Refines (e.key c) := by
  unfold Editor.key
  by_cases hc : c = 10
  · rw [hc, if_pos rfl]
    exact h.submit
  · unfold shellInput
    rw [if_neg hc, if_neg hc]
    exact shellHandleInput_refines h hc

theorem shellInit_refines : shellInit.Refines Editor.init where
  line := begins_nil _
  nonzero := fun c hc => by cases hc
  lineLen := rfl
  cursorPos := rfl
  cursor_le := Nat.le_refl _
  length_le := Nat.zero_le _
  historyIndex := rfl
  historyCount := rfl
  stored := ⟨fun _ _ => ⟨begins_nil _, fun _ hc => absurd hc List.not_mem_nil, rfl⟩,
    fun _ _ => Nat.zero_lt_succ _⟩
  written := fun i hi => by cases hi

/-- The shell refines the editor of lists over whole sessions. -/
theorem shellRun_refines (keys : List UInt8) :
    (shellRun keys).Refines (keys.foldl Editor.key Editor.init) := by
  have hrun : ∀ (keys : List UInt8) (s : Shell) (e : Editor), s.Refines e →
      (keys.foldl shellInput s).Refines (keys.foldl Editor.key e) := by
    intro keys
    induction keys with
    | nil => exact fun s e h => h
    | cons c keys ih => exact fun s e h => ih _ _ (h.key c)
  exact hrun keys _ _ shellInit_refines

end MyOS
