import Mathlib.Data.List.Induction
import MyOS.Verification.Shell.Session

/-! The history of the shell: its ten slots hold the last ten commands, and what the arrow keys
show of them. -/

namespace MyOS

open CString

/-! ## What was submitted -/

/-- The characters of the line. -/
def Shell.text (s : Shell) : List UInt8 := (List.range s.lineLen).map s.currentLine

/-- A key, and the command that it submits, if any. -/
def record (p : Shell × List (List UInt8)) (c : UInt8) : Shell × List (List UInt8) :=
  (shellInput p.1 c,
    if c = 10 ∧ command p.1.text ≠ [] then p.2 ++ [command p.1.text] else p.2)

/-- The commands that these keys have submitted: the lines that are not blank, without their
leading spaces. -/
def submitted (keys : List UInt8) : List (List UInt8) := (keys.foldl record (shellInit, [])).2

theorem foldl_record (keys : List UInt8) :
    keys.foldl record (shellInit, []) = (shellRun keys, submitted keys) := by
  have hfst : ∀ (keys : List UInt8) (p : Shell × List (List UInt8)),
      (keys.foldl record p).1 = keys.foldl shellInput p.1 := by
    intro keys
    induction keys with
    | nil => exact fun p => rfl
    | cons c keys ih => exact fun p => ih _
  exact Prod.ext (hfst keys _) rfl

theorem shellRun_append (keys : List UInt8) (c : UInt8) :
    shellRun (keys ++ [c]) = shellInput (shellRun keys) c := by
  unfold shellRun
  rw [List.foldl_append]
  rfl

theorem submitted_append (keys : List UInt8) (c : UInt8) :
    submitted (keys ++ [c]) =
      if c = 10 ∧ command (shellRun keys).text ≠ [] then
        submitted keys ++ [command (shellRun keys).text]
      else submitted keys := by
  conv_lhs => rw [submitted, List.foldl_append, foldl_record]
  rfl

/-! ## The slots -/

/-- The last ten commands are in their slots. -/
structure Editor.Recorded (e : Editor) (cmds : List (List UInt8)) : Prop where
  count : e.historyCount = cmds.length
  index_le : e.historyIndex ≤ cmds.length
  slots : ∀ i cmd, cmds[i]? = some cmd → cmds.length ≤ i + historySize →
    e.history (i % historySize) = cmd

variable {s s' : Shell} {e : Editor} {cmds : List (List UInt8)} {c : UInt8}

/-- The stored commands are the same, and the index stays within them. -/
structure Editor.KeepsHistory (e e' : Editor) : Prop where
  history : e'.history = e.history
  historyCount : e'.historyCount = e.historyCount
  index_le : e.historyIndex ≤ e.historyCount → e'.historyIndex ≤ e.historyCount

theorem Editor.keepsHistory_previous (e : Editor) : e.KeepsHistory e.previous := by
  unfold Editor.previous
  split
  · exact ⟨rfl, rfl, fun h => (Nat.sub_le _ _).trans h⟩
  · exact ⟨rfl, rfl, id⟩

theorem Editor.keepsHistory_next (e : Editor) : e.KeepsHistory e.next := by
  unfold Editor.next
  split
  · rename_i hmore
    exact ⟨rfl, rfl, fun _ => hmore⟩
  · exact ⟨rfl, rfl, id⟩

/-- Keys other than Enter leave the stored commands as they are. -/
theorem Editor.keepsHistory_input (e : Editor) (c : UInt8) : e.KeepsHistory (e.input c) := by
  unfold Editor.input
  split
  · exact ⟨rfl, rfl, id⟩
  split
  · exact ⟨rfl, rfl, id⟩
  split
  · exact e.keepsHistory_previous
  split
  · exact e.keepsHistory_next
  split
  · unfold Editor.delete
    split <;> exact ⟨rfl, rfl, id⟩
  split
  · unfold Editor.insert
    split <;> exact ⟨rfl, rfl, id⟩
  · exact ⟨rfl, rfl, id⟩

theorem Editor.Recorded.input (h : e.Recorded cmds) (c : UInt8) : (e.input c).Recorded cmds := by
  have hkeeps := e.keepsHistory_input c
  have hcount := h.count
  refine ⟨hkeeps.historyCount.trans hcount, ?_, ?_⟩
  · rw [← hcount]
    exact hkeeps.index_le (by rw [hcount]; exact h.index_le)
  · rw [hkeeps.history]
    exact h.slots

/-- The new command takes the slot of the oldest one. -/
theorem Editor.Recorded.submit (h : e.Recorded cmds) (hword : command e.line ≠ []) :
    e.submit.Recorded (cmds ++ [command e.line]) := by
  have hcount := h.count
  unfold Editor.submit
  rw [if_neg hword]
  constructor
  · change e.historyCount + 1 = _
    rw [List.length_append, List.length_singleton, hcount]
  · change e.historyCount + 1 ≤ _
    rw [List.length_append, List.length_singleton, hcount]
  · intro i cmd hcmd hwindow
    rw [List.length_append, List.length_singleton] at hwindow
    have hsize : historySize = 10 := rfl
    change Function.update e.history (e.historyCount % historySize) (command e.line) _ = cmd
    rw [hcount]
    by_cases hi : i < cmds.length
    · rw [List.getElem?_append_left hi] at hcmd
      rw [Function.update_of_ne (by rw [hsize]; omega)]
      exact h.slots i cmd hcmd (by omega)
    · have hlast : i = cmds.length := by
        have := (List.getElem?_eq_some_iff.mp hcmd).1
        rw [List.length_append, List.length_singleton] at this
        omega
      rw [hlast, List.getElem?_append_right (Nat.le_refl _), Nat.sub_self] at hcmd
      rw [hlast, Function.update_self]
      exact Option.some.inj hcmd

/-- The shell, the editor of lists, and the commands submitted so far. -/
structure Shell.Remembers (s : Shell) (e : Editor) (cmds : List (List UInt8)) : Prop where
  refines : s.Refines e
  recorded : e.Recorded cmds

theorem Shell.Refines.text_eq (h : s.Refines e) : s.text = e.line := h.spec.line

theorem shellRun_remembers (keys : List UInt8) :
    ∃ e, (shellRun keys).Remembers e (submitted keys) := by
  induction keys using List.reverseRecOn with
  | nil => exact ⟨_, shellInit_refines, rfl, Nat.le_refl _, fun i cmd hcmd => by cases hcmd⟩
  | append_singleton keys c ih =>
      obtain ⟨e, hrefines, hrecorded⟩ := ih
      refine ⟨e.key c, ?_, ?_⟩
      · rw [shellRun_append]
        exact hrefines.key c
      · rw [submitted_append, hrefines.text_eq]
        unfold Editor.key
        by_cases hc : c = 10
        · rw [if_pos hc]
          by_cases hword : command e.line ≠ []
          · rw [if_pos ⟨hc, hword⟩]
            exact hrecorded.submit hword
          · rw [if_neg (fun h => hword h.2)]
            unfold Editor.submit
            rw [if_pos (by simpa using hword)]
            exact hrecorded
        · rw [if_neg hc, if_neg (fun h => hc h.1)]
          exact hrecorded.input c

/-! ## What the arrow keys show -/

/-- The line is this string, with its terminator, and the cursor stands behind it. -/
structure Shell.Shows (s : Shell) (line : List UInt8) : Prop where
  holds : Holds s.currentLine line
  lineLen : s.lineLen = line.length
  cursorPos : s.cursorPos = line.length

theorem Shell.shows_toEnd {line : List UInt8} (h : Holds s.currentLine line)
    (hlen : line.length < 2 ^ 32) : s.toEnd.Shows line :=
  ⟨h, strlen_eq h hlen, strlen_eq h hlen⟩

theorem shellInput_arrowUp (s : Shell) : shellInput s arrowUp = s.historyUp := rfl

theorem shellInput_arrowDown (s : Shell) : shellInput s arrowDown = s.historyDown := rfl

/-- Nothing but the line changes when a string is copied into it. -/
theorem Shell.toEnd_history (h : s.Writes s') :
    s'.toEnd.historyIndex = s.historyIndex ∧ s'.toEnd.historyBuffer = s.historyBuffer ∧
      s'.toEnd.historyCount = s.historyCount := by
  have hsame := h.same
  unfold Shell.toEnd
  rw [hsame]
  exact ⟨rfl, rfl, rfl⟩

/-- The slot of command `i` is brought into the line. -/
def Shell.goTo (s : Shell) (i : ℕ) : Shell :=
  (Shell.copyFrom (s.historyBuffer (i % historySize)) { s with historyIndex := i } maxCmdLen 0).toEnd

theorem Shell.goTo_history (s : Shell) (i : ℕ) :
    (s.goTo i).historyIndex = i ∧ (s.goTo i).historyBuffer = s.historyBuffer ∧
      (s.goTo i).historyCount = s.historyCount :=
  Shell.toEnd_history (Shell.copyFrom_writes _ _ _ (Nat.le_refl _) { s with historyIndex := i })

theorem Shell.Remembers.shows_goTo (h : s.Remembers e cmds) {i : ℕ} {cmd : List UInt8}
    (hcmd : cmds[i]? = some cmd) (hwindow : cmds.length ≤ i + historySize) :
    (s.goTo i).Shows cmd := by
  have hslot := slot_lt i
  have hmax : maxCmdLen = 256 := rfl
  have hlt := h.refines.stored.length_lt _ hslot
  have hholds := (h.refines.setIndex i).recalled hslot
  have hstored : e.history (i % historySize) = cmd := h.recorded.slots i cmd hcmd hwindow
  rw [hstored] at hlt
  rw [show ({ e with historyIndex := i } : Editor).history (i % historySize) = cmd from hstored]
    at hholds
  exact Shell.shows_toEnd hholds (by omega)

/-- The cleared line behind the last command. -/
def Shell.goToEnd (s : Shell) : Shell := ({ s with historyIndex := s.historyCount }.put 0 0).toEnd

theorem Shell.goToEnd_spec (s : Shell) :
    s.goToEnd.Shows [] ∧ s.goToEnd.historyIndex = s.historyCount ∧
      s.goToEnd.historyBuffer = s.historyBuffer ∧ s.goToEnd.historyCount = s.historyCount := by
  have hnil : Holds ({ s with historyIndex := s.historyCount }.put 0 0).currentLine [] :=
    ⟨begins_nil _, by simp, by simp [Shell.put_currentLine]⟩
  exact ⟨Shell.shows_toEnd hnil (by simp),
    Shell.toEnd_history (Shell.Writes.put { s with historyIndex := s.historyCount } 0 0 (by decide))⟩

theorem Shell.historyUp_eq (s : Shell) :
    s.historyUp = if 0 < s.historyIndex then s.goTo (s.historyIndex - 1) else s := rfl

theorem Shell.historyDown_eq (s : Shell) :
    s.historyDown =
      if s.historyIndex < s.historyCount then
        if s.historyIndex + 1 = s.historyCount then s.goToEnd else s.goTo (s.historyIndex + 1)
      else s := by
  unfold Shell.historyDown
  by_cases hmore : s.historyIndex < s.historyCount
  · rw [if_pos hmore, if_pos hmore]
    by_cases hlast : s.historyIndex + 1 = s.historyCount
    · simp only [hlast, if_true]
      rfl
    · simp only [hlast, if_false]
      rfl
  · rw [if_neg hmore, if_neg hmore]

/-- What a press of Up or Down that moves the index does. -/
theorem Shell.arrow_cases (hc : c = arrowUp ∨ c = arrowDown)
    (hmoved : (shellInput s c).historyIndex ≠ s.historyIndex) :
    (∃ i < max s.historyCount s.historyIndex, shellInput s c = s.goTo i) ∨
      shellInput s c = s.goToEnd := by
  rcases hc with rfl | rfl
  · rw [shellInput_arrowUp, Shell.historyUp_eq] at *
    split at hmoved
    · rename_i hpos
      rw [if_pos hpos]
      exact .inl ⟨_, by omega, rfl⟩
    · exact absurd rfl hmoved
  · rw [shellInput_arrowDown, Shell.historyDown_eq] at *
    split at hmoved
    · rename_i hmore
      rw [if_pos hmore]
      split
      · exact .inr rfl
      · exact .inl ⟨_, by omega, rfl⟩
    · exact absurd rfl hmoved

/-- The buffer of the history is written by `process_command` only. -/
theorem Shell.Refines.historyBuffer_eq (h : s.Refines e) (c : UInt8) :
    (shellHandleInput c s).historyBuffer = s.historyBuffer := by
  have hlen := h.lineLen
  have hcur := h.cursorPos
  have hle := h.cursor_le
  have hmax := h.length_le
  have hcmd : maxCmdLen = 256 := rfl
  unfold shellHandleInput
  split
  · split <;> rfl
  split
  · split <;> rfl
  split
  · rw [Shell.historyUp_eq]
    split
    · exact (s.goTo_history _).2.1
    · rfl
  split
  · rw [Shell.historyDown_eq]
    split
    · split
      · exact s.goToEnd_spec.2.2.1
      · exact (s.goTo_history _).2.1
    · rfl
  split
  · rfl
  split
  · unfold Shell.backspace
    split
    · have hsame := (Shell.shiftDown_writes (s.lineLen - s.cursorPos) s.cursorPos (by omega) s).same
      simp only [Shell.put]
      rw [hsame]
    · rfl
  split
  · unfold Shell.insert
    split
    · have hsame := (Shell.shiftUp_writes s.cursorPos s.lineLen (by omega) s).same
      simp only [Shell.put]
      rw [hsame]
    · rfl
  · rfl

/-- The contract of the history: within the last ten commands Up and Down show the command that
the index has moved to, or a blank line behind the last one, and only Enter changes the buffer. -/
structure HistorySpec (s : Shell) (cmds : List (List UInt8)) : Prop where
  count : s.historyCount = cmds.length
  index_le : s.historyIndex ≤ cmds.length
  recalled : ∀ c, c = arrowUp ∨ c = arrowDown → (shellInput s c).historyIndex ≠ s.historyIndex →
    ∀ cmd, cmds[(shellInput s c).historyIndex]? = some cmd →
      cmds.length ≤ (shellInput s c).historyIndex + historySize → (shellInput s c).Shows cmd
  blank : (shellInput s arrowDown).historyIndex ≠ s.historyIndex →
    (shellInput s arrowDown).historyIndex = cmds.length → (shellInput s arrowDown).Shows []
  kept : ∀ c, c ≠ 10 → (shellInput s c).historyBuffer = s.historyBuffer

theorem Shell.Remembers.spec (h : s.Remembers e cmds) : HistorySpec s cmds := by
  have hcount := h.refines.historyCount.trans h.recorded.count
  have hindex : s.historyIndex ≤ cmds.length := by
    rw [h.refines.historyIndex]
    exact h.recorded.index_le
  refine ⟨hcount, hindex, ?_, ?_, ?_⟩
  · intro c hc hmoved cmd hcmd hwindow
    rcases Shell.arrow_cases hc hmoved with ⟨i, -, hrun⟩ | hrun
    · rw [hrun, (s.goTo_history i).1] at hcmd hwindow
      rw [hrun]
      exact h.shows_goTo hcmd hwindow
    · rw [hrun, s.goToEnd_spec.2.1, hcount] at hcmd
      simp at hcmd
  · intro hmoved hend
    rcases Shell.arrow_cases (.inr rfl) hmoved with ⟨i, hi, hrun⟩ | hrun
    · rw [hrun, (s.goTo_history i).1] at hend
      rw [hcount, max_eq_left hindex] at hi
      omega
    · rw [hrun]
      exact s.goToEnd_spec.1
  · intro c hc
    unfold shellInput
    rw [if_neg hc]
    exact h.refines.historyBuffer_eq c

/-- History recall is faithful in every session. -/
theorem history_recall_faithful (keys : List UInt8) :
    HistorySpec (shellRun keys) (submitted keys) := by
  obtain ⟨e, h⟩ := shellRun_remembers keys
  exact h.spec

end MyOS
