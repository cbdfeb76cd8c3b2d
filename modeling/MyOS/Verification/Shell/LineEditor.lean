import Mathlib.Data.List.TakeWhile
import Mathlib.Tactic.Common
import MyOS.Lib.CString
import MyOS.Model.LineEditor

/-! The line editor of the shell against an editor of lists: a line, a cursor in it, and the
commands that can be recalled. -/

namespace MyOS

open CString

/-! ## The reference editor -/

/-- `history` holds the commands by their slot, and `historyIndex` is the one recalled last. -/
structure Editor where
  line : List UInt8
  cursor : ℕ
  history : ℕ → List UInt8
  historyCount : ℕ
  historyIndex : ℕ

/-- A whole new line, with the cursor at its end. -/
def Editor.recall (e : Editor) (line : List UInt8) : Editor :=
  { e with line := line, cursor := line.length }

def Editor.insert (e : Editor) (c : UInt8) : Editor :=
  if e.line.length < 255 then
    { e with line := e.line.take e.cursor ++ c :: e.line.drop e.cursor, cursor := e.cursor + 1 }
  else
    e

/-- The character before the cursor goes. -/
def Editor.delete (e : Editor) : Editor :=
  if 0 < e.cursor then
    { e with
      line := e.line.take (e.cursor - 1) ++ e.line.drop e.cursor, cursor := e.cursor - 1 }
  else
    e

def Editor.previous (e : Editor) : Editor :=
  if 0 < e.historyIndex then
    let i := e.historyIndex - 1
    { e with historyIndex := i }.recall (e.history (i % historySize))
  else
    e

def Editor.next (e : Editor) : Editor :=
  if e.historyIndex < e.historyCount then
    let i := e.historyIndex + 1
    { e with historyIndex := i }.recall
      (if i = e.historyCount then [] else e.history (i % historySize))
  else
    e

def Editor.input (c : UInt8) (e : Editor) : Editor :=
  if c = arrowLeft then { e with cursor := e.cursor - 1 }
  else if c = arrowRight then { e with cursor := min (e.cursor + 1) e.line.length }
  else if c = arrowUp then e.previous
  else if c = arrowDown then e.next
  else if c = 8 then e.delete
  else if 32 ≤ c ∧ c ≤ 126 then e.insert c
  else e

/-! ## What the loops do -/

/-- Only cells of the line have changed, and each of them is one of the 256 of
`current_line`. -/
structure Shell.Writes (s s' : Shell) : Prop where
  same : s' = { s with currentLine := s'.currentLine, written := s'.written }
  written : ∀ i ∈ s'.written, i ∈ s.written ∨ i < maxCmdLen

theorem Shell.Writes.refl (s : Shell) : s.Writes s where
  same := rfl
  written _ hi := .inl hi

theorem Shell.Writes.trans {s t u : Shell} (h : s.Writes t) (h' : t.Writes u) : s.Writes u where
  same := by rw [h'.same, h.same]
  written i hi := by
    rcases h'.written i hi with hi | hi
    · exact h.written i hi
    · exact .inr hi

theorem Shell.Writes.put (s : Shell) (i : ℕ) (c : UInt8) (hi : i < maxCmdLen) :
    s.Writes (s.put i c) where
  same := rfl
  written j hj := by
    simp only [Shell.put, List.mem_append, List.mem_singleton] at hj
    rcases hj with hj | hj
    · exact .inl hj
    · exact .inr (hj ▸ hi)

theorem Shell.put_currentLine (s : Shell) (i : ℕ) (c : UInt8) (x : ℕ) :
    (s.put i c).currentLine x = if x = i then c else s.currentLine x := by
  simp [Shell.put, Function.update_apply]

theorem Shell.clearFrom_writes (n i : ℕ) (hn : i + n ≤ maxCmdLen) (s : Shell) :
    s.Writes (s.clearFrom n i) := by
  induction n generalizing i s with
  | zero => exact .refl s
  | succ n ih => exact (Shell.Writes.put s i 0 (by omega)).trans (ih (i + 1) (by omega) _)

theorem Shell.clearFrom_currentLine (n i : ℕ) (s : Shell) (x : ℕ) :
    (s.clearFrom n i).currentLine x = if i ≤ x ∧ x < i + n then 0 else s.currentLine x := by
  induction n generalizing i s with
  | zero => rw [if_neg (by omega)]; rfl
  | succ n ih =>
      rw [Shell.clearFrom, ih, Shell.put_currentLine]
      split_ifs <;> first | rfl | omega

theorem Shell.copyFrom_writes (src : ℕ → UInt8) (n i : ℕ) (hn : i + n ≤ maxCmdLen) (s : Shell) :
    s.Writes (Shell.copyFrom src s n i) := by
  induction n generalizing i s with
  | zero => exact .refl s
  | succ n ih =>
      rw [Shell.copyFrom]
      split
      · exact (Shell.Writes.put s i _ (by omega)).trans (ih (i + 1) (by omega) _)
      · exact Shell.clearFrom_writes (n + 1) i hn s

/-- `strncpy` from index `i` on copies the rest of the string and its terminator. -/
theorem Shell.copyFrom_currentLine {src : ℕ → UInt8} {xs : List UInt8} (h : Holds src xs)
    (n i : ℕ) (hi : i ≤ xs.length) (hn : xs.length < i + n) (s : Shell) (x : ℕ) :
    (Shell.copyFrom src s n i).currentLine x =
      if i ≤ x ∧ x ≤ xs.length then src x
      else if xs.length < x ∧ x < i + n then 0 else s.currentLine x := by
  induction n generalizing i s with
  | zero => omega
  | succ n ih =>
      rw [Shell.copyFrom]
      by_cases hlast : i = xs.length
      · rw [if_neg (by simp [hlast, h.terminated]), Shell.clearFrom_currentLine]
        by_cases hx : x = i
        · rw [if_pos (by omega), if_pos (by omega), hx, hlast, h.terminated]
        · rw [if_neg (by omega : ¬(i ≤ x ∧ x ≤ xs.length))]
          exact if_congr (by omega) rfl rfl
      · rw [if_pos (h.ne_zero (by omega)), ih (i + 1) (by omega) (by omega),
          Shell.put_currentLine]
        by_cases hx : x = i
        · rw [if_neg (by omega), if_neg (by omega), if_pos hx, if_pos (by omega), hx]
        · rw [if_neg hx]
          split_ifs <;> first | rfl | omega

theorem Shell.shiftUp_writes (cursor n : ℕ) (hn : n < maxCmdLen) (s : Shell) :
    s.Writes (s.shiftUp cursor n) := by
  induction n generalizing s with
  | zero => exact .refl s
  | succ n ih =>
      rw [Shell.shiftUp]
      split
      · exact (Shell.Writes.put s _ _ hn).trans (ih (by omega) _)
      · exact .refl s

theorem Shell.shiftUp_currentLine (cursor n : ℕ) (s : Shell) (x : ℕ) :
    (s.shiftUp cursor n).currentLine x =
      if cursor < x ∧ x ≤ n then s.currentLine (x - 1) else s.currentLine x := by
  induction n generalizing s with
  | zero => rw [if_neg (by omega)]; rfl
  | succ n ih =>
      rw [Shell.shiftUp]
      by_cases hn : cursor < n + 1
      · rw [if_pos hn, ih, Shell.put_currentLine, Shell.put_currentLine]
        by_cases hx : x = n + 1
        · rw [if_neg (by omega), if_pos hx, if_pos (by omega), hx, Nat.add_sub_cancel]
        · rw [if_neg hx]
          split_ifs <;> first | rfl | omega
      · rw [if_neg hn, if_neg (by omega)]

theorem Shell.shiftDown_writes (n i : ℕ) (hn : i + n ≤ maxCmdLen) (s : Shell) :
    s.Writes (s.shiftDown n i) := by
  induction n generalizing i s with
  | zero => exact .refl s
  | succ n ih => exact (Shell.Writes.put s (i - 1) _ (by omega)).trans (ih (i + 1) (by omega) _)

theorem Shell.shiftDown_currentLine (n i : ℕ) (hi : 0 < i) (s : Shell) (x : ℕ) :
    (s.shiftDown n i).currentLine x =
      if i ≤ x + 1 ∧ x + 1 < i + n then s.currentLine (x + 1) else s.currentLine x := by
  induction n generalizing i s with
  | zero => rw [if_neg (by omega)]; rfl
  | succ n ih =>
      rw [Shell.shiftDown, ih (i + 1) (by omega), Shell.put_currentLine, Shell.put_currentLine]
      by_cases hx : x = i - 1
      · have hxi : x + 1 = i := by omega
        rw [if_neg (by omega), if_pos hx, if_pos (by omega), hxi]
      · rw [if_neg hx]
        split_ifs <;> first | rfl | omega

theorem strlenFrom_eq {str : ℕ → UInt8} {xs : List UInt8} (h : Holds str xs) (fuel i : ℕ)
    (hi : i ≤ xs.length) (hfuel : xs.length < i + fuel) : strlenFrom str fuel i = xs.length := by
  induction fuel generalizing i with
  | zero => omega
  | succ fuel ih =>
      rw [strlenFrom]
      by_cases hlast : i = xs.length
      · rw [if_pos (by rw [hlast, h.terminated]), hlast]
      · rw [if_neg (h.ne_zero (by omega)), ih (i + 1) (by omega) (by omega)]

theorem strlen_eq {str : ℕ → UInt8} {xs : List UInt8} (h : Holds str xs)
    (hlen : xs.length < 2 ^ 32) : strlen str = xs.length :=
  strlenFrom_eq h (2 ^ 32) 0 (Nat.zero_le _) (by omega)

/-! ## One step -/

/-- The slots of the history hold these commands, each with its terminator. -/
structure Stored (buffer : ℕ → ℕ → UInt8) (history : ℕ → List UInt8) : Prop where
  holds : ∀ i < historySize, Holds (buffer i) (history i)
  length_lt : ∀ i < historySize, (history i).length < maxCmdLen

/-- The shell shows what the reference editor shows. -/
structure Shell.Refines (s : Shell) (e : Editor) : Prop where
  line : Begins s.currentLine e.line
  nonzero : ∀ c ∈ e.line, c ≠ 0
  lineLen : s.lineLen = e.line.length
  cursorPos : s.cursorPos = e.cursor
  cursor_le : e.cursor ≤ e.line.length
  length_le : e.line.length ≤ 255
  historyIndex : s.historyIndex = e.historyIndex
  historyCount : s.historyCount = e.historyCount
  stored : Stored s.historyBuffer e.history
  written : ∀ i ∈ s.written, i < maxCmdLen

variable {s s' : Shell} {e : Editor}

theorem Shell.Writes.bounded (h : s.Writes s') (hs : ∀ i ∈ s.written, i < maxCmdLen) :
    ∀ i ∈ s'.written, i < maxCmdLen := by
  intro i hi
  rcases h.written i hi with hi | hi
  · exact hs i hi
  · exact hi

/-- A new line is in place, with a cursor in it. -/
theorem Shell.Refines.edit (h : s.Refines e) (hw : s.Writes s') {line : List UInt8} {n k : ℕ}
    (hline : Begins s'.currentLine line) (hnonzero : ∀ c ∈ line, c ≠ 0) (hn : n = line.length)
    (hk : k ≤ line.length) (hlen : line.length ≤ 255) :
    { s' with lineLen := n, cursorPos := k }.Refines { e with line := line, cursor := k } where
  line := hline
  nonzero := hnonzero
  lineLen := hn
  cursorPos := rfl
  cursor_le := hk
  length_le := hlen
  historyIndex := by rw [hw.same]; exact h.historyIndex
  historyCount := by rw [hw.same]; exact h.historyCount
  stored := by rw [hw.same]; exact h.stored
  written := hw.bounded h.written

theorem Shell.Refines.insert (h : s.Refines e) {c : UInt8} (hc : c ≠ 0) :
    (s.insert c).Refines (e.insert c) := by
  have hlen := h.lineLen
  have hcur := h.cursorPos
  have hle := h.cursor_le
  rw [Shell.insert, Editor.insert]
  by_cases hfull : e.line.length < 255
  · have hmax : maxCmdLen = 256 := rfl
    rw [if_pos (by omega), if_pos hfull, ← hcur]
    have hw := (Shell.shiftUp_writes s.cursorPos s.lineLen (by omega) s).trans
      (Shell.Writes.put _ s.cursorPos c (by omega))
    have hkept := hw.same
    generalize hs' : (s.shiftUp s.cursorPos s.lineLen).put s.cursorPos c = s' at hw hkept
    have hn : s'.lineLen = s.lineLen := by rw [hkept]
    have hk : s'.cursorPos = s.cursorPos := by rw [hkept]
    simp only [hn, hk]
    refine h.edit hw (h.line.insert (by omega) ?_ ?_ ?_) ?_ ?_ ?_ ?_
    · intro i hi
      rw [← hs', Shell.put_currentLine, if_neg (by omega), Shell.shiftUp_currentLine,
        if_neg (by omega)]
    · rw [← hs', Shell.put_currentLine, if_pos rfl]
    · intro i hi hi'
      rw [← hs', Shell.put_currentLine, if_neg (by omega), Shell.shiftUp_currentLine,
        if_pos (by omega)]
    · intro x hx
      simp only [List.mem_append, List.mem_cons] at hx
      rcases hx with hx | rfl | hx
      · exact h.nonzero x (List.mem_of_mem_take hx)
      · exact hc
      · exact h.nonzero x (List.mem_of_mem_drop hx)
    all_goals
      simp only [List.length_append, List.length_take, List.length_cons, List.length_drop]
      omega
  · have hmax : maxCmdLen = 256 := rfl
    rw [if_neg (by omega), if_neg hfull]
    exact h

theorem Shell.Refines.backspace (h : s.Refines e) : s.backspace.Refines e.delete := by
  have hlen := h.lineLen
  have hcur := h.cursorPos
  have hle := h.cursor_le
  have hmax := h.length_le
  rw [Shell.backspace, Editor.delete, ← hcur]
  by_cases hpos : 0 < s.cursorPos
  · rw [if_pos hpos, if_pos hpos]
    have hw := Shell.shiftDown_writes (s.lineLen - s.cursorPos) s.cursorPos
      (by unfold maxCmdLen; omega) s
    have hkept := hw.same
    generalize hs' : s.shiftDown (s.lineLen - s.cursorPos) s.cursorPos = s' at hw hkept
    have hn : s'.lineLen = s.lineLen := by rw [hkept]
    have hk : s'.cursorPos = s.cursorPos := by rw [hkept]
    have hw' := hw.trans (Shell.Writes.put s' (s'.lineLen - 1) 0
      (by unfold maxCmdLen; omega))
    simp only [Shell.put, hn, hk] at hw' ⊢
    have hcell : ∀ i < s.lineLen - 1,
        Function.update s'.currentLine (s.lineLen - 1) 0 i = s'.currentLine i :=
      fun i hi => Function.update_of_ne (by omega) _ _
    refine h.edit hw' ?_ ?_ ?_ ?_ ?_
    · have hdrop : e.line.drop s.cursorPos = e.line.drop (s.cursorPos - 1 + 1) := by
        rw [Nat.sub_add_cancel hpos]
      rw [hdrop]
      refine h.line.erase ?_ ?_
      · intro i hi
        refine (hcell i (by omega)).trans ?_
        rw [← hs', Shell.shiftDown_currentLine _ _ hpos, if_neg (by omega)]
      · intro i hi hi'
        refine (hcell i (by omega)).trans ?_
        rw [← hs', Shell.shiftDown_currentLine _ _ hpos, if_pos (by omega)]
    · intro x hx
      rcases List.mem_append.mp hx with hx | hx
      · exact h.nonzero x (List.mem_of_mem_take hx)
      · exact h.nonzero x (List.mem_of_mem_drop hx)
    all_goals
      simp only [List.length_append, List.length_take, List.length_drop]
      omega
  · rw [if_neg hpos, if_neg hpos]
    exact h

/-- A string has been copied into the line. -/
theorem Shell.Refines.toEnd (h : s.Refines e) (hw : s.Writes s') {line : List UInt8}
    (hline : Holds s'.currentLine line) (hlen : line.length ≤ 255) :
    s'.toEnd.Refines (e.recall line) := by
  have hstrlen := strlen_eq hline (by omega)
  rw [Shell.toEnd, hstrlen]
  exact h.edit hw hline.begins hline.nonzero rfl (Nat.le_refl _) hlen

/-- `strncpy` from a slot of the history brings the command into the line. -/
theorem Shell.Refines.recalled (h : s.Refines e) {i : ℕ} (hi : i < historySize) :
    Holds (Shell.copyFrom (s.historyBuffer i) s maxCmdLen 0).currentLine (e.history i) := by
  have hrow := h.stored.holds i hi
  have hlt := h.stored.length_lt i hi
  refine hrow.congr ?_
  intro x hx
  rw [Shell.copyFrom_currentLine hrow _ _ (Nat.zero_le _) (by omega), if_pos (by omega)]

theorem Shell.Refines.recall (h : s.Refines e) {i : ℕ} (hi : i < historySize) :
    (Shell.copyFrom (s.historyBuffer i) s maxCmdLen 0).toEnd.Refines
      (e.recall (e.history i)) :=
  h.toEnd (Shell.copyFrom_writes _ _ _ (by omega) s) (h.recalled hi)
    (Nat.le_of_lt_succ (h.stored.length_lt i hi))

theorem Shell.Refines.setIndex (h : s.Refines e) (i : ℕ) :
    { s with historyIndex := i }.Refines { e with historyIndex := i } :=
  { h with historyIndex := rfl }

theorem slot_lt (i : ℕ) : i % historySize < historySize := Nat.mod_lt _ (by decide)

theorem Shell.Refines.historyUp (h : s.Refines e) : s.historyUp.Refines e.previous := by
  rw [Shell.historyUp, Editor.previous, ← h.historyIndex]
  split
  · exact (h.setIndex _).recall (slot_lt _)
  · exact h

theorem Shell.Refines.historyDown (h : s.Refines e) : s.historyDown.Refines e.next := by
  have hcount := h.historyCount
  have hset := h.setIndex (s.historyIndex + 1)
  rw [Shell.historyDown, Editor.next, ← h.historyIndex]
  by_cases hmore : s.historyIndex < s.historyCount
  · have hmore' : s.historyIndex < e.historyCount := by omega
    rw [if_pos hmore, if_pos hmore']
    by_cases hlast : s.historyIndex + 1 = s.historyCount
    · simp only [if_pos hlast, if_pos (hlast.trans hcount)]
      have hnil : Holds ({ s with historyIndex := s.historyIndex + 1 }.put 0 0).currentLine [] :=
        ⟨begins_nil _, by simp, by simp [Shell.put_currentLine]⟩
      exact hset.toEnd (Shell.Writes.put _ 0 0 (by decide)) hnil (by simp)
    · have hlast' : ¬s.historyIndex + 1 = e.historyCount := by omega
      simp only [if_neg hlast, if_neg hlast']
      exact hset.recall (slot_lt _)
  · have hmore' : ¬s.historyIndex < e.historyCount := by omega
    rw [if_neg hmore, if_neg hmore']
    exact h

/-- One character, other than the newline. -/
theorem shellHandleInput_refines (h : s.Refines e) {c : UInt8} (hc : c ≠ 10) :
    (shellHandleInput c s).Refines (e.input c) := by
  have hcur := h.cursorPos
  have hlen := h.lineLen
  have hle := h.cursor_le
  rw [shellHandleInput, Editor.input]
  by_cases hleft : c = arrowLeft
  · simp only [if_pos hleft]
    have hmove : (if 0 < s.cursorPos then { s with cursorPos := s.cursorPos - 1 } else s) =
        { s with lineLen := s.lineLen, cursorPos := e.cursor - 1 } := by
      split
      · rw [hcur]
      · rw [show e.cursor - 1 = s.cursorPos by omega]
    rw [hmove]
    exact h.edit (.refl s) h.line h.nonzero hlen (by omega) h.length_le
  by_cases hright : c = arrowRight
  · simp only [if_neg hleft, if_pos hright]
    have hmove : (if s.cursorPos < s.lineLen then { s with cursorPos := s.cursorPos + 1 } else s) =
        { s with lineLen := s.lineLen, cursorPos := min (e.cursor + 1) e.line.length } := by
      split
      · rw [show min (e.cursor + 1) e.line.length = s.cursorPos + 1 by omega]
      · rw [show min (e.cursor + 1) e.line.length = s.cursorPos by omega]
    rw [hmove]
    exact h.edit (.refl s) h.line h.nonzero hlen (by omega) h.length_le
  by_cases hup : c = arrowUp
  · simp only [if_neg hleft, if_neg hright, if_pos hup]
    exact h.historyUp
  by_cases hdown : c = arrowDown
  · simp only [if_neg hleft, if_neg hright, if_neg hup, if_pos hdown]
    exact h.historyDown
  simp only [if_neg hleft, if_neg hright, if_neg hup, if_neg hdown, if_neg hc]
  split
  · exact h.backspace
  · split
    · rename_i hrange
      refine h.insert ?_
      rintro rfl
      exact absurd hrange.1 (by decide)
    · exact h

/-! ## A whole line -/

/-- The contract of the editor: the line and the cursor are those of the reference editor, no
cell outside `current_line` was written, and a newline passes on exactly the line. -/
structure EditorSpec (s : Shell) (e : Editor) : Prop where
  line : (List.range s.lineLen).map s.currentLine = e.line
  cursor : s.cursorPos = e.cursor
  cursor_le : s.cursorPos ≤ s.lineLen
  lineLen_le : s.lineLen ≤ 255
  written : ∀ i ∈ s.written, i < maxCmdLen
  newline : Holds (shellHandleInput 10 s).currentLine e.line
  newline_written : ∀ i ∈ (shellHandleInput 10 s).written, i < maxCmdLen

theorem Shell.Refines.spec (h : s.Refines e) : EditorSpec s e where
  line := by
    rw [h.lineLen]
    exact h.line.map_range
  cursor := h.cursorPos
  cursor_le := by
    rw [h.cursorPos, h.lineLen]
    exact h.cursor_le
  lineLen_le := by
    rw [h.lineLen]
    exact h.length_le
  written := h.written
  newline := by
    refine ⟨h.line.congr ?_, h.nonzero, ?_⟩
    · intro i hi
      exact Function.update_of_ne (by rw [h.lineLen]; omega) _ _
    · rw [← h.lineLen]
      exact Function.update_self _ _ _
  newline_written := by
    have hlt : s.lineLen < maxCmdLen := by
      rw [h.lineLen]
      exact Nat.lt_succ_of_le h.length_le
    exact (Shell.Writes.put s _ 0 hlt).bounded h.written

theorem foldl_refines (cs : List UInt8) (hcs : ∀ c ∈ cs, c ≠ 10) (h : s.Refines e) :
    (cs.foldl (fun s c => shellHandleInput c s) s).Refines
      (cs.foldl (fun e c => e.input c) e) := by
  induction cs generalizing s e with
  | nil => exact h
  | cons c cs ih =>
      simp only [List.mem_cons, forall_eq_or_imp] at hcs
      exact ih hcs.2 (shellHandleInput_refines h hcs.1)

/-- The spaces that `process_command` skips. -/
theorem blanks_eq {line : List UInt8} (h : Holds s.currentLine line)
    (hlen : line.length < 2 ^ 32) :
    strlenFrom (fun i => if s.currentLine i = 32 then 1 else 0) (2 ^ 32) 0 =
      (line.takeWhile (· = 32)).length := by
  have hle := (List.takeWhile_sublist (l := line) (· = 32)).length_le
  rw [← List.takeWhile_append_dropWhile (p := (· = 32)) (l := line)] at h
  have hblank : Holds (fun i => if s.currentLine i = 32 then (1 : UInt8) else 0)
      ((line.takeWhile (· = 32)).map fun _ => 1) := by
    have hnonzero : ∀ x ∈ (line.takeWhile (· = 32)).map fun _ => (1 : UInt8), x ≠ 0 := by
      intro x hx
      obtain ⟨_, -, rfl⟩ := List.mem_map.mp hx
      decide
    refine ⟨?_, hnonzero, ?_⟩
    · intro i x hx
      rw [List.getElem?_map, Option.map_eq_some_iff] at hx
      obtain ⟨c, hc, rfl⟩ := hx
      have hspace := List.mem_takeWhile_imp (List.mem_of_getElem? hc)
      have hcell := h.begins i c (List.getElem?_append_left
        (List.getElem?_eq_some_iff.mp hc).1 ▸ hc)
      exact if_pos (by simpa [hcell] using hspace)
    · rw [List.length_map, if_neg]
      -- the cell behind the spaces holds another character or the terminator
      have hrest := h.append_right
      have hnot := List.head?_dropWhile_not (· = 32) line
      cases hdrop : line.dropWhile (· = 32) with
      | nil =>
          rw [hdrop] at hrest
          have hzero := hrest.terminated
          simp only [List.length_nil, Nat.add_zero] at hzero
          rw [hzero]
          decide
      | cons c cs =>
          rw [hdrop] at hrest hnot
          have hat := hrest.begins 0 c rfl
          rw [Nat.add_zero] at hat
          rw [hat]
          simpa using hnot
  have hfrom := strlenFrom_eq hblank (2 ^ 32) 0 (Nat.zero_le _) (by rw [List.length_map]; omega)
  rwa [List.length_map] at hfrom

theorem Stored.store {buffer : ℕ → ℕ → UInt8} {history : ℕ → List UInt8}
    (h : Stored buffer history) {slot : ℕ} {row : ℕ → UInt8} {command : List UInt8}
    (hrow : Holds row command) (hlen : command.length < maxCmdLen) :
    Stored (Function.update buffer slot row) (Function.update history slot command) where
  holds i hi := by
    by_cases hslot : i = slot
    · rw [hslot, Function.update_self, Function.update_self]
      exact hrow
    · rw [Function.update_of_ne hslot, Function.update_of_ne hslot]
      exact h.holds i hi
  length_lt i hi := by
    by_cases hslot : i = slot
    · rw [hslot, Function.update_self]
      exact hlen
    · rw [Function.update_of_ne hslot]
      exact h.length_lt i hi

/-- A line with more than spaces is stored in the slot of its number, without the leading ones. -/
theorem Shell.saveCommand_eq {line : List UInt8} (hline : Holds s.currentLine line)
    (hlen : line.length < maxCmdLen) :
    line.dropWhile (· = 32) = [] ∧ s.saveCommand = s ∨
      line.dropWhile (· = 32) ≠ [] ∧ ∃ row, Holds row (line.dropWhile (· = 32)) ∧
        (∀ i, row i = if i < maxCmdLen then (line.dropWhile (· = 32)).getD i 0
          else s.historyBuffer (s.historyCount % historySize) i) ∧
        s.saveCommand =
          { s with
            historyBuffer := Function.update s.historyBuffer (s.historyCount % historySize) row
            historyCount := s.historyCount + 1
            historyIndex := s.historyCount + 1 } := by
  have hmax : maxCmdLen = 256 := rfl
  have hstart : Holds (fun i => s.currentLine ((line.takeWhile (· = 32)).length + i))
      (line.dropWhile (· = 32)) := by
    refine Holds.append_right (a := s.currentLine) ?_
    rwa [List.takeWhile_append_dropWhile]
  have hle : (line.dropWhile (· = 32)).length ≤ line.length := (List.dropWhile_suffix _).length_le
  have hstrlen := strlen_eq hstart (by omega)
  rw [Shell.saveCommand]
  simp only [blanks_eq hline (by omega), hstrlen, List.length_pos_iff]
  generalize line.dropWhile (· = 32) = command at *
  generalize (line.takeWhile (· = 32)).length = blanks at *
  by_cases hempty : command = []
  · rw [if_neg (by simpa using hempty)]
    exact .inl ⟨hempty, rfl⟩
  · rw [if_pos hempty]
    refine .inr ⟨hempty, _, hstart.congr ?_, ?_, rfl⟩
    · intro x hx
      rw [if_pos (by omega)]
      by_cases hend : x = command.length
      · rw [if_neg, hend]
        · exact hstart.terminated.symm
        · intro hall
          exact hall command.length (by omega) hstart.terminated
      · rw [if_pos]
        intro j hj
        exact hstart.ne_zero (by omega)
    · intro i
      by_cases hi : i < maxCmdLen
      · rw [if_pos hi, if_pos hi]
        by_cases hend : i < command.length
        · have hchar : s.currentLine (blanks + i) = command[i] :=
            hstart.begins i _ (List.getElem?_eq_getElem hend)
          rw [if_pos fun j hj => hstart.ne_zero (by omega), hchar]
          simp [hend]
        · rw [if_neg fun hall => hall command.length (by omega) hstart.terminated]
          simp [hend]
      · rw [if_neg hi, if_neg hi]

/-- The line editor of the shell refines the reference editor, from an empty line and any
history of stored commands. -/
theorem shell_handle_input_refines (s : Shell) (history : ℕ → List UInt8) (cs : List UInt8)
    (hstored : Stored s.historyBuffer history) (hline : s.lineLen = 0) (hcursor : s.cursorPos = 0)
    (hwritten : s.written = []) (hcs : ∀ c ∈ cs, c ≠ 10) :
    EditorSpec (cs.foldl (fun s c => shellHandleInput c s) s)
      (cs.foldl (fun e c => e.input c) ⟨[], 0, history, s.historyCount, s.historyIndex⟩) := by
  have hstart : s.Refines ⟨[], 0, history, s.historyCount, s.historyIndex⟩ :=
    ⟨begins_nil _, by simp, hline, hcursor, Nat.zero_le _, Nat.zero_le _, rfl, rfl, hstored,
      by simp [hwritten]⟩
  exact (foldl_refines cs hcs hstart).spec

/-- A shell that has stored the command `ls`. -/
def shellWithLs : Shell := ⟨fun _ i => [108, 115].getD i 0, 1, 1, fun _ => 7, 0, 0, []⟩

/-- An insertion between two characters, a deletion, a recall and a letter behind it. -/
theorem shell_handle_input_refines_recall :
    EditorSpec
        ([97, 99, arrowLeft, 98, 8, arrowUp, 97].foldl (fun s c => shellHandleInput c s)
          shellWithLs)
        ([97, 99, arrowLeft, 98, 8, arrowUp, 97].foldl (fun e c => e.input c)
          ⟨[], 0, fun _ => [108, 115], 1, 1⟩) ∧
      ([97, 99, arrowLeft, 98, 8, arrowUp, 97].foldl (fun e c => e.input c)
        ⟨[], 0, fun _ => [108, 115], 1, 1⟩ : Editor).line = [108, 115, 97] := by
  have hstored : Stored shellWithLs.historyBuffer fun _ => [108, 115] := by
    refine ⟨fun _ _ => ⟨?_, by simp, rfl⟩, fun _ _ => by decide⟩
    intro i x hx
    simp [shellWithLs, List.getD_eq_getElem?_getD, hx]
  exact ⟨shell_handle_input_refines shellWithLs (fun _ => [108, 115])
    [97, 99, arrowLeft, 98, 8, arrowUp, 97] hstored rfl rfl rfl (by decide +kernel),
    by decide +kernel⟩

end MyOS
