import MyOS.Verification.Shell.Session

/-! What Enter leaves of the line: a blank line is not reset. -/

namespace MyOS

open CString

/-- Nothing is left of earlier lines and of the search in the history. -/
structure Shell.Fresh (s : Shell) : Prop where
  lineLen : s.lineLen = 0
  cursorPos : s.cursorPos = 0
  currentLine : ∀ i < maxCmdLen, s.currentLine i = 0
  historyIndex : s.historyIndex = s.historyCount

variable {s : Shell} {e : Editor}

/-- A line is a command when one of its characters is not a space. -/
theorem Shell.Refines.command_ne_nil_iff (h : s.Refines e) :
    command e.line ≠ [] ↔ ∃ i < s.lineLen, s.currentLine i ≠ 32 := by
  have hcell : ∀ i (hi : i < e.line.length), s.currentLine i = e.line[i] := fun i hi =>
    h.line i _ (List.getElem?_eq_getElem hi)
  unfold command
  rw [ne_eq, List.dropWhile_eq_nil_iff, h.lineLen]
  constructor
  · intro hword
    by_contra hall
    apply hword
    intro c hc
    obtain ⟨i, hi, rfl⟩ := List.getElem_of_mem hc
    by_contra hne
    exact hall ⟨i, hi, by rw [hcell i hi]; simpa using hne⟩
  · rintro ⟨i, hi, hne⟩ hall
    rw [hcell i hi] at hne
    have hspace := hall _ (List.getElem_mem hi)
    exact hne (by simpa using hspace)

theorem Shell.Refines.fresh_iff (h : s.Refines e) :
    (shellInput s 10).Fresh ↔ (∃ i < s.lineLen, s.currentLine i ≠ 32) ∨
      s.lineLen = 0 ∧ s.historyIndex = s.historyCount ∧
        ∀ i, 0 < i → i < maxCmdLen → s.currentLine i = 0 := by
  rw [← h.command_ne_nil_iff]
  rcases h.enter with ⟨hblank, hrun⟩ | ⟨hword, row, line, -, hrun⟩
  · rw [hrun]
    have hcell : ∀ i, (s.put s.lineLen 0).currentLine i =
        if i = s.lineLen then 0 else s.currentLine i := Shell.put_currentLine s s.lineLen 0
    constructor
    · intro hfresh
      have hzero : s.lineLen = 0 := hfresh.lineLen
      refine .inr ⟨hzero, hfresh.historyIndex, ?_⟩
      intro i hpos hi
      have := hfresh.currentLine i hi
      rwa [hcell, if_neg (by omega)] at this
    · rintro (hword | ⟨hzero, hindex, hrest⟩)
      · exact absurd hblank hword
      · have hcursor := h.cursor_le
        have hlen := h.lineLen
        refine ⟨hzero, h.cursorPos.trans (by omega), ?_, hindex⟩
        intro i hi
        rw [hcell]
        by_cases hi0 : i = s.lineLen
        · exact if_pos hi0
        · rw [if_neg hi0]
          exact hrest i (by omega) hi
  · rw [hrun]
    refine iff_of_true ?_ (.inl hword)
    have hclear := Shell.cleared_reset { (s.put s.lineLen 0).store row with currentLine := line }
    exact ⟨hclear.lineLen, hclear.cursorPos, hclear.currentLine,
      hclear.historyIndex.trans hclear.historyCount.symm⟩

/-- In every session Enter starts a fresh line exactly if the line has a character other than a
space, or if it was empty with nothing left behind it and no command recalled. -/
theorem enter_fresh_iff (keys : List UInt8) :
    (shellRun (keys ++ [10])).Fresh ↔
      (∃ i < (shellRun keys).lineLen, (shellRun keys).currentLine i ≠ 32) ∨
        (shellRun keys).lineLen = 0 ∧
          (shellRun keys).historyIndex = (shellRun keys).historyCount ∧
          ∀ i, 0 < i → i < maxCmdLen → (shellRun keys).currentLine i = 0 := by
  have hrun : shellRun (keys ++ [10]) = shellInput (shellRun keys) 10 := by
    unfold shellRun
    rw [List.foldl_append]
    rfl
  rw [hrun]
  exact (shellRun_refines keys).fresh_iff

/-- A space, and Enter: the space stays. -/
theorem enter_not_fresh_space : ¬(shellRun [32, 10]).Fresh ∧ (shellRun [32, 10]).lineLen = 1 := by
  have hlen : (shellRun [32]).lineLen = 1 := rfl
  have hcell : (shellRun [32]).currentLine 0 = 32 := rfl
  have hrefines := shellRun_refines [32]
  have hnot : ¬(shellInput (shellRun [32]) 10).Fresh := by
    rw [hrefines.fresh_iff]
    rintro (⟨i, hi, hne⟩ | ⟨hzero, -⟩)
    · obtain rfl : i = 0 := by omega
      exact hne hcell
    · omega
  refine ⟨hnot, ?_⟩
  have hsubmit : (shellRun [32, 10]).Refines ([32, 10].foldl Editor.key Editor.init) :=
    shellRun_refines [32, 10]
  rw [hsubmit.lineLen]
  decide

end MyOS
