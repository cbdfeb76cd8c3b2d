import MyOS.Lib.Runs
import MyOS.Verification.Shell.History

/-! The window of the history: Up may leave the ten commands that are stored. -/

namespace MyOS

open Runs

variable {s : Shell} {e : Editor} {c : UInt8}

/-- The index is one of the last ten commands or behind them. -/
def Shell.InWindow (s : Shell) : Prop := s.historyCount ≤ s.historyIndex + historySize

/-- Up is not pressed on the oldest command that is still stored, unless it is the first one of
all. -/
def UpInWindow (s : Shell) (c : UInt8) : Prop :=
  c = arrowUp → s.historyIndex = 0 ∨ s.historyCount < s.historyIndex + historySize

theorem Editor.inWindow_previous (e : Editor)
    (h : e.historyCount ≤ e.historyIndex + historySize) :
    e.previous.historyCount ≤ e.previous.historyIndex + historySize ↔
      e.historyIndex = 0 ∨ e.historyCount < e.historyIndex + historySize := by
  unfold Editor.previous
  split
  · change e.historyCount ≤ e.historyIndex - 1 + historySize ↔ _
    omega
  · omega

theorem Editor.inWindow_next (e : Editor) (h : e.historyCount ≤ e.historyIndex + historySize) :
    e.next.historyCount ≤ e.next.historyIndex + historySize := by
  unfold Editor.next
  split
  · change e.historyCount ≤ e.historyIndex + 1 + historySize
    omega
  · exact h

theorem Editor.inWindow_submit (e : Editor) (h : e.historyCount ≤ e.historyIndex + historySize) :
    e.submit.historyCount ≤ e.submit.historyIndex + historySize := by
  unfold Editor.submit
  split
  · exact h
  · exact Nat.le_add_right _ _

/-- Every other key keeps the index in the window. -/
theorem Editor.inWindow_key (e : Editor) (h : e.historyCount ≤ e.historyIndex + historySize)
    (hc : c ≠ arrowUp) : (e.key c).historyCount ≤ (e.key c).historyIndex + historySize := by
  unfold Editor.key Editor.input
  split
  · exact e.inWindow_submit h
  split
  · exact h
  split
  · exact h
  split
  · exact e.inWindow_next h
  split
  · unfold Editor.delete
    split <;> exact h
  split
  · unfold Editor.insert
    split <;> exact h
  · exact h

theorem Shell.Refines.inWindow_iff (h : s.Refines e) :
    s.InWindow ↔ e.historyCount ≤ e.historyIndex + historySize := by
  unfold Shell.InWindow
  rw [h.historyCount, h.historyIndex]

theorem Shell.Refines.inWindow_key (h : s.Refines e) (hwindow : s.InWindow) (c : UInt8) :
    (shellInput s c).InWindow ↔ UpInWindow s c := by
  have hold := h.inWindow_iff.mp hwindow
  rw [(h.key c).inWindow_iff]
  unfold UpInWindow
  by_cases hc : c = arrowUp
  · rw [h.historyIndex, h.historyCount, hc]
    simp only [true_implies]
    exact e.inWindow_previous hold
  · exact iff_of_true (e.inWindow_key hold hc) fun h => absurd h hc

/-- In every session the index stays in the window exactly if Up is never pressed on the oldest
stored command once older ones are gone. As long as it does, Up shows the command before the one
that the index stood on. -/
theorem history_window_iff (keys : List UInt8) :
    (Always shellInput Shell.InWindow shellInit keys ↔
      Meets shellInput UpInWindow shellInit keys) ∧
    (Always shellInput Shell.InWindow shellInit (keys ++ [arrowUp]) →
      0 < (shellRun keys).historyIndex →
      ∃ cmd, (submitted keys)[(shellRun keys).historyIndex - 1]? = some cmd ∧
        (shellRun (keys ++ [arrowUp])).Shows cmd) := by
  constructor
  · refine always_iff_meets (I := fun s => ∃ e, s.Refines e) ?_ ?_ keys shellInit
      ⟨_, shellInit_refines⟩ (Nat.zero_le _)
    · rintro s c ⟨e, h⟩
      exact ⟨e.key c, h.key c⟩
    · rintro s c ⟨e, h⟩ hwindow
      exact h.inWindow_key hwindow c
  · intro halways hpos
    have hwindow : (shellRun (keys ++ [arrowUp])).InWindow := halways.last
    obtain ⟨e, h⟩ := shellRun_remembers keys
    have hspec := h.spec
    rw [shellRun_append, shellInput_arrowUp, Shell.historyUp_eq, if_pos hpos] at *
    have hcount : ((shellRun keys).goTo ((shellRun keys).historyIndex - 1)).historyCount =
        (submitted keys).length := by
      rw [((shellRun keys).goTo_history _).2.2]
      exact hspec.count
    have hlt : (shellRun keys).historyIndex - 1 < (submitted keys).length := by
      have := hspec.index_le
      omega
    unfold Shell.InWindow at hwindow
    rw [hcount, ((shellRun keys).goTo_history _).1] at hwindow
    exact ⟨_, List.getElem?_eq_getElem hlt,
      h.shows_goTo (List.getElem?_eq_getElem hlt) hwindow⟩

/-- One command, and Up. -/
theorem history_window_iff_first :
    Always shellInput Shell.InWindow shellInit ([97, 10] ++ [arrowUp]) ∧
      ∃ cmd, (submitted [97, 10])[(shellRun [97, 10]).historyIndex - 1]? = some cmd ∧
        (shellRun ([97, 10] ++ [arrowUp])).Shows cmd := by
  have h := shellRun_refines [97, 10]
  have hindex : (shellRun [97, 10]).historyIndex = 1 := h.historyIndex.trans (by decide)
  have hcount : (shellRun [97, 10]).historyCount = 1 := h.historyCount.trans (by decide)
  have halways : Always shellInput Shell.InWindow shellInit ([97, 10] ++ [arrowUp]) := by
    rw [(history_window_iff ([97, 10] ++ [arrowUp])).1]
    refine ⟨fun hc => absurd hc (by decide), fun hc => absurd hc (by decide), fun _ => ?_, trivial⟩
    right
    change (shellRun [97, 10]).historyCount < (shellRun [97, 10]).historyIndex + historySize
    rw [hindex, hcount]
    decide
  exact ⟨halways, (history_window_iff [97, 10]).2 halways (by rw [hindex]; decide)⟩

/-- The commands `a` to `k`, and Up eleven times. -/
def elevenCommands : List UInt8 :=
  [97, 10, 98, 10, 99, 10, 100, 10, 101, 10, 102, 10, 103, 10, 104, 10, 105, 10, 106, 10, 107, 10]
    ++ List.replicate 11 arrowUp

/-- The last press shows the newest command instead of the first one. -/
theorem history_window_eleven :
    ¬(shellRun elevenCommands).InWindow ∧ (shellRun elevenCommands).historyIndex = 0 ∧
      (shellRun elevenCommands).text = [107] := by
  have h := shellRun_refines elevenCommands
  refine ⟨?_, h.historyIndex.trans (by decide +kernel), h.text_eq.trans (by decide +kernel)⟩
  rw [h.inWindow_iff]
  decide +kernel

end MyOS
