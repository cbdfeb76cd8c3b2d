import MyOS.Lib.Runs
import MyOS.Verification.Screen.Line
import MyOS.Verification.Shell.Words

/-! Sessions of the shell on its screen: behind the text above it, the screen shows the prompt and
the line as it is edited, and nothing of the way it was typed. -/

namespace MyOS

open CString Runs TextRows

/-- The text above the prompt, and the editor of the line behind it. -/
structure Transcript where
  above : List UInt8
  editor : Editor

/-- A key. Enter leaves the line in the text, with the output of its command; `cls` clears it. -/
def Transcript.key (p : Transcript) (key : UInt8 × List UInt8) : Transcript :=
  if key.1 = 10 then
    { above :=
        if (words p.editor.line).head? = some (text "cls") then text "\n"
        else p.above ++ prompt ++ p.editor.line ++ text "\n\n" ++
          (if words p.editor.line = [] then [] else key.2 ++ text "\n")
      editor := p.editor.submit }
  else
    { p with editor := p.editor.input key.1 }

/-- The text that is on the screen. -/
def Transcript.shown (p : Transcript) : List UInt8 := p.above ++ prompt ++ p.editor.line

variable {s : Shell} {e : Editor} {c : UInt8}

/-! ## Enter -/

/-- What is shown for a line depends on its words. -/
theorem processCommandEvents_eq {line : ℕ → UInt8} {xs : List UInt8} (hlen : xs.length ≤ 255)
    (hline : Holds line xs) (output : List UInt8) :
    processCommandEvents line output =
      if words xs = [] then (text "\n" ++ prompt).map .print
      else (text "\n").map .print ++
        (if (words xs).head? = some (text "cls") then [.clear] else output.map .print) ++
        (text "\n").map .print ++ prompt.map .print := by
  obtain ⟨argc, argv, t, hrun, hparsed⟩ := parseCommand_parsed (by omega) hline
  have hargc := hparsed.argc_eq
  have hmax : maxArgs = 16 := rfl
  have hcls : Holds (literal "cls") (text "cls") := holds_literal (by decide +kernel)
  unfold processCommandEvents
  rw [hrun]
  cases hwords : words xs with
  | nil =>
      rw [hwords, List.length_nil] at hargc
      simp only [show argc = 0 by omega, if_true]
  | cons w ws =>
      rw [hwords, List.length_cons] at hargc
      have hpos : 0 < argc := by omega
      have hword := hparsed.word 0 w (by rw [hwords]; rfl) hpos
      have hmem : w ∈ words xs := by
        rw [hwords]
        exact List.mem_cons_self
      have hshort := length_le_of_mem_words hmem
      have hfirst : strcmp (argString t.line argv 0) (literal "cls") = 0 ↔ w = text "cls" :=
        strcmp_eq_zero_iff hword hcls (by omega)
      have hcleared : Holds (argString (clearedLine t.line) argv 0) [] := by
        obtain ⟨p, hp, hargv⟩ := hparsed.first hpos
        refine ⟨begins_nil _, fun x hx => absurd hx List.not_mem_nil, ?_⟩
        have hcell : p < maxCmdLen := Nat.lt_of_le_of_lt hp (Nat.lt_succ_of_le hlen)
        unfold argString clearedLine
        rw [hargv]
        exact if_pos hcell
      have hsecond : strcmp (argString (clearedLine t.line) argv 0) (literal "cls") ≠ 0 := by
        intro hzero
        have hempty := (strcmp_eq_zero_iff hcleared hcls (Nat.two_pow_pos 32)).mp hzero
        exact absurd hempty (by decide +kernel)
      simp only [if_neg (Nat.ne_of_gt hpos), if_pos hsecond, hfirst, List.head?_cons,
        Option.some.injEq, if_neg (List.cons_ne_nil w ws)]

theorem foldl_print (output : List UInt8) : ∀ t : Terminal,
    (output.map .print).foldl terminalStep t =
      { t with screen := t.screen.printString output } := by
  induction output with
  | nil => exact fun t => rfl
  | cons c output ih => exact fun t => ih _

/-- Text, and the prompt behind it. -/
theorem shows_prompt {t : Screen} {above : List UInt8} (h : t.vga.Shows (pageOf above))
    (hrow : (pageOf above).row = []) :
    (t.printString prompt).vga.ShowsLine above [] ∧ (t.printString prompt).vga.cursorCol = 6 := by
  have hshows := Screen.shows_printString prompt (by decide +kernel) t _ h (fits_pageOf above)
  rw [foldl_add_row (by decide +kernel) (by rw [hrow]; decide), hrow, List.nil_append] at hshows
  generalize t.printString prompt = u at hshows
  have hcol : u.vga.cursorCol = prompt.length := hshows.cursorCol
  refine ⟨?_, hcol⟩
  unfold Vga.ShowsLine
  rw [List.append_nil, ← hcol]
  exact hshows

/-! ## Steps -/

/-- The terminal against its transcript. Behind a blank line that was entered the cursor waits at
the prompt, otherwise it is in its place in the line. -/
structure Terminal.Follows (t : Terminal) (p : Transcript) : Prop where
  refines : t.shell.Refines p.editor
  printable : p.editor.AllPrintable
  row_start : (pageOf p.above).row = []
  fits : p.editor.line.length ≤ 73
  screen : t.screen.vga.ShowsLine p.above p.editor.line
  cursor : p.editor.line = [] ∨ words p.editor.line ≠ [] →
    t.screen.vga.cursorCol = 6 + p.editor.cursor
  synced : t.screen.Synced

/-- A key that does not redraw the line does not change it either. -/
theorem Shell.Refines.input_eq (h : s.Refines e) (hc : c ≠ 10) (hkept : ¬redraws c s) :
    e.input c = e := by
  have hlen := h.lineLen
  have hcursor := h.cursorPos
  have hle := h.cursor_le
  have hmax : maxCmdLen = 256 := rfl
  unfold redraws at hkept
  unfold Editor.input
  split_ifs at hkept ⊢
  · have hzero : e.cursor - 1 = e.cursor := by omega
    rw [hzero]
  · have hend : min (e.cursor + 1) e.line.length = e.cursor := by omega
    rw [hend]
  · unfold Editor.previous
    rw [if_neg (by rw [← h.historyIndex]; exact hkept)]
  · unfold Editor.next
    rw [if_neg (by rw [← h.historyIndex, ← h.historyCount]; exact hkept)]
  · unfold Editor.delete
    rw [if_neg (by omega)]
  · unfold Editor.insert
    rw [if_neg (by omega)]
  · rfl

variable {t : Terminal} {p : Transcript}

theorem Terminal.Follows.input (h : t.Follows p) (hc : c ≠ 10)
    (hfits : (p.editor.input c).line.length ≤ 73) :
    (terminalStep t (.key c)).Follows { p with editor := p.editor.input c } := by
  have hkey : (shellInput t.shell c).Refines (p.editor.input c) := by
    have hkey := h.refines.key c
    unfold Editor.key at hkey
    rwa [if_neg hc] at hkey
  have hprintable := h.printable.input c
  unfold terminalStep
  simp only [if_neg hc]
  by_cases hredraw : redraws c t.shell
  · rw [if_pos hredraw]
    refine ⟨hkey, hprintable, h.row_start, hfits, h.screen.redraw hkey hfits, fun _ => ?_, rfl⟩
    change prompt.length + (shellInput t.shell c).cursorPos = 6 + (p.editor.input c).cursor
    rw [hkey.cursorPos]
    rfl
  · have hsame := h.refines.input_eq hc hredraw
    rw [if_neg hredraw]
    rw [hsame] at hkey ⊢
    exact ⟨hkey, h.printable, h.row_start, h.fits, h.screen, h.cursor, h.synced⟩

theorem words_eq_nil_iff (xs : List UInt8) : words xs = [] ↔ command xs = [] := by
  constructor
  · intro hwords
    by_contra hne
    rw [← words_dropWhile] at hwords
    obtain ⟨h, -⟩ | ⟨w, ys, -, -, h⟩ := word_cases hne (head_dropWhile_space xs)
    · exact List.cons_ne_nil _ _ (h.symm.trans hwords)
    · exact List.cons_ne_nil _ _ (h.symm.trans hwords)
  · intro hblank
    have hdrop : xs.dropWhile (· = 32) = [] := hblank
    rw [← words_dropWhile, hdrop, words_nil]

/-- A new prompt behind the text. -/
theorem follows_prompt {u : Screen} {above : List UInt8} (hs : s.Refines e) (he : e.AllPrintable)
    (hfits : e.line.length ≤ 73) (hspaces : ∀ c ∈ e.line, c = 32)
    (hcursor : e.line = [] ∨ words e.line ≠ [] → e.cursor = 0)
    (hu : u.vga.Shows (pageOf above)) (hsynced : u.Synced) (hrow : (pageOf above).row = []) :
    Terminal.Follows ⟨s, u.printString prompt⟩ ⟨above, e⟩ := by
  obtain ⟨hscreen, hcol⟩ := shows_prompt hu hrow
  refine ⟨hs, he, hrow, hfits, hscreen.spaces hspaces, ?_, Screen.synced_printString _ _ hsynced⟩
  intro hline
  rw [hcursor hline]
  exact hcol

theorem Terminal.Follows.enter (h : t.Follows p) {output : List UInt8}
    (hout : ∀ c ∈ output, c ≠ 8) :
    (sessionStep t (10, output)).Follows (p.key (10, output)) := by
  have hline : Holds (t.shell.put t.shell.lineLen 0).currentLine p.editor.line :=
    h.refines.spec.newline
  have hsubmit := h.refines.submit
  have hbreak : (t.screen.printChar 10).vga.Shows
      (pageOf (p.above ++ prompt ++ p.editor.line ++ text "\n")) := by
    rw [Screen.printChar_vga]
    exact h.screen.break h.row_start h.printable.line h.fits
  have hnewline : ∀ c ∈ text "\n", c ≠ 8 := by decide +kernel
  have hstep : terminalStep t (.key 10) = ⟨shellInput t.shell 10, t.screen.printChar 10⟩ := rfl
  have htwo : text "\n\n" = text "\n" ++ text "\n" := rfl
  have hsecond := shows_append hbreak hnewline
  unfold sessionStep Transcript.key
  rw [if_pos rfl, if_pos rfl, processCommandEvents_eq h.refines.length_le hline, hstep, htwo]
  by_cases hwords : words p.editor.line = []
  · have hblank := (words_eq_nil_iff _).mp hwords
    have hsame : p.editor.submit = p.editor := if_pos hblank
    have hspaces : ∀ c ∈ p.editor.line, c = 32 := by
      simpa using List.dropWhile_eq_nil_iff.mp hblank
    rw [hsame] at hsubmit ⊢
    rw [if_pos hwords, hwords, if_neg (by simp), if_pos rfl, List.append_nil, List.map_append,
      List.foldl_append, foldl_print, foldl_print]
    rw [List.append_assoc _ (text "\n")] at hsecond
    refine follows_prompt hsubmit h.printable h.fits hspaces ?_ hsecond
      (Screen.synced_printString _ _ rfl) ?_
    · rintro (hnil | hne)
      · have hle := h.refines.cursor_le
        rw [hnil, List.length_nil] at hle
        omega
      · exact absurd hwords hne
    · rw [← List.append_assoc]
      exact pageOf_newline _
  · have hcommand : command p.editor.line ≠ [] := fun hc => hwords ((words_eq_nil_iff _).mpr hc)
    have hempty : p.editor.submit.line = [] ∧ p.editor.submit.cursor = 0 := by
      unfold Editor.submit
      rw [if_neg hcommand]
      exact ⟨rfl, rfl⟩
    have hprompt : ∀ {u : Screen} {above : List UInt8}, u.vga.Shows (pageOf above) → u.Synced →
        (pageOf above).row = [] →
          Terminal.Follows ⟨shellInput t.shell 10, u.printString prompt⟩
            ⟨above, p.editor.submit⟩ := by
      intro u above hu hsynced hrow
      refine follows_prompt hsubmit h.printable.submit ?_ ?_ (fun _ => hempty.2) hu hsynced hrow
      · rw [hempty.1]
        exact Nat.zero_le _
      · rw [hempty.1]
        exact fun c hc => absurd hc List.not_mem_nil
    rw [if_neg hwords]
    simp only [List.foldl_append, foldl_print]
    by_cases hcls : (words p.editor.line).head? = some (text "cls")
    · -- the newline that `cls` was to be spared is printed all the same
      rw [if_pos hcls, if_pos hcls]
      have hclear : ∀ u : Screen, (clearScreen u).vga.Shows (pageOf []) := shows_clearScreen
      exact hprompt (shows_append (hclear _) hnewline) (Screen.synced_printString _ _ rfl) rfl
    · rw [if_neg hcls, if_neg hcls, foldl_print, if_neg hwords]
      have hall := shows_append (shows_append hsecond hout) hnewline
      rw [show p.above ++ prompt ++ p.editor.line ++ text "\n" ++ text "\n" ++ output ++ text "\n" =
        p.above ++ prompt ++ p.editor.line ++ (text "\n" ++ text "\n") ++ (output ++ text "\n") by
          simp only [List.append_assoc]] at hall
      refine hprompt hall (Screen.synced_printString _ _ ?_) ?_
      · exact Screen.synced_printString _ _ (Screen.synced_printString _ _ rfl)
      · rw [← List.append_assoc]
        exact pageOf_newline _

theorem Terminal.Follows.step (h : t.Follows p) {key : UInt8 × List UInt8}
    (hout : ∀ c ∈ key.2, c ≠ 8) (hfits : (p.key key).editor.line.length ≤ 73) :
    (sessionStep t key).Follows (p.key key) := by
  obtain ⟨c, output⟩ := key
  by_cases hc : c = 10
  · rw [hc]
    exact h.enter hout
  · have hstep : sessionStep t (c, output) = terminalStep t (.key c) := if_neg hc
    have hkey : p.key (c, output) = { p with editor := p.editor.input c } := if_neg hc
    rw [hkey] at hfits ⊢
    rw [hstep]
    exact h.input hc hfits

/-! ## Sessions -/

def Transcript.start : Transcript := ⟨[], Editor.init⟩

theorem sessionStart_follows (v : Vga) (position : ℕ) :
    (sessionStart v position).Follows Transcript.start := by
  have hprintable : Editor.init.AllPrintable :=
    ⟨fun c hc => absurd hc List.not_mem_nil, fun i c hc => absurd hc List.not_mem_nil⟩
  unfold sessionStart
  rw [foldl_print]
  exact follows_prompt shellInit_refines hprintable (Nat.zero_le _)
    (fun c hc => absurd hc List.not_mem_nil) (fun _ => rfl) (shows_clearScreen _) rfl rfl

/-- The contract of the terminal: the screen shows the last 25 rows of the transcript, which ends
with the prompt and the line; the cursor stands where the line is edited; and Enter would hand the
words of this line to the command. -/
structure SessionSpec (t : Terminal) (p : Transcript) : Prop where
  cells : ∀ i < 2000, t.screen.vga.cells i =
    rowCell ((lastRows 25 (rows 10 80 p.shown)).getD (i / 80) []) (i % 80)
  cursorRow : t.screen.vga.cursorRow + 1 = (lastRows 25 (rows 10 80 p.shown)).length
  cursorCol : p.editor.line = [] ∨ words p.editor.line ≠ [] →
    t.screen.vga.cursorCol = 6 + p.editor.cursor
  position : t.screen.Synced
  arguments : argStrings (t.shell.put t.shell.lineLen 0).currentLine =
    (words p.editor.line).take maxArgs

theorem Terminal.Follows.spec (h : t.Follows p) : SessionSpec t p := by
  have hpage := pageOf_line h.row_start h.printable.line h.fits
  have hvisible : (pageOf p.shown).visible = lastRows 25 (rows 10 80 p.shown) :=
    visible_eq_lastRows (by decide +kernel) p.shown
  have hshown : (pageOf p.shown).visible =
      Page.visible { pageOf p.above with row := prompt ++ p.editor.line } := congrArg _ hpage
  have hlen := h.refines.length_le
  refine ⟨?_, ?_, h.cursor, h.synced, argStrings_eq (by omega) h.refines.spec.newline⟩
  · intro i hi
    rw [← hvisible, hshown]
    exact h.screen.cells i hi
  · rw [← hvisible, hshown, Page.visible_length]
    exact congrArg (· + 1) h.screen.cursorRow

theorem session_follows (v : Vga) (position : ℕ) {keys : List (UInt8 × List UInt8)}
    (hout : ∀ key ∈ keys, ∀ c ∈ key.2, c ≠ 8)
    (hfits : Always Transcript.key (fun p => p.editor.line.length ≤ 73) Transcript.start keys) :
    (keys.foldl sessionStep (sessionStart v position)).Follows
      (keys.foldl Transcript.key Transcript.start) := by
  have hstep : ∀ (t : Terminal) (p : Transcript) (key : UInt8 × List UInt8), t.Follows p →
      (∀ c ∈ key.2, c ≠ 8) → (p.key key).editor.line.length ≤ 73 →
        (sessionStep t key).Follows (p.key key) := fun _ _ _ h hc hp => h.step hc hp
  exact Always.simulation hstep hout (sessionStart_follows v position) hfits

/-- In every session whose lines fit behind the prompt the screen shows the transcript: of each
line its last state, of each command its output, and nothing of how the lines were typed. -/
theorem session_shows_transcript (v : Vga) (position : ℕ) {keys : List (UInt8 × List UInt8)}
    (hout : ∀ key ∈ keys, ∀ c ∈ key.2, c ≠ 8)
    (hfits : Always Transcript.key (fun p => p.editor.line.length ≤ 73) Transcript.start keys) :
    SessionSpec (keys.foldl sessionStep (sessionStart v position))
      (keys.foldl Transcript.key Transcript.start) :=
  (session_follows v position hout hfits).spec

/-- `sl` is typed, taken back and typed right; the command prints one name. -/
def lsKeys : List (UInt8 × List UInt8) :=
  [(115, []), (108, []), (8, []), (8, []), (115, []), (arrowLeft, []), (108, []), (10, text "A")]

theorem session_shows_transcript_ls :
    ∃ t : Terminal, SessionSpec t (lsKeys.foldl Transcript.key Transcript.start) ∧
      lastRows 25 (rows 10 80 (lsKeys.foldl Transcript.key Transcript.start).shown) =
        [text "PGOS> ls", [], text "A", text "PGOS> "] := by
  have hout : ∀ key ∈ lsKeys, ∀ c ∈ key.2, c ≠ 8 := by decide +kernel
  have hfits : Always Transcript.key (fun p => p.editor.line.length ≤ 73) Transcript.start
      lsKeys := by
    have hlast : (lsKeys.foldl Transcript.key Transcript.start).editor.line.length ≤ 73 := by
      decide +kernel
    refine ⟨?_, ?_, ?_, ?_, ?_, ?_, ?_, ?_, hlast⟩ <;> decide +kernel
  exact ⟨_, session_shows_transcript ⟨fun _ => 0, 0, 0⟩ 0 hout hfits, by decide +kernel⟩

end MyOS
