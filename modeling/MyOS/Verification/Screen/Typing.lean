import MyOS.Verification.Keyboard.Fifo
import MyOS.Verification.Screen.Transcript

/-! From the scancodes to the screen: keyboard, shell and screen together. -/

namespace MyOS

open Runs

variable {v : Vga} {position : ℕ} {k : Keyboard} {r : Reader} {t : Terminal}
  {scancodes : List UInt8} {keys : List (UInt8 × List UInt8)}

theorem History.step_none (h : History) (r r' : Reader) :
    (h.step r r' none).scancodes = h.scancodes ∧ (h.step r r' none).returned = h.returned := by
  unfold History.step
  split <;> simp_all

theorem History.step_some (h : History) (r r' : Reader) (c : UInt8) :
    (h.step r r' (some c)).scancodes = h.scancodes ∧
      (h.step r r' (some c)).returned = h.returned ++ [c] := by
  unfold History.step
  split <;> simp_all

/-- The shell handles the characters that the keyboard returns. -/
theorem ShellRun.history (hrun : ShellRun v position k r t scancodes keys) :
    ∃ h, KeyboardRun k r h ∧ h.scancodes = scancodes ∧ h.returned = keys.map Prod.fst ∧
      t = keys.foldl sessionStep (sessionStart v position) := by
  induction hrun with
  | start => exact ⟨⟨[], [], [], 0⟩, .start, rfl, rfl, List.foldl_nil.symm⟩
  | interrupt scancode _ ih =>
      obtain ⟨h, hkeyboard, hscancodes, hreturned, ht⟩ := ih
      exact ⟨_, hkeyboard.key scancode, congrArg (· ++ [scancode]) hscancodes, hreturned, ht⟩
  | wait _ hstep ih =>
      obtain ⟨h, hkeyboard, hscancodes, hreturned, ht⟩ := ih
      obtain ⟨hsame, hsame'⟩ := h.step_none _ _
      exact ⟨_, hkeyboard.read hstep, hsame.trans hscancodes, hsame'.trans hreturned, ht⟩
  | handle output _ hstep ih =>
      obtain ⟨h, hkeyboard, hscancodes, hreturned, ht⟩ := ih
      obtain ⟨hsame, hmore⟩ := h.step_some _ _ _
      refine ⟨_, hkeyboard.read hstep, hsame.trans hscancodes, ?_, ?_⟩
      · rw [hmore, hreturned, List.map_append]
        rfl
      · rw [List.foldl_append, ← ht]
        rfl

/-- Where every character has been returned, none is missing. -/
theorem withFate_eq_map {f : Fate} {fates : List (UInt8 × Fate)} (h : ∀ x ∈ fates, x.2 = f) :
    withFate f fates = fates.map Prod.fst := by
  unfold withFate
  rw [List.filter_eq_self.mpr (by simpa using h)]

/-- The contract of keyboard, shell and screen: the screen shows the transcript of the keys, and
these are the characters decoded from the scancodes, in order, but for those that were flushed,
that found the buffer full or that still wait in it. -/
structure TypingSpec (k : Keyboard) (t : Terminal) (scancodes : List UInt8)
    (keys : List (UInt8 × List UInt8)) (h : History) : Prop where
  keyboard : KeyboardSpec k h
  arrived : h.scancodes = scancodes
  handled : keys.map Prod.fst = withFate .returned h.fates
  session : SessionSpec t (keys.foldl Transcript.key Transcript.start)
  complete : (∀ x ∈ h.fates, x.2 = .returned) → keys.map Prod.fst = (decodeAll scancodes).2

/-- Whenever the interrupts of the keyboard come, and however they interleave with the shell's own
accesses to the buffer. -/
theorem shell_shows_typed (hrun : ShellRun v position k r t scancodes keys)
    (hout : ∀ key ∈ keys, ∀ c ∈ key.2, c ≠ 8)
    (hfits : Always Transcript.key (fun p => p.editor.line.length ≤ 73) Transcript.start keys) :
    ∃ h, KeyboardRun k r h ∧ TypingSpec k t scancodes keys h := by
  obtain ⟨h, hkeyboard, hscancodes, hreturned, rfl⟩ := hrun.history
  have hspec := hkeyboard.invariant.spec
  refine ⟨h, hkeyboard, hspec, hscancodes, ?_, (session_follows v position hout hfits).spec, ?_⟩
  · rw [← hreturned, hspec.returned]
  · intro hall
    rw [← hreturned, hspec.returned, withFate_eq_map hall, hspec.decoded, hscancodes]

/-- `a` is read and shown while `s` arrives. -/
theorem shell_shows_typed_a :
    ∃ k t h, KeyboardRun k .idle h ∧ TypingSpec k t [0x1E, 0x1F] [(97, [])] h := by
  have hkey := (@ShellRun.start ⟨fun _ => 0, 0, 0⟩ 0).interrupt 0x1E
  have hload := (((((hkey.wait (.call _)).wait (.loadRead _)).wait
    (.nonempty _ _ (by decide))).wait (.loadIndex _)).wait (.loadCharacter _ _)).interrupt 0x1F
  have hrun := (hload.wait (.reload _ _)).handle [] (.storeIndex _ _ _)
  have hfits : Always Transcript.key (fun p => p.editor.line.length ≤ 73) Transcript.start
      [(97, [])] := by
    have hlast : (Transcript.start.key (97, [])).editor.line.length ≤ 73 := by decide +kernel
    exact ⟨Nat.zero_le _, hlast⟩
  obtain ⟨h, hkeyboard, hspec⟩ := shell_shows_typed hrun (by simp) hfits
  exact ⟨_, _, h, hkeyboard, hspec⟩

end MyOS
