import MyOS.Model.Keyboard

/-! The Shift keys: two keys of the keyboard share one flag of the driver. -/

namespace MyOS

/-! ## The keyboard -/

/-- A key by its scancode of 7 bits. The scancodes of the extended keys have a prefix. -/
structure Key where
  extended : Bool
  code : UInt8
  code_lt : code < 0x80
  deriving DecidableEq

inductive KeyEvent where
  | press (key : Key)
  | release (key : Key)

/-- The codes of the Shift keys. A keyboard sends them with the prefix as well, for keys other than
Shift. -/
def Key.ShiftCode (key : Key) : Prop := key.code = 0x2A ∨ key.code = 0x36

/-- The left or the right Shift key. -/
def Key.IsShift (key : Key) : Prop := key.extended = false ∧ key.ShiftCode

instance (key : Key) : Decidable key.ShiftCode := inferInstanceAs (Decidable (_ ∨ _))

instance (key : Key) : Decidable key.IsShift := inferInstanceAs (Decidable (_ ∧ _))

def prefixBytes (key : Key) : List UInt8 := if key.extended then [0xE0] else []

/-- What the keyboard sends: a make code, or a break code. A key that is held repeats its make
code. -/
def KeyEvent.scancodes : KeyEvent → List UInt8
  | .press key => prefixBytes key ++ [key.code]
  | .release key => prefixBytes key ++ [key.code ||| 0x80]

/-- The keys held behind one more event. -/
def hold (held : List Key) : KeyEvent → List Key
  | .press key => if key ∈ held then held else key :: held
  | .release key => held.filter (· ≠ key)

/-- The keys held after these events, the newest last. -/
def held (events : List KeyEvent) : List Key := events.foldl hold []

/-- At least one of the two Shift keys is held. -/
def shiftHeld (events : List KeyEvent) : Bool := (held events).any fun key => key.IsShift

/-- A key is released only while it is held. -/
def Possible (events : List KeyEvent) : KeyEvent → Prop
  | .press _ => True
  | .release key => key ∈ held events

/-! ## The driver -/

/-- A character in the buffer: the events up to its own, the scancode it stands for, and what the
buffer got. -/
structure Typed where
  events : List KeyEvent
  scancode : UInt8
  character : UInt8

/-- What a scancode puts into the buffer: the write index moves if it puts anything there. -/
def typed (events : List KeyEvent) (scancode : UInt8) (k : Keyboard) : List Typed :=
  let k' := keyboardHandler scancode k
  if k'.kbdBufferWriteIdx = k.kbdBufferWriteIdx then []
  else [⟨events, scancode, k'.kbdBuffer k.kbdBufferWriteIdx⟩]

/-- The interrupts of an event, with the characters they put into the buffer. -/
def deliver (events : List KeyEvent) (e : KeyEvent) (k : Keyboard) : Keyboard × List Typed :=
  e.scancodes.foldl (fun p scancode =>
    (keyboardHandler scancode p.1, p.2 ++ typed events scancode p.1)) (k, [])

/-- States reached by key presses and releases and steps of the reader in any order. -/
inductive TypingRun : Keyboard → Reader → List KeyEvent → List Typed → Prop where
  | start : TypingRun ⟨fun _ => 0, 0, 0, false⟩ .idle [] []
  | event {k : Keyboard} {r : Reader} {events : List KeyEvent} {log : List Typed} (e : KeyEvent) :
      TypingRun k r events log → Possible events e →
      TypingRun (deliver (events ++ [e]) e k).1 r (events ++ [e])
        (log ++ (deliver (events ++ [e]) e k).2)
  | read {k k' : Keyboard} {r r' : Reader} {events : List KeyEvent} {log : List Typed}
      {out : Option UInt8} :
      TypingRun k r events log → ReaderStep k r k' r' out → TypingRun k' r' events log

/-- The character comes from the shifted map exactly if a Shift key is held. -/
def Typed.FromHeld (t : Typed) : Prop :=
  t.character = keyCharacter (shiftHeld t.events) t.scancode

/-- The last event with a Shift code was a press. -/
def lastShift (events : List KeyEvent) : Bool :=
  events.foldl (fun flag e =>
    match e with
    | .press key => if key.ShiftCode then true else flag
    | .release key => if key.ShiftCode then false else flag) false

/-! ## One event -/

variable {k k' : Keyboard} {r : Reader} {events : List KeyEvent} {log : List Typed}

theorem decode_break {code : UInt8} (h : code < 0x80) (flag : Bool) :
    decode flag (code ||| 0x80) = (if code = 0x2A ∨ code = 0x36 then false else flag, 0) := by
  have hbits : ∀ c : UInt8, c < 0x80 → (c ||| 0x80) &&& 0x80 ≠ 0 ∧ (c ||| 0x80) &&& 0x7F = c := by
    rintro ⟨b⟩
    revert b
    decide +kernel
  obtain ⟨hbreak, hcode⟩ := hbits code h
  unfold decode
  rw [if_pos hbreak, hcode]
  split <;> rfl

theorem decode_make {code : UInt8} (h : code < 0x80) (flag : Bool) :
    decode flag code =
      if code = 0x2A ∨ code = 0x36 then (true, 0) else (flag, keyCharacter flag code) := by
  have hbits : ∀ c : UInt8, c < 0x80 → c &&& 0x80 = 0 := by
    rintro ⟨b⟩
    revert b
    decide +kernel
  unfold decode
  rw [if_neg (by rw [hbits code h]; simp)]

/-- Without a character only the flag may change. -/
theorem keyboardHandler_quiet (events : List KeyEvent) {scancode : UInt8} {flag : Bool}
    (h : decode k.shiftPressed scancode = (flag, 0)) :
    keyboardHandler scancode k = { k with shiftPressed := flag } ∧ typed events scancode k = [] := by
  have hrun : keyboardHandler scancode k = { k with shiftPressed := flag } := by
    unfold keyboardHandler
    rw [h]
    rfl
  refine ⟨hrun, ?_⟩
  unfold typed
  rw [hrun]
  exact if_pos rfl

/-- What gets into the buffer is what the flag says. -/
theorem typed_make (events : List KeyEvent) {code : UInt8} (hcode : code < 0x80)
    (hshift : ¬(code = 0x2A ∨ code = 0x36)) :
    (keyboardHandler code k).shiftPressed = k.shiftPressed ∧
      ∀ t ∈ typed events code k,
        t = ⟨events, code, keyCharacter k.shiftPressed code⟩ := by
  have hdecode := decode_make hcode k.shiftPressed
  rw [if_neg hshift] at hdecode
  have hrun : keyboardHandler code k =
      if keyCharacter k.shiftPressed code ≠ 0 then k.enqueue (keyCharacter k.shiftPressed code)
      else k := by
    unfold keyboardHandler
    rw [hdecode]
  have hkept : ∀ c, (k.enqueue c).shiftPressed = k.shiftPressed := by
    intro c
    unfold Keyboard.enqueue
    split <;> rfl
  refine ⟨?_, ?_⟩
  · rw [hrun]
    split
    · exact hkept _
    · rfl
  · intro t ht
    unfold typed at ht
    rw [hrun] at ht
    by_cases hchar : keyCharacter k.shiftPressed code ≠ 0
    · simp only [if_pos hchar] at ht
      unfold Keyboard.enqueue at ht
      split at ht
      · split at ht
        · cases ht
        · obtain rfl := List.mem_singleton.mp ht
          simp
      · rw [if_pos rfl] at ht
        cases ht
    · simp only [if_neg hchar, if_true] at ht
      cases ht

theorem keyboardHandler_prefix (key : Key) (k : Keyboard) :
    (prefixBytes key).foldl (fun p scancode =>
      (keyboardHandler scancode p.1, p.2 ++ typed events scancode p.1)) (k, []) = (k, []) := by
  unfold prefixBytes
  split
  · have hdecode : decode k.shiftPressed 0xE0 = (k.shiftPressed, 0) := by
      cases k.shiftPressed <;> rfl
    obtain ⟨hrun, htyped⟩ := keyboardHandler_quiet events hdecode
    rw [List.foldl_cons, List.foldl_nil, hrun, htyped]
    rfl
  · rfl

/-- An event brings the flag up to date with the last Shift code, and what it types comes from the
map that the flag selects. -/
theorem deliver_spec (e : KeyEvent) (h : k.shiftPressed = lastShift events) :
    (deliver (events ++ [e]) e k).1.shiftPressed = lastShift (events ++ [e]) ∧
      ∀ t ∈ (deliver (events ++ [e]) e k).2,
        t.character = keyCharacter (lastShift t.events) t.scancode := by
  have hlast : ∀ e, lastShift (events ++ [e]) =
      match e with
      | .press key => if key.ShiftCode then true else lastShift events
      | .release key => if key.ShiftCode then false else lastShift events := by
    intro e
    simp [lastShift]
  cases e with
  | press key =>
      have hrun : deliver (events ++ [.press key]) (.press key) k =
          (keyboardHandler key.code k, typed (events ++ [.press key]) key.code k) := by
        unfold deliver KeyEvent.scancodes
        rw [List.foldl_append, keyboardHandler_prefix]
        rfl
      rw [hrun]
      by_cases hshift : key.ShiftCode
      · have hdecode := decode_make key.code_lt k.shiftPressed
        rw [if_pos (show key.code = 0x2A ∨ key.code = 0x36 from hshift)] at hdecode
        obtain ⟨hflag, htyped⟩ := keyboardHandler_quiet (events ++ [.press key]) hdecode
        refine ⟨?_, ?_⟩
        · rw [hflag, hlast]
          exact (if_pos hshift).symm
        · rw [htyped]
          intro t ht
          cases ht
      · obtain ⟨hflag, htyped⟩ :=
          typed_make (k := k) (events ++ [.press key]) key.code_lt hshift
        have hsame : lastShift (events ++ [.press key]) = k.shiftPressed := by
          rw [hlast, h]
          exact if_neg hshift
        refine ⟨hflag.trans hsame.symm, ?_⟩
        intro t ht
        rw [htyped t ht, hsame]
  | release key =>
      have hdecode := decode_break key.code_lt k.shiftPressed
      obtain ⟨hflag, htyped⟩ := keyboardHandler_quiet (events ++ [.release key]) hdecode
      have hrun : deliver (events ++ [.release key]) (.release key) k =
          (keyboardHandler (key.code ||| 0x80) k, []) := by
        unfold deliver KeyEvent.scancodes
        rw [List.foldl_append, keyboardHandler_prefix, List.foldl_cons, List.foldl_nil, htyped]
        rfl
      rw [hrun, hflag, hlast]
      refine ⟨?_, ?_⟩
      · change (if key.ShiftCode then false else k.shiftPressed) = _
        rw [h]
      · intro t ht
        cases ht

/-! ## A whole run -/

theorem TypingRun.flag (h : TypingRun k r events log) :
    k.shiftPressed = lastShift events ∧
      ∀ t ∈ log, t.character = keyCharacter (lastShift t.events) t.scancode := by
  induction h with
  | start =>
      refine ⟨rfl, ?_⟩
      intro t ht
      cases ht
  | event e _ _ ih =>
      obtain ⟨hflag, hlog⟩ := ih
      obtain ⟨hflag', hnew⟩ := deliver_spec e hflag
      refine ⟨hflag', ?_⟩
      intro t ht
      rcases List.mem_append.mp ht with ht | ht
      · exact hlog t ht
      · exact hnew t ht
  | read _ hstep ih =>
      refine ⟨?_, ih.2⟩
      rw [← ih.1]
      cases hstep <;> rfl

/-- Every character in the buffer comes from the map of the Shift keys that are held exactly if,
whenever the two maps differ, the last Shift code was a press while a Shift key was held, and no
press otherwise. -/
theorem keyboard_shift_iff (h : TypingRun k r events log) :
    (∀ t ∈ log, t.FromHeld) ↔
      ∀ t ∈ log, lastShift t.events = shiftHeld t.events ∨
        keyCharacter true t.scancode = keyCharacter false t.scancode := by
  refine forall_congr' fun t => forall_congr' fun ht => ?_
  unfold Typed.FromHeld
  rw [h.flag.2 t ht]
  cases lastShift t.events <;> cases shiftHeld t.events <;> simp [eq_comm]

def leftShift : Key := ⟨false, 0x2A, by decide⟩
def rightShift : Key := ⟨false, 0x36, by decide⟩
def keyA : Key := ⟨false, 0x1E, by decide⟩

theorem keyboard_shift_iff_one_key :
    ∃ k, TypingRun k .idle [.press leftShift, .press keyA]
        [⟨[.press leftShift, .press keyA], 0x1E, 65⟩] ∧
      Typed.FromHeld ⟨[.press leftShift, .press keyA], 0x1E, 65⟩ := by
  have hrun : TypingRun _ .idle [.press leftShift, .press keyA]
      [⟨[.press leftShift, .press keyA], 0x1E, 65⟩] :=
    (TypingRun.start.event (.press leftShift) trivial).event (.press keyA) trivial
  refine ⟨_, hrun, (keyboard_shift_iff hrun).mpr ?_ _ (List.mem_singleton_self _)⟩
  intro t ht
  obtain rfl := List.mem_singleton.mp ht
  exact .inl (by decide)

/-- The left Shift key is released while the right one stays held: an `a` in lower case. -/
theorem keyboard_shift_both_keys :
    ∃ k, TypingRun k .idle
        [.press leftShift, .press rightShift, .release leftShift, .press keyA]
        [⟨[.press leftShift, .press rightShift, .release leftShift, .press keyA], 0x1E, 97⟩] ∧
      shiftHeld [.press leftShift, .press rightShift, .release leftShift, .press keyA] = true ∧
      ¬Typed.FromHeld
        ⟨[.press leftShift, .press rightShift, .release leftShift, .press keyA], 0x1E, 97⟩ := by
  have hboth := (TypingRun.start.event (.press leftShift) trivial).event (.press rightShift) trivial
  have hrun : TypingRun _ .idle
      [.press leftShift, .press rightShift, .release leftShift, .press keyA]
      [⟨[.press leftShift, .press rightShift, .release leftShift, .press keyA], 0x1E, 97⟩] :=
    (hboth.event (.release leftShift) (by decide : leftShift ∈ held _)).event (.press keyA) trivial
  refine ⟨_, hrun, by decide, ?_⟩
  unfold Typed.FromHeld
  decide

end MyOS
