import MyOS.Lib.Effect

/-! The keyboard driver of `kernel/drivers/keyboard.c`: the interrupt handler that decodes
scancodes into a ring of 256 characters, and the steps of the one task that reads from it. -/

namespace MyOS

def kbdBufferSize : ℕ := 256

/-- The codes of the arrow keys are `char`s: -1 to -4. -/
def arrowUp : UInt8 := 255
def arrowDown : UInt8 := 254
def arrowLeft : UInt8 := 253
def arrowRight : UInt8 := 252

/-- `kbd_us`, by scancode. -/
def kbdUs : List UInt8 :=
  [0, 27, 49, 50, 51, 52, 53, 54, 55, 56,
   57, 48, 45, 61, 8, 9, 113, 119, 101, 114,
   116, 121, 117, 105, 111, 112, 91, 93, 10, 0,
   97, 115, 100, 102, 103, 104, 106, 107, 108, 59,
   39, 96, 0, 92, 122, 120, 99, 118, 98, 110,
   109, 44, 46, 47, 0, 42, 0, 32, 0, 0,
   0, 0, 0, 0, 0, 0, 0, 0, 0, 0,
   0, 0, 0, 0, 0, 0, 0, 0, 0, 0,
   0, 0, 0, 0, 0, 0, 0, 0, 0, 0,
   0, 0, 0, 0, 0, 0, 0, 0, 0, 0,
   0, 0, 0, 0, 0, 0, 0, 0, 0, 0,
   0, 0, 0, 0, 0, 0, 0, 0, 0, 0,
   0, 0, 0, 0, 0, 0, 0, 0]

/-- `kbd_us_shift`, by scancode. -/
def kbdUsShift : List UInt8 :=
  [0, 27, 33, 64, 35, 36, 37, 94, 38, 42,
   40, 41, 95, 43, 8, 9, 81, 87, 69, 82,
   84, 89, 85, 73, 79, 80, 123, 125, 10, 0,
   65, 83, 68, 70, 71, 72, 74, 75, 76, 58,
   34, 126, 0, 124, 90, 88, 67, 86, 66, 78,
   77, 60, 62, 63, 0, 42, 0, 32, 0, 0,
   0, 0, 0, 0, 0, 0, 0, 0, 0, 0,
   0, 0, 0, 0, 0, 0, 0, 0, 0, 0,
   0, 0, 0, 0, 0, 0, 0, 0, 0, 0,
   0, 0, 0, 0, 0, 0, 0, 0, 0, 0,
   0, 0, 0, 0, 0, 0, 0, 0, 0, 0,
   0, 0, 0, 0, 0, 0, 0, 0, 0, 0,
   0, 0, 0, 0, 0, 0, 0, 0]

structure Keyboard where
  kbdBuffer : ℕ → UInt8
  kbdBufferReadIdx : ℕ
  kbdBufferWriteIdx : ℕ
  shiftPressed : Bool

/-- The character of a key press, `0` for none. -/
def keyCharacter (shiftPressed : Bool) (scancode : UInt8) : UInt8 :=
  if scancode = 0x4B then arrowLeft
  else if scancode = 0x4D then arrowRight
  else if scancode = 0x48 then arrowUp
  else if scancode = 0x50 then arrowDown
  else if shiftPressed then kbdUsShift.getD scancode.toNat 0
  else kbdUs.getD scancode.toNat 0

/-- What a scancode means: the new state of the shift key and the character, `0` for none. -/
def decode (shiftPressed : Bool) (scancode : UInt8) : Bool × UInt8 :=
  if scancode &&& 0x80 ≠ 0 then
    -- a key release
    if scancode &&& 0x7F = 0x2A ∨ scancode &&& 0x7F = 0x36 then (false, 0) else (shiftPressed, 0)
  else if scancode = 0x2A ∨ scancode = 0x36 then
    (true, 0)
  else
    (shiftPressed, keyCharacter shiftPressed scancode)

/-- A character goes into the buffer unless the buffer is full. -/
def Keyboard.enqueue (k : Keyboard) (character : UInt8) : Keyboard :=
  if (k.kbdBufferWriteIdx + 1) % kbdBufferSize ≠ k.kbdBufferReadIdx then
    { k with
      kbdBuffer := Function.update k.kbdBuffer k.kbdBufferWriteIdx character
      kbdBufferWriteIdx := (k.kbdBufferWriteIdx + 1) % kbdBufferSize }
  else
    k

/-- `keyboard_handler`, for the scancode it reads from the port. -/
def keyboardHandler (scancode : UInt8) (k : Keyboard) : Keyboard :=
  let (shiftPressed, character) := decode k.shiftPressed scancode
  let k := { k with shiftPressed }
  if character ≠ 0 then k.enqueue character else k

/-! ## The reader -/

/-- Where the reader stands and what it has loaded: between calls, in the loop of
`keyboard_read_char` or behind it, or in `keyboard_flush`. The indices are `volatile`, so each
use of one is a load of its own. -/
inductive Reader where
  | idle
  | waiting
  | compare (readIdx : ℕ)
  | ready
  | fetch (readIdx : ℕ)
  | advance (character : UInt8)
  | store (character : UInt8) (readIdx : ℕ)
  | flush (writeIdx : ℕ)
  deriving DecidableEq, Repr

/-- One step of the reader, with the character it returns if the step ends a call. -/
inductive ReaderStep : Keyboard → Reader → Keyboard → Reader → Option UInt8 → Prop where
  | call (k : Keyboard) : ReaderStep k .idle k .waiting none
  | loadRead (k : Keyboard) : ReaderStep k .waiting k (.compare k.kbdBufferReadIdx) none
  | empty (k : Keyboard) (r : ℕ) : r = k.kbdBufferWriteIdx →
      ReaderStep k (.compare r) k .waiting none
  | nonempty (k : Keyboard) (r : ℕ) : r ≠ k.kbdBufferWriteIdx →
      ReaderStep k (.compare r) k .ready none
  | loadIndex (k : Keyboard) : ReaderStep k .ready k (.fetch k.kbdBufferReadIdx) none
  | loadCharacter (k : Keyboard) (r : ℕ) :
      ReaderStep k (.fetch r) k (.advance (k.kbdBuffer r)) none
  | reload (k : Keyboard) (c : UInt8) :
      ReaderStep k (.advance c) k (.store c k.kbdBufferReadIdx) none
  | storeIndex (k : Keyboard) (c : UInt8) (r : ℕ) :
      ReaderStep k (.store c r) { k with kbdBufferReadIdx := (r + 1) % kbdBufferSize } .idle
        (some c)
  | flushLoad (k : Keyboard) : ReaderStep k .idle k (.flush k.kbdBufferWriteIdx) none
  | flushStore (k : Keyboard) (w : ℕ) :
      ReaderStep k (.flush w) { k with kbdBufferReadIdx := w } .idle none

end MyOS
