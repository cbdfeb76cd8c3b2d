import MyOS.Lib.RingBuffer
import MyOS.Model.Keyboard

/-! The keyboard buffer as a queue: what becomes of every character the handler decodes, for
any interleaving of interrupts with the single steps of the reader. -/

namespace MyOS

open RingBuffer

/-! ## The history of a run -/

inductive Fate where
  | pending
  | returned
  | flushed
  | dropped
  deriving DecidableEq

/-- The scancodes delivered, the characters decoded with what became of each, the characters
returned, and how many were pending when `keyboard_flush` last looked. -/
structure History where
  scancodes : List UInt8
  fates : List (UInt8 × Fate)
  returned : List UInt8
  mark : ℕ

/-- The characters with one fate, in the order in which they were decoded. -/
def withFate (f : Fate) (fates : List (UInt8 × Fate)) : List UInt8 :=
  (fates.filter fun x => x.2 = f).map Prod.fst

/-- The first `n` pending characters meet their fate. -/
def settle (f : Fate) : ℕ → List (UInt8 × Fate) → List (UInt8 × Fate)
  | 0, fates => fates
  | _ + 1, [] => []
  | n + 1, (c, .pending) :: fates => (c, f) :: settle f n fates
  | n + 1, x :: fates => x :: settle f (n + 1) fates

/-- A scancode arrives. Its character is dropped if the handler does not move the write
index. -/
def History.key (h : History) (k : Keyboard) (scancode : UInt8) : History :=
  let c := (decode k.shiftPressed scancode).2
  let kept := (keyboardHandler scancode k).kbdBufferWriteIdx ≠ k.kbdBufferWriteIdx
  { h with
    scancodes := h.scancodes ++ [scancode]
    fates := if c ≠ 0 then h.fates ++ [(c, if kept then .pending else .dropped)] else h.fates }

/-- The reader makes a step. A return takes the oldest pending character, a flush takes those
that were pending when it looked. -/
def History.step (h : History) : Reader → Reader → Option UInt8 → History
  | _, _, some c =>
      { h with returned := h.returned ++ [c], fates := settle .returned 1 h.fates }
  | .idle, .flush _, none => { h with mark := (withFate .pending h.fates).length }
  | .flush _, _, none => { h with fates := settle .flushed h.mark h.fates }
  | _, _, none => h

/-- States reached by interrupts and steps of the reader in any order. -/
inductive KeyboardRun : Keyboard → Reader → History → Prop where
  | start : KeyboardRun ⟨fun _ => 0, 0, 0, false⟩ .idle ⟨[], [], [], 0⟩
  | key {k : Keyboard} {r : Reader} {h : History} (scancode : UInt8) :
      KeyboardRun k r h → KeyboardRun (keyboardHandler scancode k) r (h.key k scancode)
  | read {k k' : Keyboard} {r r' : Reader} {h : History} {out : Option UInt8} :
      KeyboardRun k r h → ReaderStep k r k' r' out → KeyboardRun k' r' (h.step r r' out)

/-- Shift state and characters after a sequence of scancodes. -/
def decodeAll (scancodes : List UInt8) : Bool × List UInt8 :=
  scancodes.foldl (fun p scancode =>
    let (shiftPressed, c) := decode p.1 scancode
    (shiftPressed, if c ≠ 0 then p.2 ++ [c] else p.2)) (false, [])

/-- No character behind a pending one has met a fate of its own. -/
def InOrder (fates : List (UInt8 × Fate)) : Prop :=
  fates.Pairwise fun x y => x.2 = .pending → y.2 = .pending ∨ y.2 = .dropped

/-- The contract of the buffer: every character decoded is returned, flushed, dropped or still
pending, in this order of arrival, and one more character is dropped exactly when 255 are
pending. -/
structure KeyboardSpec (k : Keyboard) (h : History) : Prop where
  decoded : h.fates.map Prod.fst = (decodeAll h.scancodes).2
  returned : h.returned = withFate .returned h.fates
  order : InOrder h.fates
  read_lt : k.kbdBufferReadIdx < 256
  write_lt : k.kbdBufferWriteIdx < 256
  pending_le : (withFate .pending h.fates).length ≤ 255
  drops : ∀ scancode, (decode k.shiftPressed scancode).2 ≠ 0 →
    ((keyboardHandler scancode k).kbdBufferWriteIdx = k.kbdBufferWriteIdx ↔
      (withFate .pending h.fates).length = 255)

/-! ## Fates -/

@[simp] theorem withFate_nil (f : Fate) : withFate f [] = [] := rfl

@[simp] theorem withFate_cons (f : Fate) (x : UInt8 × Fate) (fates : List (UInt8 × Fate)) :
    withFate f (x :: fates) = if x.2 = f then x.1 :: withFate f fates else withFate f fates := by
  by_cases h : x.2 = f <;> simp [withFate, h]

@[simp] theorem withFate_append (f : Fate) (xs ys : List (UInt8 × Fate)) :
    withFate f (xs ++ ys) = withFate f xs ++ withFate f ys := by
  simp [withFate]

@[simp] theorem settle_map_fst (f : Fate) (n : ℕ) (fates : List (UInt8 × Fate)) :
    (settle f n fates).map Prod.fst = fates.map Prod.fst := by
  fun_induction settle with
  | case1 fates => rfl
  | case2 n => rfl
  | case3 n c fates ih => simp [ih]
  | case4 n x fates hx ih => simp [ih]

private theorem ne_pending {x : UInt8 × Fate} (hx : ∀ c, x = (c, .pending) → False) :
    x.2 ≠ .pending := fun h => hx x.1 (by rw [← h])

theorem settle_pending {f : Fate} (hf : f ≠ .pending) (n : ℕ) (fates : List (UInt8 × Fate)) :
    withFate .pending (settle f n fates) = (withFate .pending fates).drop n := by
  fun_induction settle with
  | case1 fates => simp
  | case2 n => simp
  | case3 n c fates ih => simp [hf, ih]
  | case4 n x fates hx ih => simp [ne_pending hx, ih]

/-- Other fates than the new one stay. -/
theorem settle_other {f f' : Fate} (hf : f' ≠ f) (hf' : f' ≠ .pending) (n : ℕ)
    (fates : List (UInt8 × Fate)) : withFate f' (settle f n fates) = withFate f' fates := by
  fun_induction settle with
  | case1 fates => rfl
  | case2 n => rfl
  | case3 n c fates ih => simp [Ne.symm hf, Ne.symm hf', ih]
  | case4 n x fates hx ih => simp [ih]

/-- The characters that pass on to a fate come behind those that have it. -/
theorem settle_same {f : Fate} (hf : f ≠ .pending) (hf' : f ≠ .dropped) (n : ℕ)
    {fates : List (UInt8 × Fate)} (horder : InOrder fates) :
    withFate f (settle f n fates) = withFate f fates ++ (withFate .pending fates).take n := by
  fun_induction settle with
  | case1 fates => simp
  | case2 n => simp
  | case3 n c fates ih =>
      obtain ⟨hlater, horder⟩ := List.pairwise_cons.mp horder
      have hnone : withFate f fates = [] := by
        have hall : ∀ x ∈ fates, ¬x.2 = f := by
          intro x hx hxf
          rcases hlater x hx rfl with h | h
          · exact hf (hxf.symm.trans h)
          · exact hf' (hxf.symm.trans h)
        simpa [withFate] using hall
      simp [Ne.symm hf, ih horder, hnone]
  | case4 n x fates hx ih =>
      obtain ⟨-, horder⟩ := List.pairwise_cons.mp horder
      by_cases hxf : x.2 = f
      · simp [hxf, hf, ih horder]
      · simp [hxf, ne_pending hx, ih horder]

theorem settle_order {f : Fate} (hf : f ≠ .pending) (n : ℕ) {fates : List (UInt8 × Fate)}
    (horder : InOrder fates) : InOrder (settle f n fates) := by
  fun_induction settle with
  | case1 fates => exact horder
  | case2 n => exact horder
  | case3 n c fates ih =>
      obtain ⟨-, horder⟩ := List.pairwise_cons.mp horder
      exact List.pairwise_cons.mpr ⟨fun _ _ h => absurd h hf, ih horder⟩
  | case4 n x fates hx ih =>
      obtain ⟨-, horder⟩ := List.pairwise_cons.mp horder
      exact List.pairwise_cons.mpr ⟨fun _ _ h => absurd h (ne_pending hx), ih horder⟩

/-! ## The invariant -/

/-- What the values loaded so far mean. The reader alone moves the read index. -/
def ReaderHolds (k : Keyboard) (h : History) : Reader → Prop
  | .idle => True
  | .waiting => True
  | .compare r => r = k.kbdBufferReadIdx
  | .ready => withFate .pending h.fates ≠ []
  | .fetch r => r = k.kbdBufferReadIdx ∧ withFate .pending h.fates ≠ []
  | .advance c => (withFate .pending h.fates).head? = some c
  | .store c r => r = k.kbdBufferReadIdx ∧ (withFate .pending h.fates).head? = some c
  | .flush w => h.mark ≤ (withFate .pending h.fates).length ∧
      w = (k.kbdBufferReadIdx + h.mark) % 256

structure KeyboardInvariant (k : Keyboard) (r : Reader) (h : History) : Prop where
  shift : k.shiftPressed = (decodeAll h.scancodes).1
  decoded : h.fates.map Prod.fst = (decodeAll h.scancodes).2
  returned : h.returned = withFate .returned h.fates
  order : InOrder h.fates
  ring : Ring 256 k.kbdBuffer k.kbdBufferReadIdx k.kbdBufferWriteIdx (withFate .pending h.fates)
  reader : ReaderHolds k h r

variable {k k' : Keyboard} {r r' : Reader} {h : History}

theorem decodeAll_append (scancodes : List UInt8) (scancode : UInt8) :
    decodeAll (scancodes ++ [scancode]) =
      ((decode (decodeAll scancodes).1 scancode).1,
        if (decode (decodeAll scancodes).1 scancode).2 ≠ 0 then
          (decodeAll scancodes).2 ++ [(decode (decodeAll scancodes).1 scancode).2]
        else (decodeAll scancodes).2) := by
  simp [decodeAll]

/-- Characters that arrive behind the pending ones leave the reader's view as it is. -/
theorem ReaderHolds.arrive (hr : ReaderHolds k h r) {h' : History} (hmark : h'.mark = h.mark)
    (hread : k'.kbdBufferReadIdx = k.kbdBufferReadIdx) {new : List UInt8}
    (hpending : withFate .pending h'.fates = withFate .pending h.fates ++ new) :
    ReaderHolds k' h' r := by
  cases r with
  | idle => trivial
  | waiting => trivial
  | compare i => exact hr.trans hread.symm
  | ready =>
      intro hnil
      rw [hpending] at hnil
      exact hr (List.append_eq_nil_iff.mp hnil).1
  | fetch i =>
      refine ⟨hr.1.trans hread.symm, ?_⟩
      intro hnil
      rw [hpending] at hnil
      exact hr.2 (List.append_eq_nil_iff.mp hnil).1
  | advance c =>
      have hhead : (withFate .pending h.fates).head? = some c := hr
      change (withFate .pending h'.fates).head? = some c
      rw [hpending, List.head?_append, hhead]
      rfl
  | store c i =>
      refine ⟨hr.1.trans hread.symm, ?_⟩
      rw [hpending, List.head?_append, hr.2]
      rfl
  | flush w =>
      refine ⟨?_, ?_⟩
      · rw [hmark, hpending, List.length_append]
        exact Nat.le_trans hr.1 (Nat.le_add_right _ _)
      · rw [hread, hmark]
        exact hr.2

/-- What arrives comes behind everything else, and has no fate of its own yet. -/
theorem KeyboardInvariant.arrive (hk : KeyboardInvariant k r h) {h' : History}
    (new : List (UInt8 × Fate)) (hfates : h'.fates = h.fates ++ new)
    (hnew : ∀ x ∈ new, x.2 = .pending ∨ x.2 = .dropped) (hreturned : h'.returned = h.returned)
    (hmark : h'.mark = h.mark) (hread : k'.kbdBufferReadIdx = k.kbdBufferReadIdx)
    (hshift : k'.shiftPressed = (decodeAll h'.scancodes).1)
    (hdecoded : h.fates.map Prod.fst ++ new.map Prod.fst = (decodeAll h'.scancodes).2)
    (hring : Ring 256 k'.kbdBuffer k'.kbdBufferReadIdx k'.kbdBufferWriteIdx
      (withFate .pending h.fates ++ withFate .pending new)) : KeyboardInvariant k' r h' where
  shift := hshift
  decoded := by simpa [hfates] using hdecoded
  returned := by
    have hnone : withFate .returned new = [] := by
      have hall : ∀ x ∈ new, ¬x.2 = .returned := by
        intro x hx hxr
        rcases hnew x hx with h | h <;> simp [h] at hxr
      simpa [withFate] using hall
    simpa [hfates, hnone, hreturned] using hk.returned
  order := by
    rw [hfates]
    refine List.pairwise_append.mpr ⟨hk.order, ?_, fun x _ y hy _ => hnew y hy⟩
    exact List.pairwise_of_forall_mem_list fun x _ y hy _ => hnew y hy
  ring := by simpa [hfates] using hring
  reader := hk.reader.arrive hmark hread (by rw [hfates, withFate_append])

theorem keyboardHandler_eq (scancode : UInt8) (k : Keyboard) :
    keyboardHandler scancode k =
      if (decode k.shiftPressed scancode).2 ≠ 0 then
        Keyboard.enqueue { k with shiftPressed := (decode k.shiftPressed scancode).1 }
          (decode k.shiftPressed scancode).2
      else { k with shiftPressed := (decode k.shiftPressed scancode).1 } := rfl

/-- The write index stays where it is only when the buffer is full. -/
theorem KeyboardInvariant.drops (hk : KeyboardInvariant k r h) {scancode : UInt8}
    (hc : (decode k.shiftPressed scancode).2 ≠ 0) :
    (keyboardHandler scancode k).kbdBufferWriteIdx = k.kbdBufferWriteIdx ↔
      (withFate .pending h.fates).length = 255 := by
  have hw := hk.ring.write_lt
  have hfull := hk.ring.full_iff
  rw [keyboardHandler_eq, if_pos hc]
  by_cases htest : (k.kbdBufferWriteIdx + 1) % 256 = k.kbdBufferReadIdx
  · simp only [Keyboard.enqueue, kbdBufferSize, htest, ne_eq, not_true_eq_false, if_false, true_iff]
    have := hfull.mp htest
    omega
  · simp only [Keyboard.enqueue, kbdBufferSize, htest, ne_eq, not_false_eq_true, if_true]
    have := mt hfull.mpr htest
    omega

theorem KeyboardInvariant.key (hk : KeyboardInvariant k r h) (scancode : UInt8) :
    KeyboardInvariant (keyboardHandler scancode k) r (h.key k scancode) := by
  have hdecoded := decodeAll_append h.scancodes scancode
  rw [← hk.shift, ← hk.decoded] at hdecoded
  have hshift : (decode k.shiftPressed scancode).1 =
      (decodeAll (h.key k scancode).scancodes).1 := (congrArg Prod.fst hdecoded).symm
  have hchars := congrArg Prod.snd hdecoded
  by_cases hc : (decode k.shiftPressed scancode).2 = 0
  · -- no character: only the shift key can have changed
    have hhandler : keyboardHandler scancode k =
        { k with shiftPressed := (decode k.shiftPressed scancode).1 } := by
      simp [keyboardHandler_eq, hc]
    rw [hhandler]
    refine hk.arrive [] (by simp [History.key, hc]) (by simp) rfl rfl rfl hshift ?_ ?_
    · simpa [hc, History.key] using hchars.symm
    · simpa using hk.ring
  · by_cases hfull : (withFate .pending h.fates).length = 255
    · have htest := hk.ring.full_iff.mpr (by omega)
      have hhandler : keyboardHandler scancode k =
          { k with shiftPressed := (decode k.shiftPressed scancode).1 } := by
        simp [keyboardHandler_eq, hc, Keyboard.enqueue, kbdBufferSize, htest]
      have hdropped := (hk.drops hc).mpr hfull
      rw [hhandler]
      refine hk.arrive [((decode k.shiftPressed scancode).2, .dropped)] ?_ (by simp) rfl
        rfl rfl hshift ?_ ?_
      · simp [History.key, hc, hdropped]
      · simpa [hc, History.key] using hchars.symm
      · simpa using hk.ring
    · have hroom : (withFate .pending h.fates).length + 1 ≠ 256 := by omega
      have htest := mt hk.ring.full_iff.mp hroom
      have hhandler : keyboardHandler scancode k =
          { k with
            shiftPressed := (decode k.shiftPressed scancode).1
            kbdBuffer := Function.update k.kbdBuffer k.kbdBufferWriteIdx
              (decode k.shiftPressed scancode).2
            kbdBufferWriteIdx := (k.kbdBufferWriteIdx + 1) % 256 } := by
        simp [keyboardHandler_eq, hc, Keyboard.enqueue, kbdBufferSize, htest]
      have hkept := mt (hk.drops hc).mp hfull
      rw [hhandler]
      refine hk.arrive [((decode k.shiftPressed scancode).2, .pending)] ?_ (by simp) rfl
        rfl rfl hshift ?_ ?_
      · simp [History.key, hc, hkept]
      · simpa [hc, History.key] using hchars.symm
      · simpa using hk.ring.push hroom (decode k.shiftPressed scancode).2

/-- A step of the reader that moves no index. -/
theorem KeyboardInvariant.same (hk : KeyboardInvariant k r h) (hr : ReaderHolds k h r') :
    KeyboardInvariant k r' h :=
  { hk with reader := hr }

/-- Pending characters leave at the front. -/
theorem KeyboardInvariant.leave (hk : KeyboardInvariant k r h) {f : Fate} (hf : f ≠ .pending)
    {n : ℕ} (hn : n ≤ (withFate .pending h.fates).length) {returned : List UInt8}
    (hreturned : returned = withFate .returned (settle f n h.fates)) :
    KeyboardInvariant { k with kbdBufferReadIdx := (k.kbdBufferReadIdx + n) % 256 } .idle
      { h with fates := settle f n h.fates, returned := returned } where
  shift := hk.shift
  decoded := (settle_map_fst f n h.fates).trans hk.decoded
  returned := hreturned
  order := settle_order hf n hk.order
  ring := by
    rw [settle_pending hf]
    exact hk.ring.drop hn
  reader := trivial

theorem KeyboardInvariant.step (hk : KeyboardInvariant k r h) {out : Option UInt8}
    (hstep : ReaderStep k r k' r' out) : KeyboardInvariant k' r' (h.step r r' out) := by
  cases hstep with
  | call => exact hk.same trivial
  | loadRead => exact hk.same rfl
  | empty i hi => exact hk.same trivial
  | nonempty i hi =>
      refine hk.same ?_
      have hread : i = k.kbdBufferReadIdx := hk.reader
      rw [hread] at hi
      exact mt hk.ring.empty_iff.mpr hi
  | loadIndex => exact hk.same ⟨rfl, hk.reader⟩
  | loadCharacter i =>
      obtain ⟨hi, hne⟩ := hk.reader
      refine hk.same ?_
      cases hpending : withFate .pending h.fates with
      | nil => exact absurd hpending hne
      | cons c rest =>
          change (withFate .pending h.fates).head? = some _
          rw [hi, hk.ring.head (by rw [hpending]; rfl), hpending]
          rfl
  | reload c => exact hk.same ⟨rfl, hk.reader⟩
  | storeIndex c i =>
      obtain ⟨hi, hhead⟩ := hk.reader
      have htake : (withFate .pending h.fates).take 1 = [c] := by
        rw [List.take_one, hhead]
        rfl
      have hlength : 1 ≤ (withFate .pending h.fates).length := by
        have hlen := congrArg List.length htake
        simp only [List.length_take, List.length_singleton] at hlen
        omega
      rw [hi]
      refine hk.leave (by decide) hlength ?_
      rw [settle_same (by decide) (by decide) 1 hk.order, htake, hk.returned]
  | flushLoad =>
      exact ⟨hk.shift, hk.decoded, hk.returned, hk.order, hk.ring, Nat.le_refl _, hk.ring.write_eq⟩
  | flushStore w =>
      obtain ⟨hmark, hw⟩ := hk.reader
      rw [hw]
      refine hk.leave (by decide) hmark ?_
      rw [settle_other (by decide) (by decide)]
      exact hk.returned

theorem KeyboardRun.invariant (hrun : KeyboardRun k r h) : KeyboardInvariant k r h := by
  induction hrun with
  | start => exact ⟨rfl, rfl, rfl, List.Pairwise.nil, ring_empty _ (by decide), trivial⟩
  | key scancode _ ih => exact ih.key scancode
  | read _ hstep ih => exact ih.step hstep

theorem KeyboardInvariant.spec (hk : KeyboardInvariant k r h) : KeyboardSpec k h := by
  refine ⟨hk.decoded, hk.returned, hk.order, hk.ring.read_lt, hk.ring.write_lt, ?_, ?_⟩
  · have hlt := hk.ring.length_lt
    omega
  · intro scancode hc
    exact hk.drops hc

/-- The keyboard buffer is a lossless queue of up to 255 characters in every run. -/
theorem keyboard_buffer_fifo (hrun : KeyboardRun k r h) : KeyboardSpec k h :=
  hrun.invariant.spec

/-- The key `a` is read while the key `s` arrives between the load of the character and the
update of the read index. -/
theorem keyboard_buffer_fifo_two_keys :
    ∃ k, KeyboardRun k .idle ⟨[0x1E, 0x1F], [(97, .returned), (115, .pending)], [97], 0⟩ ∧
      KeyboardSpec k ⟨[0x1E, 0x1F], [(97, .returned), (115, .pending)], [97], 0⟩ := by
  have hkey := KeyboardRun.start.key 0x1E
  have hload := (((((hkey.read (.call _)).read (.loadRead _)).read (.nonempty _ _ (by decide))).read
    (.loadIndex _)).read (.loadCharacter _ _)).key 0x1F
  have hrun := (hload.read (.reload _ _)).read (.storeIndex _ _ _)
  exact ⟨_, hrun, keyboard_buffer_fifo hrun⟩

end MyOS
