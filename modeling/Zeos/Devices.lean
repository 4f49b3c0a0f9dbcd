import Zeos.Types

/-!
# The keyboard buffer

The circular buffer of `devices.c` and the functions that only touch it:
`charsInCirc`, `cbfull`, `putC`, and the inner loop of `sys_read_keyboard`.

`nextToWrite` and `lastRead` stay below `N` between two operations, which the
structure carries.  `accepted` and `consumed` are history variables: they count
the characters that `putC` stored and that the reading loop took out.
-/

namespace Zeos

/-- The globals of `devices.c`. -/
structure Keyboard where
  circBuffer : Nat → UInt8
  nextToWrite : Nat
  lastRead : Nat
  leftToRead : Int
  cbIsEmpty : Bool
  accepted : Nat
  consumed : Nat
  nextToWrite_lt : nextToWrite < bufferSize
  lastRead_lt : lastRead < bufferSize

namespace Keyboard

/-- The initial values of the globals. -/
def initial : Keyboard where
  circBuffer _ := 0
  nextToWrite := 0
  lastRead := 0
  leftToRead := 0
  cbIsEmpty := true
  accepted := 0
  consumed := 0
  nextToWrite_lt := by decide
  lastRead_lt := by decide

/-- `if (index == N) index = 0`. -/
def wrap (index : Nat) : Nat :=
  if index = bufferSize then 0 else index

theorem wrap_lt {index : Nat} (bound : index ≤ bufferSize) :
    wrap index < bufferSize := by
  unfold wrap
  split
  · decide
  · omega

theorem wrap_cases (index : Nat) :
    (index = bufferSize ∧ wrap index = 0) ∨
      (index ≠ bufferSize ∧ wrap index = index) := by
  unfold wrap
  by_cases atEnd : index = bufferSize
  · exact Or.inl ⟨atEnd, if_pos atEnd⟩
  · exact Or.inr ⟨atEnd, if_neg atEnd⟩

/-- `charsInCirc`. -/
def charsInCirc (kb : Keyboard) : Nat :=
  if kb.nextToWrite ≥ kb.lastRead then
    kb.nextToWrite - kb.lastRead
  else
    bufferSize - (kb.lastRead - kb.nextToWrite)

/-- `cbfull`. -/
def cbfull (kb : Keyboard) : Bool :=
  !kb.cbIsEmpty

/-- `putC`; `waiting` is `!list_empty(&keyboardqueue)`. -/
def putC (c : UInt8) (waiting : Bool) (kb : Keyboard) : Int × Keyboard :=
  if kb.cbfull && !waiting then
    (-enomem, kb)
  else if !kb.cbfull then
    let position := wrap kb.nextToWrite
    (0, { kb with
      circBuffer := Function.update kb.circBuffer position c
      cbIsEmpty := kb.cbIsEmpty || decide (kb.lastRead = position + 1)
      accepted := kb.accepted + 1
      nextToWrite := wrap (position + 1)
      nextToWrite_lt := wrap_lt (wrap_lt (Nat.le_of_lt kb.nextToWrite_lt)) })
  else
    (0, { kb with
      nextToWrite := wrap kb.nextToWrite
      nextToWrite_lt := wrap_lt (Nat.le_of_lt kb.nextToWrite_lt) })

/-- The guard of the inner loop of `sys_read_keyboard`. -/
def hasUnread (kb : Keyboard) : Bool :=
  kb.lastRead != kb.nextToWrite

/-- The body of the inner loop of `sys_read_keyboard`: one character. -/
def takeC (kb : Keyboard) : UInt8 × Keyboard :=
  let lastRead := wrap (kb.lastRead + 1)
  (kb.circBuffer kb.lastRead,
    { kb with
      leftToRead := kb.leftToRead - 1
      consumed := kb.consumed + 1
      cbIsEmpty := kb.cbIsEmpty || decide (lastRead = kb.nextToWrite)
      lastRead := lastRead
      lastRead_lt := wrap_lt kb.lastRead_lt })

/-- The inner loop of `sys_read_keyboard`, for at most `fuel` rounds.  It ends
by its own guard after `charsInCirc` rounds, see `drain_hasUnread`. -/
def drain : Nat → Keyboard → List UInt8 × Keyboard
  | 0, kb => ([], kb)
  | fuel + 1, kb =>
      if kb.hasUnread then
        let (c, kb) := kb.takeC
        let (cs, kb) := drain fuel kb
        (c :: cs, kb)
      else
        ([], kb)

/-! ## The number of unread characters -/

theorem charsInCirc_cases (kb : Keyboard) :
    (kb.lastRead ≤ kb.nextToWrite ∧
        kb.charsInCirc + kb.lastRead = kb.nextToWrite) ∨
      (kb.nextToWrite < kb.lastRead ∧
        kb.charsInCirc + kb.lastRead = kb.nextToWrite + bufferSize) := by
  have read := kb.lastRead_lt
  unfold charsInCirc
  by_cases order : kb.nextToWrite ≥ kb.lastRead
  · exact Or.inl ⟨order, by rw [if_pos order]; omega⟩
  · exact Or.inr ⟨by omega, by rw [if_neg order]; omega⟩

theorem charsInCirc_lt (kb : Keyboard) : kb.charsInCirc < bufferSize := by
  have write := kb.nextToWrite_lt
  have read := kb.lastRead_lt
  rcases kb.charsInCirc_cases with count | count <;> omega

theorem hasUnread_iff (kb : Keyboard) :
    kb.hasUnread = true ↔ 0 < kb.charsInCirc := by
  have write := kb.nextToWrite_lt
  have read := kb.lastRead_lt
  simp only [hasUnread, bne_iff_ne]
  rcases kb.charsInCirc_cases with count | count <;> omega

/-- `cb_is_empty` is never cleared. -/
theorem putC_cbIsEmpty {kb : Keyboard} (empty : kb.cbIsEmpty = true)
    (c : UInt8) (waiting : Bool) :
    (kb.putC c waiting).2.cbIsEmpty = true := by
  simp [putC, cbfull, empty]

theorem takeC_cbIsEmpty {kb : Keyboard} (empty : kb.cbIsEmpty = true) :
    kb.takeC.2.cbIsEmpty = true := by
  simp [takeC, empty]

/-- While `cb_is_empty` is set, `putC` always stores its character. -/
theorem putC_stores {kb : Keyboard} (empty : kb.cbIsEmpty = true)
    (c : UInt8) (waiting : Bool) :
    (kb.putC c waiting).1 = 0 ∧
      (kb.putC c waiting).2.accepted = kb.accepted + 1 ∧
      (kb.putC c waiting).2.consumed = kb.consumed ∧
      (kb.putC c waiting).2.leftToRead = kb.leftToRead := by
  simp [putC, cbfull, empty]

/-- One more character is counted, but the tenth one makes the count zero. -/
theorem putC_charsInCirc {kb : Keyboard} (empty : kb.cbIsEmpty = true)
    (c : UInt8) (waiting : Bool) :
    (kb.putC c waiting).2.charsInCirc =
      if kb.charsInCirc + 1 = bufferSize then 0 else kb.charsInCirc + 1 := by
  have write := kb.nextToWrite_lt
  have read := kb.lastRead_lt
  have before := kb.charsInCirc_cases
  have after := (kb.putC c waiting).2.charsInCirc_cases
  have position := wrap_cases kb.nextToWrite
  have moved := wrap_cases (wrap kb.nextToWrite + 1)
  have stored : (kb.putC c waiting).2.nextToWrite =
      wrap (wrap kb.nextToWrite + 1) := by
    simp [putC, cbfull, empty]
  have sameRead : (kb.putC c waiting).2.lastRead = kb.lastRead := by
    simp [putC, cbfull, empty]
  rw [stored, sameRead] at after
  by_cases last : kb.charsInCirc + 1 = bufferSize
  · rw [if_pos last]
    simp only [bufferSize] at *
    omega
  · rw [if_neg last]
    simp only [bufferSize] at *
    omega

theorem takeC_charsInCirc {kb : Keyboard} (unread : 0 < kb.charsInCirc) :
    kb.takeC.2.charsInCirc + 1 = kb.charsInCirc := by
  have write := kb.nextToWrite_lt
  have read := kb.lastRead_lt
  have before := kb.charsInCirc_cases
  have after := kb.takeC.2.charsInCirc_cases
  have moved := wrap_cases (kb.lastRead + 1)
  have newRead : kb.takeC.2.lastRead = wrap (kb.lastRead + 1) := rfl
  have sameWrite : kb.takeC.2.nextToWrite = kb.nextToWrite := rfl
  rw [newRead, sameWrite] at after
  simp only [bufferSize] at *
  omega

/-- What the inner loop does when it has enough rounds: it takes every unread
character out of the buffer. -/
theorem drain_spec :
    ∀ (fuel : Nat) (kb : Keyboard), kb.charsInCirc ≤ fuel →
      (drain fuel kb).2.charsInCirc = 0 ∧
        (drain fuel kb).1.length = kb.charsInCirc ∧
        (drain fuel kb).2.consumed = kb.consumed + kb.charsInCirc ∧
        (drain fuel kb).2.accepted = kb.accepted ∧
        (drain fuel kb).2.leftToRead = kb.leftToRead - kb.charsInCirc ∧
        (kb.cbIsEmpty = true → (drain fuel kb).2.cbIsEmpty = true)
  | 0, kb, bound => by
      have none : kb.charsInCirc = 0 := by omega
      simp [drain, none]
  | fuel + 1, kb, bound => by
      by_cases unread : 0 < kb.charsInCirc
      · have guard := kb.hasUnread_iff.mpr unread
        have step := takeC_charsInCirc unread
        have rest := drain_spec fuel kb.takeC.2 (by omega)
        simp only [drain, guard, if_true]
        obtain ⟨empty, length, consumed, accepted, left, flag⟩ := rest
        refine ⟨empty, ?_, ?_, ?_, ?_, ?_⟩
        · simp only [List.length_cons, length]
          exact step
        · rw [consumed]
          simp only [takeC] at step ⊢
          omega
        · exact accepted
        · rw [left]
          simp only [takeC] at step ⊢
          omega
        · exact fun isEmpty => flag (takeC_cbIsEmpty isEmpty)
      · have none : kb.charsInCirc = 0 := by omega
        have guard : kb.hasUnread = false := by
          simpa [none] using kb.hasUnread_iff
        simp [drain, guard, none]

/-- With `N` rounds the inner loop ends because its guard is false. -/
theorem drain_hasUnread (kb : Keyboard) :
    (drain bufferSize kb).2.hasUnread = false := by
  have empty := (drain_spec bufferSize kb (Nat.le_of_lt kb.charsInCirc_lt)).1
  have guard := (drain bufferSize kb).2.hasUnread_iff
  rw [empty] at guard
  simpa using guard

end Keyboard

end Zeos
