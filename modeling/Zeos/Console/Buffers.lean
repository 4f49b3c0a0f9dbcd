import Zeos.Console.Write
import Zeos.Keyboard.Order

/-!
# The buffers on the kernel stack

`bufferTmp` of `sys_read` and `sys_write` lies in the page that holds the PCB, and its
size is an argument of the call.  The calls that fill it and empty it push their frames
between it and the PCB.
-/

namespace Zeos

open Library

universe u

variable {Place : Type u} {locate : UInt32 → Option Place} {t after : Terminal Place}
  {place : Place} {f : KernelFrame} {c : UInt8} {buffer bufferTmp : UInt32}
  {frames : Nat → CallFrames} {size ret result : Int} {below : Nat}

/-! ## What the calls write -/

/-- What `printc` can write, wherever the cursor is. -/
def PrintcReaches (locate : UInt32 → Option Place) (place : Place) : Prop :=
  ∃ address, 0xb8000 ≤ address.toNat ∧ address.toNat < 0xb8000 + 2 * (255 * numColumns + 256) ∧
    locate address = some place

theorem screenAddress_toNat (t : Terminal Place) :
    t.screenAddress.toNat = 0xb8000 + 2 * (t.y.toNat * numColumns + t.x.toNat) := by
  have column := t.x.toNat_lt
  have row := t.y.toNat_lt
  unfold Terminal.screenAddress numColumns
  rw [UInt32.toNat_add, UInt32.toNat_mul, UInt32.toNat_ofNat',
    show UInt32.toNat 2 = 2 from rfl, show UInt32.toNat 0xb8000 = 0xb8000 from rfl]
  omega

section Writes

variable [DecidableEq Place]

theorem printc_beside (printed : t.printc locate c = some after)
    (away : ¬ PrintcReaches locate place) : after.memory place = t.memory place := by
  unfold Terminal.printc at printed
  dsimp only at printed
  split_ifs at printed with isNewline
  · rw [← Option.some.inj printed]
    rfl
  · obtain ⟨stored, ended, change⟩ := Option.map_eq_some_iff.mp printed
    rw [← change]
    rw [(advance_rest _).1] at ended
    refine storeBytes_beside ended ?_
    intro k few located
    apply away
    rw [length_leBytes] at few
    have column := t.x.toNat_lt
    have row := t.y.toNat_lt
    have start := screenAddress_toNat t
    unfold numColumns at start
    have byte : (t.screenAddress + UInt32.ofNat k).toNat = t.screenAddress.toNat + k :=
      toNat_add_ofNat (by omega)
    unfold PrintcReaches numColumns
    exact ⟨t.screenAddress + UInt32.ofNat k, by omega, by omega, located⟩

theorem printFrom_beside {i : Nat} (ended : printFrom locate buffer size i t = some after)
    (away : ¬ PrintcReaches locate place) : after.memory place = t.memory place := by
  induction left : size.toNat - i generalizing i t with
  | zero =>
      rw [printFrom, if_neg (by omega)] at ended
      rw [← Option.some.inj ended]
  | succ left inductionHypothesis =>
      rw [printFrom, if_pos (by omega)] at ended
      obtain ⟨c, loaded, ended⟩ := Option.bind_eq_some_iff.mp ended
      obtain ⟨middle, printed, rest⟩ := Option.bind_eq_some_iff.mp ended
      exact (inductionHypothesis rest (by omega)).trans (printc_beside printed away)

/-- A place that is neither on the stack from the calls' frames up to the end of the buffer
nor on the screen. -/
structure BesideBuffer (locate : UInt32 → Option Place) (bufferTmp : UInt32) (size below : Nat)
    (place : Place) : Prop where
  screen : ¬ PrintcReaches locate place
  buffer : ∀ k < size, locate (bufferTmp + UInt32.ofNat k) ≠ some place
  calls : ∀ k, 0 < k → k ≤ below → locate (bufferTmp - UInt32.ofNat k) ≠ some place

theorem writeRound_beside {i : Nat} {frames : CallFrames}
    (ended : writeRound locate frames buffer bufferTmp size i ret t = some (result, after))
    (started : (i : Int) < size) (within : frames.Within below)
    (beside : BesideBuffer locate bufferTmp size.toNat below place) :
    after.memory place = t.memory place := by
  obtain ⟨first, pushed, ended⟩ := Option.bind_eq_some_iff.mp ended
  obtain ⟨copied, copy, ended⟩ := Option.bind_eq_some_iff.mp ended
  obtain ⟨second, pushedLater, ended⟩ := Option.bind_eq_some_iff.mp ended
  obtain ⟨written, console, pair⟩ := Option.map_eq_some_iff.mp ended
  obtain ⟨last, printed, pair'⟩ := Option.map_eq_some_iff.mp console
  rw [← pair'] at pair
  cases pair
  have shown : last.memory place = second place := printFrom_beside printed beside.screen
  have called : second place = copied place :=
    pushFrame_beside pushedLater within.2 beside.calls
  have kept : copied place = first place :=
    copyData_beside copy fun k few => beside.buffer k (by omega)
  have calledFirst : first place = t.memory place :=
    pushFrame_beside pushed within.1 beside.calls
  exact shown.trans (called.trans (kept.trans calledFirst))

theorem writeFrom_beside {i : Nat}
    (ended : writeFrom locate frames buffer bufferTmp size i ret t = some (result, after))
    (within : ∀ i, (frames i).Within below)
    (beside : BesideBuffer locate bufferTmp size.toNat below place) :
    after.memory place = t.memory place := by
  induction left : size.toNat - i using Nat.strongRecOn generalizing i ret t with
  | _ left inductionHypothesis =>
      subst left
      rw [writeFrom] at ended
      by_cases more : (i : Int) < size
      · rw [if_pos more] at ended
        obtain ⟨⟨part, middle⟩, round, ended⟩ := Option.bind_eq_some_iff.mp ended
        by_cases small : i + 2048 ≤ 2147483647
        · rw [if_pos small] at ended
          have rest := inductionHypothesis (size.toNat - (i + 2048)) (by omega) ended rfl
          exact rest.trans (writeRound_beside round more (within i) beside)
        · rw [if_neg small] at ended
          cases ended
      · rw [if_neg more] at ended
        cases ended
        rfl

end Writes

/-! ## The PCB -/

namespace KernelFrame

variable {size : Nat}

/-- The page of the `task_union` is mapped to places of its own. -/
structure Paged (f : KernelFrame) (locate : UInt32 → Option Place) : Prop where
  mapped : ∀ k < taskUnionSize, (locate (f.base + UInt32.ofNat k)).isSome
  distinct : ∀ i < taskUnionSize, ∀ j < taskUnionSize,
    locate (f.base + UInt32.ofNat i) = locate (f.base + UInt32.ofNat j) → i = j

/-- The PCB, and everything that is not in the `task_union`. -/
def Protected (f : KernelFrame) (locate : UInt32 → Option Place) (place : Place) : Prop :=
  (∃ k < taskStructSize, locate (f.base + UInt32.ofNat k) = some place) ∨
    ∀ k < taskUnionSize, locate (f.base + UInt32.ofNat k) ≠ some place

/-- The buffer lies between the end of the PCB and the end of the `task_union`. -/
def AbovePcb (f : KernelFrame) (size : Nat) : Prop :=
  f.base.toNat + taskStructSize ≤ (f.bufferTmp size).toNat ∧
    (f.bufferTmp size).toNat + size ≤ f.base.toNat + taskUnionSize

theorem abovePcb_iff (small : size < 2 ^ 32) :
    f.AbovePcb size ↔ f.depth + size ≤ taskUnionSize - taskStructSize := by
  have bounded := f.base_le
  have trap := f.trap
  have fits := f.fits
  have top : (f.base + UInt32.ofNat (taskUnionSize - f.depth)).toNat =
      f.base.toNat + (taskUnionSize - f.depth) := f.inUnion (by unfold taskUnionSize; omega)
  have start : (f.bufferTmp size).toNat =
      (2 ^ 32 - size + (f.base.toNat + (taskUnionSize - f.depth))) % 2 ^ 32 := by
    unfold bufferTmp
    rw [UInt32.toNat_sub, top, UInt32.toNat_ofNat', Nat.mod_eq_of_lt small]
  unfold AbovePcb
  rw [start]
  unfold taskUnionSize taskStructSize at *
  constructor
  · rintro ⟨above, below⟩
    omega
  · intro holds
    omega

/-- A place of the stack is not protected. -/
theorem not_protected (paged : f.Paged locate) {k : Nat} (above : taskStructSize ≤ k)
    (inside : k < taskUnionSize) (located : locate (f.base + UInt32.ofNat k) = some place) :
    ¬ f.Protected locate place := by
  rintro (⟨j, few, pcb⟩ | outside)
  · have same := paged.distinct k inside j (by unfold taskStructSize taskUnionSize at *; omega)
      (located.trans pcb.symm)
    omega
  · exact outside k inside located

/-- Neither the buffer and the stack above it nor the frames of the calls are protected. -/
theorem Protected.beside (isProtected : f.Protected locate place) (paged : f.Paged locate)
    (holds : f.Holds size) :
    (∀ k < size + f.depth, locate (f.bufferTmp size + UInt32.ofNat k) ≠ some place) ∧
      ∀ k, 0 < k → k ≤ f.below → locate (f.bufferTmp size - UInt32.ofNat k) ≠ some place := by
  have room : f.depth + size ≤ taskUnionSize - taskStructSize := by
    unfold Holds at holds
    omega
  have part : taskStructSize ≤ taskUnionSize := by decide
  constructor
  · intro k few located
    rw [bufferTmp_byte (by omega)] at located
    exact not_protected paged (by omega) (by omega) located isProtected
  · intro k _ few located
    unfold Holds at holds
    rw [bufferTmp_below (by omega)] at located
    have trap := f.trap
    exact not_protected paged (by omega) (by omega) located isProtected

variable [DecidableEq Place]

/-- The calls made with the buffer leave the PCB alone, whatever their frames contain. -/
def CallsAbove (f : KernelFrame) (locate : UInt32 → Option Place) (size : Nat) : Prop :=
  ∀ (frame : List UInt8) (memory after : Place → UInt8), frame.length ≤ f.below →
    pushFrame locate (f.bufferTmp size) frame memory = some after →
    ∀ place, f.Protected locate place → after place = memory place

theorem Holds.callsAbove (holds : f.Holds size) (paged : f.Paged locate) :
    f.CallsAbove locate size := by
  intro frame memory after within pushed place isProtected
  exact pushFrame_beside pushed within (isProtected.beside paged holds).2

/-- Without room for the frames, one of them reaches the last byte of the PCB. -/
theorem CallsAbove.holds (calls : f.CallsAbove locate size) (paged : f.Paged locate)
    (room : f.depth + size ≤ taskUnionSize - taskStructSize) : f.Holds size := by
  by_contra narrow
  unfold Holds at narrow
  have part : taskStructSize ≤ taskUnionSize := by decide
  have positive : 0 < taskStructSize := by decide
  have trap := f.trap
  obtain ⟨width, offset, few⟩ : ∃ width,
      taskUnionSize - f.depth - size - width = taskStructSize - 1 ∧
        width ≤ taskUnionSize - f.depth - size :=
    ⟨taskUnionSize - f.depth - size - (taskStructSize - 1), by omega, by omega⟩
  have bytes : (List.replicate width (1 : UInt8)).length = width := List.length_replicate
  have start : f.bufferTmp size - UInt32.ofNat width =
      f.base + UInt32.ofNat (taskStructSize - 1) := by
    rw [bufferTmp_below (by omega), offset]
  have mapped : Mapped locate (f.base + UInt32.ofNat (taskStructSize - 1)) width := by
    intro k few
    rw [add_ofNat_add]
    exact paged.mapped _ (by omega)
  have stores : (storeBytes locate (List.replicate width 1)
      (f.base + UInt32.ofNat (taskStructSize - 1)) fun _ => 0).isSome := by
    apply storeBytes_isSome.mpr
    rw [bytes]
    exact mapped
  obtain ⟨after, stored⟩ := Option.isSome_iff_exists.mp stores
  have pushed : pushFrame locate (f.bufferTmp size) (List.replicate width 1) (fun _ => 0) =
      some after := by
    unfold pushFrame
    rw [bytes, start]
    exact stored
  have distinct : ∀ i < width, ∀ j < width, i ≠ j →
      locate (f.base + UInt32.ofNat (taskStructSize - 1) + UInt32.ofNat i) ≠
        locate (f.base + UInt32.ofNat (taskStructSize - 1) + UInt32.ofNat j) := by
    intro i few j small different same
    rw [add_ofNat_add, add_ofNat_add] at same
    have equal := paged.distinct _ (by omega) _ (by omega) same
    omega
  have loaded := storeBytes_loadBytes (by rw [bytes]; exact distinct) stored
  have one : (List.replicate width (1 : UInt8))[0]? = some 1 := by
    rw [List.getElem?_replicate, if_pos (by omega)]
  have first := load_of_loadBytes loaded one
  rw [add_ofNat_zero] at first
  obtain ⟨place, located, written⟩ := Option.map_eq_some_iff.mp first
  have kept : after place = 0 :=
    calls _ _ after (by omega) pushed place (Or.inl ⟨_, by omega, located⟩)
  rw [kept] at written
  cases written

/-- The buffer and the calls stay above the PCB exactly if there is room for both. -/
theorem placed_iff (paged : f.Paged locate) (small : size < 2 ^ 32) :
    f.AbovePcb size ∧ f.CallsAbove locate size ↔ f.Holds size := by
  constructor
  · rintro ⟨above, calls⟩
    exact calls.holds paged ((abovePcb_iff small).mp above)
  · intro holds
    refine ⟨(abovePcb_iff small).mpr ?_, holds.callsAbove paged⟩
    unfold Holds at holds
    omega

end KernelFrame

/-! ## `sys_write` -/

variable [DecidableEq Place]

/-- `sys_write` has its buffer above the PCB, and copies its data without a change to the
PCB or to anything outside the `task_union` but the screen. -/
structure KernelFrame.WriteSafe (f : KernelFrame) (locate : UInt32 → Option Place) (fd : Int32)
    (buffer : UInt32) (size : Int32) : Prop where
  above : f.AbovePcb size.toInt.toNat
  calls : f.CallsAbove locate size.toInt.toNat
  kept : ∀ (frames : Nat → CallFrames) (t after : Terminal Place) (result : Int),
    (∀ i, (frames i).Within f.below) →
    t.sysWrite locate frames (f.bufferTmp size.toInt.toNat) fd buffer size =
      some (result, after) →
    ∀ place, f.Protected locate place → ¬ PrintcReaches locate place →
      after.memory place = t.memory place

theorem sysWrite_beside {fd : Int32} {size : Int32}
    (ended : t.sysWrite locate frames bufferTmp fd buffer size = some (result, after))
    (within : ∀ i, (frames i).Within below)
    (beside : BesideBuffer locate bufferTmp size.toInt.toNat below place) :
    after.memory place = t.memory place := by
  unfold Terminal.sysWrite at ended
  dsimp only at ended
  split_ifs at ended with wrongFd null negative
  · cases ended
    rfl
  · cases ended
    rfl
  · cases ended
    rfl
  · exact writeFrom_beside ended within beside

theorem writeSafe_iff (paged : f.Paged locate) (fd : Int32) (buffer : UInt32) (size : Int32) :
    f.WriteSafe locate fd buffer size ↔ f.Holds size.toInt.toNat := by
  have small : size.toInt.toNat < 2 ^ 32 := by
    have bounded := size.toInt_lt
    omega
  constructor
  · intro safe
    exact (KernelFrame.placed_iff paged small).mp ⟨safe.above, safe.calls⟩
  · intro holds
    obtain ⟨above, calls⟩ := (KernelFrame.placed_iff paged small).mpr holds
    refine ⟨above, calls, ?_⟩
    intro frames t after result within ended place isProtected away
    obtain ⟨buffer, calls⟩ := isProtected.beside paged holds
    exact sysWrite_beside ended within ⟨away, fun k few => buffer k (by omega), calls⟩

/-! ## `sys_read` -/

/-- `buff[i++] = circBuffer[lastRead++]` in one turn of a reader that has the characters
`stored`, after the calls on its stack. -/
def storeTurn (locate : UInt32 → Option Place) (frame : List UInt8) (buff : UInt32) (n : Int)
    (stored : List UInt8) (kbd : Keyboard) (memory : Place → UInt8) : Option (Place → UInt8) :=
  (pushFrame locate buff frame memory).bind
    (storeBytes locate (turnTakes n stored kbd) (buff + UInt32.ofNat stored.length))

/-- `copy_to_user` at the end of `sys_read`. -/
def copyOut (locate : UInt32 → Option Place) (frame : List UInt8) (bufferTmp buf : UInt32)
    (tmp : Int) (memory : Place → UInt8) : Option (Place → UInt8) :=
  (pushFrame locate bufferTmp frame memory).bind (copyData locate bufferTmp buf tmp)

/-- `sys_read` has its buffer above the PCB.  The turns of the reader and the copy at the
end write the stack above the PCB and the caller's buffer only. -/
structure KernelFrame.ReadSafe (f : KernelFrame) (locate : UInt32 → Option Place) (buf : UInt32)
    (count : Int32) : Prop where
  above : f.AbovePcb count.toInt.toNat
  calls : f.CallsAbove locate count.toInt.toNat
  kept : ∀ frame stored kbd (memory after : Place → UInt8), frame.length ≤ f.below →
    storeTurn locate frame (f.bufferTmp count.toInt.toNat) count.toInt stored kbd memory =
      some after →
    ∀ place, f.Protected locate place → after place = memory place
  copied : ∀ frame tmp (memory after : Place → UInt8), frame.length ≤ f.below →
    copyOut locate frame (f.bufferTmp count.toInt.toNat) buf tmp memory = some after →
    ∀ place, f.Protected locate place →
      (∀ k < tmp.toNat, locate (buf + UInt32.ofNat k) ≠ some place) →
      after place = memory place

/-- A turn stores at most nine characters behind those that were asked for. -/
theorem turnTakes_short {n : Int} {stored : List UInt8} {kbd : Keyboard} {k : Nat}
    (few : k < (turnTakes n stored kbd).length) : (stored.length + k : Int) < n + bufferSize := by
  unfold turnTakes at few
  split_ifs at few with more
  · obtain ⟨_, length, _⟩ := Keyboard.drain_spec bufferSize kbd
      (Nat.le_of_lt kbd.charsInCirc_lt)
    have bounded := kbd.charsInCirc_lt
    omega
  · exact absurd few (Nat.not_lt_zero k)

theorem readSafe_iff (paged : f.Paged locate) (buf : UInt32) (count : Int32)
    (nonneg : 0 ≤ count.toInt) :
    f.ReadSafe locate buf count ↔ f.Holds count.toInt.toNat := by
  have small : count.toInt.toNat < 2 ^ 32 := by
    have bounded := count.toInt_lt
    omega
  constructor
  · intro safe
    exact (KernelFrame.placed_iff paged small).mp ⟨safe.above, safe.calls⟩
  · intro holds
    obtain ⟨above, calls⟩ := (KernelFrame.placed_iff paged small).mpr holds
    refine ⟨above, calls, ?_, ?_⟩
    · intro frame stored kbd memory after within ended place isProtected
      obtain ⟨middle, pushed, ended⟩ := Option.bind_eq_some_iff.mp ended
      have stores : after place = middle place := by
        apply storeBytes_beside ended
        intro k few
        have short := turnTakes_short few
        have trap := f.trap
        have ring : bufferSize ≤ 72 := by decide
        rw [add_ofNat_add]
        exact (isProtected.beside paged holds).1 _ (by omega)
      exact stores.trans (calls frame memory middle within pushed place isProtected)
    · intro frame tmp memory after within ended place isProtected outside
      obtain ⟨middle, pushed, ended⟩ := Option.bind_eq_some_iff.mp ended
      exact (copyData_beside ended outside).trans
        (calls frame memory middle within pushed place isProtected)

/-- A size or count leaves the PCB alone exactly if the buffer fits above it, with what the
calls push below the buffer. -/
theorem buffer_above_pcb (paged : f.Paged locate) :
    (∀ fd buffer size, WriteAccepted fd buffer size →
      (f.WriteSafe locate fd buffer size ↔
        f.depth + size.toInt.toNat + f.below ≤ taskUnionSize - taskStructSize)) ∧
    (∀ fd buf count, Kernel.ReadAccepted fd buf count →
      (f.ReadSafe locate buf count ↔
        f.depth + count.toInt.toNat + f.below ≤ taskUnionSize - taskStructSize)) :=
  ⟨fun fd buffer size _ => writeSafe_iff paged fd buffer size,
    fun _ buf count accepted => readSafe_iff paged buf count accepted.2.2.2⟩

/-- The stack of the process whose `task_union` is at `0x20000`, with nothing above
`bufferTmp` but the trap frame, the return address and `ebp`, and 80 bytes for the calls. -/
def shallowFrame : KernelFrame where
  base := 0x20000
  depth := 72
  below := 80
  aligned := rfl
  trap := Nat.le_refl _
  fits := by decide

theorem shallowFrame_paged : shallowFrame.Paged some where
  mapped _ _ := rfl
  distinct i few j small same := by
    have value := congrArg UInt32.toNat (Option.some.inj same)
    rw [shallowFrame.inUnion few, shallowFrame.inUnion small] at value
    omega

/-- Up to 3876 bytes between 72 bytes of the frame and 80 of the calls. -/
theorem buffer_above_pcb_shallow :
    shallowFrame.WriteSafe some 1 0x110000 3876 ∧ ¬ shallowFrame.WriteSafe some 1 0x110000 3877 ∧
      shallowFrame.ReadSafe some 0x11c000 3876 ∧ ¬ shallowFrame.ReadSafe some 0x11c000 3877 := by
  obtain ⟨writes, reads⟩ := buffer_above_pcb shallowFrame_paged
  refine ⟨(writes 1 _ 3876 (by decide)).mpr (by decide), ?_,
    (reads 0 _ 3876 (by decide)).mpr (by decide), ?_⟩
  · intro safe
    exact absurd ((writes 1 _ 3877 (by decide)).mp safe) (by decide)
  · intro safe
    exact absurd ((reads 0 _ 3877 (by decide)).mp safe) (by decide)

/-- `write (1, buffer, 4024)`: the first chunk is copied over the PID. -/
theorem pid_overwritten :
    WriteAccepted 1 0x110000 4024 ∧ ¬ shallowFrame.WriteSafe some 1 0x110000 4024 ∧
      ∃ memory after : UInt32 → UInt8,
        copyData some 0x110000 (shallowFrame.bufferTmp 4024) 2048 memory = some after ∧
          after shallowFrame.base ≠ memory shallowFrame.base := by
  refine ⟨by decide, ?_, ?_⟩
  · intro safe
    have holds : 72 + 4024 + 80 ≤ 4028 := (writeSafe_iff shallowFrame_paged 1 0x110000 4024).mp safe
    omega
  · have start : shallowFrame.bufferTmp 4024 = 0x20000 := rfl
    have source : ∀ k < 2048, (0x110000 + UInt32.ofNat k).toNat = 0x110000 + k := by
      intro k few
      exact toNat_add_ofNat (by rw [show UInt32.toNat 0x110000 = 0x110000 from rfl]; omega)
    have dest : ∀ k < 2048, (0x20000 + UInt32.ofNat k).toNat = 0x20000 + k := by
      intro k few
      exact toNat_add_ofNat (by rw [show UInt32.toNat 0x20000 = 0x20000 from rfl]; omega)
    have apart : Apart some 0x110000 0x20000 (2048 : Int).toNat := by
      constructor
      · intro i few j small different same
        have value := congrArg UInt32.toNat (Option.some.inj same)
        rw [dest i few, dest j small] at value
        omega
      · intro i few j small same
        have value := congrArg UInt32.toNat (Option.some.inj same)
        rw [source i few, dest j small] at value
        change i < 2048 at few
        omega
    have mapped : ∀ address, Mapped some address (2048 : Int).toNat := fun _ _ _ => rfl
    obtain ⟨after, ended, done⟩ := copyData_copied apart (mapped _) (mapped _)
      fun address => if address = 0x110000 then 0x41 else 0
    refine ⟨_, after, by rw [start]; exact ended, ?_⟩
    have first := Option.some.inj (done.copied 0 (by decide))
    rw [add_ofNat_zero, add_ofNat_zero] at first
    change after 0x20000 ≠ 0
    rw [first]
    decide

end Zeos
