import Zeos.Console.Write
import Zeos.Loading.RoundTrip
import Zeos.Space.UserMemory

/-!
# Output in chunks

`sys_write` copies at most 2048 bytes at a time to the start of `bufferTmp` and prints
them from there.  What is printed is what the caller's buffer holds.
-/

namespace Zeos

open Library

universe u

variable {Place : Type u} {locate : UInt32 → Option Place} {t : Terminal Place} {d : Display}
  {frames : Nat → CallFrames} {buffer bufferTmp address : UInt32} {cs : List UInt8}
  {size below : Nat}

/-- The caller's buffer, `bufferTmp`, the stack below it and the screen are mapped to
different places. -/
structure Separate (locate : UInt32 → Option Place) (buffer bufferTmp : UInt32)
    (size below : Nat) : Prop where
  screen : ScreenMapped locate
  readable : Mapped locate buffer size
  writable : Mapped locate bufferTmp size
  apart : Apart locate buffer bufferTmp size
  bufferScreen : ∀ k < size, ∀ place, locate (buffer + UInt32.ofNat k) = some place →
    ¬ ScreenPlace locate place
  tmpScreen : ∀ k < size, ∀ place, locate (bufferTmp + UInt32.ofNat k) = some place →
    ¬ ScreenPlace locate place
  stack : ∀ k, 0 < k → k ≤ below → (locate (bufferTmp - UInt32.ofNat k)).isSome
  stackBuffer : ∀ k, 0 < k → k ≤ below → ∀ j < size,
    locate (bufferTmp - UInt32.ofNat k) ≠ locate (buffer + UInt32.ofNat j)
  stackTmp : ∀ k, 0 < k → k ≤ below → ∀ j < size,
    locate (bufferTmp - UInt32.ofNat k) ≠ locate (bufferTmp + UInt32.ofNat j)
  stackScreen : ∀ k, 0 < k → k ≤ below → ∀ place,
    locate (bufferTmp - UInt32.ofNat k) = some place → ¬ ScreenPlace locate place

/-- What `sys_write` changes: the screen, `bufferTmp` and the stack below it. -/
def WriteReaches (locate : UInt32 → Option Place) (bufferTmp : UInt32) (size below : Nat)
    (place : Place) : Prop :=
  ScreenPlace locate place ∨ (∃ k < size, locate (bufferTmp + UInt32.ofNat k) = some place) ∨
    ∃ k, 0 < k ∧ k ≤ below ∧ locate (bufferTmp - UInt32.ofNat k) = some place

namespace Separate

/-- A part of the caller's buffer and the start of `bufferTmp`. -/
theorem part (separate : Separate locate buffer bufferTmp size below) {i width : Nat}
    (inside : i + width ≤ size) :
    Apart locate (buffer + UInt32.ofNat i) bufferTmp width ∧
      Mapped locate (buffer + UInt32.ofNat i) width ∧ Mapped locate bufferTmp width := by
  refine ⟨⟨?_, ?_⟩, ?_, ?_⟩
  · intro j few k small
    exact separate.apart.distinct j (by omega) k (by omega)
  · intro j few k small
    rw [add_ofNat_add]
    exact separate.apart.disjoint (i + j) (by omega) k (by omega)
  · intro k few
    rw [add_ofNat_add]
    exact separate.readable (i + k) (by omega)
  · exact fun k few => separate.writable k (by omega)

theorem buffer_kept (separate : Separate locate buffer bufferTmp size below) {k : Nat}
    (few : k < size) {place : Place} (located : locate (buffer + UInt32.ofNat k) = some place) :
    ¬ WriteReaches locate bufferTmp size below place := by
  rintro (onScreen | ⟨j, small, inTmp⟩ | ⟨j, positive, small, onStack⟩)
  · exact separate.bufferScreen k few place located onScreen
  · exact separate.apart.disjoint k few j small (located.trans inTmp.symm)
  · exact separate.stackBuffer j positive small k few (onStack.trans located.symm)

end Separate

/-- The same display, when no cell is written. -/
theorem Shows.congr {memory : Place → UInt8} (shows : Shows locate t d)
    (same : ∀ place, ScreenPlace locate place → memory place = t.memory place) :
    Shows locate { t with memory := memory } d := by
  refine ⟨shows.x, shows.y, fun place => ?_⟩
  rw [← shows.cell place]
  apply loadBytes_congr
  intro k few
  apply load_congr
  intro p located
  exact same p ⟨_, cellAddress_onScreen place few, located⟩

variable [DecidableEq Place]

/-- What a call leaves as it is: everything but the bytes below `bufferTmp`, so the caller's
buffer, `bufferTmp` and the screen. -/
structure Pushed (locate : UInt32 → Option Place) (buffer bufferTmp : UInt32)
    (size below : Nat) (before after : Place → UInt8) : Prop where
  beside : ∀ place, (∀ k, 0 < k → k ≤ below → locate (bufferTmp - UInt32.ofNat k) ≠ some place) →
    after place = before place
  buffer : ∀ k < size, load locate (buffer + UInt32.ofNat k) after =
    load locate (buffer + UInt32.ofNat k) before
  tmp : ∀ k < size, load locate (bufferTmp + UInt32.ofNat k) after =
    load locate (bufferTmp + UInt32.ofNat k) before
  screen : ∀ place, ScreenPlace locate place → after place = before place

theorem Separate.push (separate : Separate locate buffer bufferTmp size below)
    {frame : List UInt8} (within : frame.length ≤ below) (memory : Place → UInt8) :
    ∃ after, pushFrame locate bufferTmp frame memory = some after ∧
      Pushed locate buffer bufferTmp size below memory after := by
  obtain ⟨after, pushed⟩ := pushFrame_exists within separate.stack memory
  have beside : ∀ place,
      (∀ k, 0 < k → k ≤ below → locate (bufferTmp - UInt32.ofNat k) ≠ some place) →
      after place = memory place := fun _ => pushFrame_beside pushed within
  refine ⟨after, pushed, beside, ?_, ?_, ?_⟩
  · intro k few
    apply load_congr
    intro place located
    apply beside
    exact fun j positive small onStack =>
      separate.stackBuffer j positive small k few (onStack.trans located.symm)
  · intro k few
    apply load_congr
    intro place located
    apply beside
    exact fun j positive small onStack =>
      separate.stackTmp j positive small k few (onStack.trans located.symm)
  · intro place isScreen
    apply beside
    exact fun j positive small onStack =>
      separate.stackScreen j positive small place onStack isScreen

/-- Printing the rest of a chunk. -/
theorem printFrom_prints (separate : Separate locate buffer bufferTmp size below) :
    ∀ {cs : List UInt8} {i : Nat} {t : Terminal Place} {d : Display}, i + cs.length ≤ size →
      loadBytes locate cs.length (bufferTmp + UInt32.ofNat i) t.memory = some cs →
      Shows locate t d →
      ∃ after, printFrom locate bufferTmp (i + cs.length : Nat) i t = some after ∧
        Prints locate (ScreenPlace locate) t d cs after
  | [], i, t, d, _, _, shows => by
      refine ⟨t, ?_, Prints.none shows⟩
      rw [printFrom, if_neg (by simp)]
  | c :: cs, i, t, d, inside, loaded, shows => by
      rw [List.length_cons] at inside loaded ⊢
      rw [loadBytes, Option.bind_eq_some_iff] at loaded
      obtain ⟨head, first, loaded⟩ := loaded
      obtain ⟨rest, loadedRest, whole⟩ := Option.map_eq_some_iff.mp loaded
      obtain ⟨rfl, rfl⟩ := List.cons_eq_cons.mp whole
      obtain ⟨middle, printed, prints⟩ := printc_prints separate.screen shows head
      have later : loadBytes locate rest.length (bufferTmp + UInt32.ofNat (i + 1)) middle.memory =
          some rest := by
        rw [← add_ofNat_succ, prints.loadBytes_kept ?_, loadedRest]
        intro k few place located
        rw [add_ofNat_succ, add_ofNat_add] at located
        exact separate.tmpScreen _ (by omega) place located
      obtain ⟨after, ended, others⟩ := printFrom_prints separate
        (by omega : i + 1 + rest.length ≤ size) later prints.shown
      refine ⟨after, ?_, prints.append others⟩
      rw [printFrom, if_pos (by omega), first, Option.bind_some, printed, Option.bind_some]
      rw [show i + (rest.length + 1) = i + 1 + rest.length by omega]
      exact ended

/-- One round: a chunk is copied and printed, and stays in `bufferTmp`. -/
theorem writeRound_prints {frames : CallFrames}
    (separate : Separate locate buffer bufferTmp size below) (within : frames.Within below)
    {i : Nat} (inside : i + cs.length ≤ size)
    (chunk : (cs.length : Int) = min 2048 ((size : Int) - i))
    (loaded : loadBytes locate cs.length (buffer + UInt32.ofNat i) t.memory = some cs)
    (shows : Shows locate t d) (ret : Int) :
    ∃ after, writeRound locate frames buffer bufferTmp size i ret t =
        some (ret + cs.length, after) ∧
      Prints locate (WriteReaches locate bufferTmp size below) t d cs after ∧
      loadBytes locate cs.length bufferTmp after.memory = some cs := by
  obtain ⟨apart, readable, writable⟩ := separate.part inside
  obtain ⟨first, push, pushed⟩ := separate.push within.1 t.memory
  have copies : ∃ copied, copyData locate (buffer + UInt32.ofNat i) bufferTmp (cs.length : Int)
      first = some copied ∧ CopiedBytes locate (buffer + UInt32.ofNat i) bufferTmp first
        cs.length copied := copyData_copied apart readable writable first
  obtain ⟨copied, copy, done⟩ := copies
  obtain ⟨second, pushLater, pushedLater⟩ := separate.push within.2 copied
  have inTmp : loadBytes locate cs.length (bufferTmp + UInt32.ofNat 0) second = some cs := by
    rw [add_ofNat_zero, ← loaded]
    apply loadBytes_congr
    intro k few
    have source := pushed.buffer (i + k) (by omega)
    rw [← add_ofNat_add] at source
    exact (pushedLater.tmp k (by omega)).trans ((done.copied k few).trans source)
  have onScreen : ∀ place, ScreenPlace locate place → second place = t.memory place := by
    intro place isScreen
    refine (pushedLater.screen place isScreen).trans
      ((done.beside place ?_).trans (pushed.screen place isScreen))
    intro k few located
    exact separate.tmpScreen k (by omega) place located isScreen
  obtain ⟨after, printed, prints⟩ := printFrom_prints separate
    (by omega : 0 + cs.length ≤ size) inTmp (shows.congr onScreen)
  rw [Nat.zero_add] at printed
  refine ⟨after, ?_, ⟨prints.port, prints.shown, prints.stores, ?_⟩, ?_⟩
  · rw [writeRound, push, Option.bind_some, ← chunk, copy, Option.bind_some, pushLater,
      Option.bind_some, sysWriteConsole, printed]
    rfl
  · intro place away
    have kept := prints.beside place fun isScreen => away (Or.inl isScreen)
    have calls : ∀ k, 0 < k → k ≤ below → locate (bufferTmp - UInt32.ofNat k) ≠ some place :=
      fun k positive few located => away (Or.inr (Or.inr ⟨k, positive, few, located⟩))
    refine kept.trans ((pushedLater.beside place calls).trans
      ((done.beside place ?_).trans (pushed.beside place calls)))
    intro k few located
    exact away (Or.inr (Or.inl ⟨k, by omega, located⟩))
  · rw [add_ofNat_zero] at inTmp
    rw [← inTmp]
    apply prints.loadBytes_kept
    exact fun k few place located => separate.tmpScreen k (by omega) place located

/-- The last chunk of the characters that are written. -/
def lastChunk (cs : List UInt8) : List UInt8 := cs.drop ((cs.length - 1) / 2048 * 2048)

theorem lastChunk_short (short : cs.length ≤ 2048) : lastChunk cs = cs := by
  unfold lastChunk
  rw [Nat.div_eq_of_lt (by omega), Nat.zero_mul, List.drop_zero]

theorem lastChunk_drop (long : 2048 < cs.length) :
    lastChunk (cs.drop 2048) = lastChunk cs := by
  unfold lastChunk
  rw [List.drop_drop, List.length_drop]
  congr 1
  omega

/-- The loop prints the rest of the caller's buffer. -/
theorem writeFrom_prints (separate : Separate locate buffer bufferTmp size below)
    (within : ∀ i, (frames i).Within below) (bounded : size ≤ 2 ^ 31 - 2048) {i : Nat}
    (inside : i + cs.length = size)
    (loaded : loadBytes locate cs.length (buffer + UInt32.ofNat i) t.memory = some cs)
    (shows : Shows locate t d) (ret : Int) :
    ∃ after, writeFrom locate frames buffer bufferTmp size i ret t =
        some (ret + cs.length, after) ∧
      Prints locate (WriteReaches locate bufferTmp size below) t d cs after ∧
      loadBytes locate (lastChunk cs).length bufferTmp after.memory = some (lastChunk cs) := by
  induction left : cs.length using Nat.strongRecOn generalizing cs i t d ret with
  | _ left inductionHypothesis =>
      subst left
      rw [writeFrom]
      by_cases more : (i : Int) < size
      · rw [if_pos more]
        obtain ⟨chunk, others⟩ := loadBytes_split loaded 2048
        have width : (cs.take 2048).length = min 2048 cs.length := List.length_take
        have after2048 : (cs.drop 2048).length = cs.length - 2048 := List.length_drop
        obtain ⟨middle, round, prints, kept⟩ := writeRound_prints separate (within i) (by omega)
          (by omega) chunk shows ret
        rw [round, Option.bind_some, if_pos (by omega)]
        by_cases last : cs.length ≤ 2048
        · have whole : cs.take 2048 = cs := List.take_of_length_le last
          rw [whole] at prints kept
          rw [lastChunk_short last]
          refine ⟨middle, ?_, prints, kept⟩
          rw [writeFrom, if_neg (by omega), whole]
        · have later : loadBytes locate (cs.drop 2048).length
              (buffer + UInt32.ofNat (i + 2048)) middle.memory = some (cs.drop 2048) := by
            rw [← add_ofNat_add, prints.loadBytes_kept ?_, others]
            intro k few place located
            rw [add_ofNat_add, add_ofNat_add] at located
            exact separate.buffer_kept (by omega) located
          obtain ⟨after, ended, rest, keptLast⟩ := inductionHypothesis (cs.drop 2048).length
            (by omega) (by omega : i + 2048 + (cs.drop 2048).length = size) later prints.shown
            (ret + (cs.take 2048).length) rfl
          have all := prints.append rest
          rw [List.take_append_drop] at all
          rw [lastChunk_drop (by omega)] at keptLast
          refine ⟨after, ?_, all, keptLast⟩
          rw [ended]
          congr 2
          omega
      · have none : cs = [] := List.length_eq_zero_iff.mp (by omega)
        subst none
        rw [if_neg more]
        exact ⟨t, by simp, Prints.none shows, rfl⟩

theorem sysWrite_prints {size : Int32}
    (separate : Separate locate buffer bufferTmp size.toInt.toNat below)
    (within : ∀ i, (frames i).Within below) (notNull : buffer ≠ 0)
    (nonneg : 0 ≤ size.toInt) (bounded : size.toInt ≤ 2 ^ 31 - 2048) (shows : Shows locate t d) :
    ∃ cs after, loadBytes locate size.toInt.toNat buffer t.memory = some cs ∧
      t.sysWrite locate frames bufferTmp 1 buffer size = some (size.toInt, after) ∧
      Prints locate (WriteReaches locate bufferTmp size.toInt.toNat below) t d cs after ∧
      loadBytes locate (lastChunk cs).length bufferTmp after.memory = some (lastChunk cs) := by
  obtain ⟨cs, loaded⟩ := Option.isSome_iff_exists.mp
    ((loadBytes_isSome t.memory).mpr separate.readable)
  have length := length_loadBytes loaded
  have start : loadBytes locate cs.length (buffer + UInt32.ofNat 0) t.memory = some cs := by
    rw [add_ofNat_zero, length]
    exact loaded
  obtain ⟨after, ended, prints, kept⟩ := writeFrom_prints separate within (by omega)
    (by omega : 0 + cs.length = size.toInt.toNat) start shows 0
  refine ⟨cs, after, loaded, ?_, prints, kept⟩
  have goodFd : ¬ checkFd (1 : Int32).toInt true < 0 := by decide
  have whole : ((size.toInt.toNat : Nat) : Int) = size.toInt := by omega
  unfold Terminal.sysWrite
  rw [if_neg goodFd, if_neg notNull, if_neg (by omega)]
  rw [whole] at ended
  rw [ended]
  congr 2
  omega

/-! ## The kernel's `sys_write` -/

theorem copyFromUser_eq (mm : Memory) (dir : DirId) : ∀ (width : Nat) (start : UInt32),
    mm.copyFromUser dir width start = loadBytes (Loading.linear mm dir) width start
      fun place => mm.ram place.1 place.2
  | 0, _ => rfl
  | width + 1, start => by
      have first : mm.loadByte dir start =
          load (Loading.linear mm dir) start fun place => mm.ram place.1 place.2 := by
        unfold Memory.loadByte load Loading.linear
        rw [Option.map_map]
        rfl
      rw [Memory.copyFromUser, copyFromUser_eq mm dir width (start + 1), first, loadBytes]
      cases load (Loading.linear mm dir) start fun place => mm.ram place.1 place.2 with
      | none => rfl
      | some byte =>
          cases loadBytes (Loading.linear mm dir) width (start + 1) fun place =>
              mm.ram place.1 place.2 with
          | none => rfl
          | some bytes => rfl

/-- The state of the kernel keeps the characters that the chunks print. -/
theorem sysWrite_console {s : Kernel} {t : Terminal (Nat × Nat)} {size : Int32}
    (separate : Separate (Loading.linear s.mm s.cr3) buffer bufferTmp size.toInt.toNat below)
    (within : ∀ i, (frames i).Within below) (notNull : buffer ≠ 0) (nonneg : 0 ≤ size.toInt) (bounded : size.toInt ≤ 2 ^ 31 - 2048)
    (shows : Shows (Loading.linear s.mm s.cr3) t d)
    (memory : t.memory = fun place => s.mm.ram place.1 place.2)
    (finished : (s.sysWrite 1 buffer size).2.mm.fault = false) :
    ∃ cs after, t.sysWrite (Loading.linear s.mm s.cr3) frames bufferTmp 1 buffer size =
        some (size.toInt, after) ∧ after.port = t.port ++ cs ∧
      (s.sysWrite 1 buffer size).2.console = s.console ++ cs := by
  obtain ⟨cs, after, loaded, ended, prints, _⟩ :=
    sysWrite_prints separate within notNull nonneg bounded shows
  refine ⟨cs, after, ended, prints.port, ?_⟩
  have transfers : Kernel.writeTransfers 1 buffer size =
      [⟨.verifyRead, buffer, size.toInt.toNat⟩] := by
    unfold Kernel.writeTransfers
    rw [if_neg]
    rintro (wrongFd | null | negative)
    · exact absurd wrongFd (by decide)
    · exact notNull null
    · omega
  rcases s.sysWrite_reads 1 buffer size finished with
    ⟨none, _⟩ | ⟨x, values, one, read, console⟩
  · rw [transfers] at none
    cases none
  · rw [transfers] at one
    cases one
    rw [copyFromUser_eq, ← memory, loaded] at read
    cases read
    exact console

/-! ## Characters one by one -/

/-- `sys_write (1, buffer, size)` prints what the caller's buffer holds as a renderer
would that gets one character after the other, whatever its calls push on the stack below
`bufferTmp`; `printc_xy (0, 0, c)` in between changes the top-left cell only. -/
theorem chunked_output {size : Int32}
    (separate : Separate locate buffer bufferTmp size.toInt.toNat below)
    (within : ∀ i, (frames i).Within below) (notNull : buffer ≠ 0)
    (nonneg : 0 ≤ size.toInt) (bounded : size.toInt ≤ 2 ^ 31 - 2048)
    (column : t.x.toNat < numColumns) (row : t.y.toNat < numRows) :
    ∃ d, Shows locate t d ∧
      (∃ cs after, loadBytes locate size.toInt.toNat buffer t.memory = some cs ∧
        t.sysWrite locate frames bufferTmp 1 buffer size = some (size.toInt, after) ∧
        Prints locate (WriteReaches locate bufferTmp size.toInt.toNat below) t d cs after) ∧
      (∀ c, c ≠ newline → ∃ after, t.printcXy locate 0 0 c = some after ∧
        Shows locate after (d.paint (0, 0) c) ∧ after.stores = t.stores ++ [0xb8000] ∧
        ∀ place, (∀ k < 2, locate (0xb8000 + UInt32.ofNat k) ≠ some place) →
          after.memory place = t.memory place) ∧
      ∀ outputs : List Output, (∀ output ∈ outputs, output.Visible) →
        ∃ after shown, Output.performAll locate outputs t = some after ∧
          Shows locate after shown ∧ SameBesideCorner shown (d.render (Output.chars outputs)) := by
  obtain ⟨d, shows⟩ := exists_shows separate.screen column row
  obtain ⟨cs, after, loaded, ended, prints, _⟩ :=
    sysWrite_prints separate within notNull nonneg bounded shows
  refine ⟨d, shows, ⟨cs, after, loaded, ended, prints⟩, ?_, ?_⟩
  · exact fun c visible => printcXy_corner separate.screen shows visible
  · exact fun outputs visible => performAll_shows separate.screen visible shows ⟨rfl, rfl, fun _ _ => rfl⟩

/-- The addresses of a block that does not wrap around. -/
theorem block_byte {start : UInt32} {width k : Nat} (fits : start.toNat + width ≤ 2 ^ 32)
    (few : k < width) : (start + UInt32.ofNat k).toNat = start.toNat + k :=
  toNat_add_ofNat (by omega)

/-- The addresses of the stack. -/
theorem stack_byte {k : Nat} (fits : below ≤ bufferTmp.toNat) (few : k ≤ below) :
    (bufferTmp - UInt32.ofNat k).toNat = bufferTmp.toNat - k := by
  have bounded := bufferTmp.toNat_lt
  have small : (UInt32.ofNat k).toNat = k := by
    rw [UInt32.toNat_ofNat', Nat.mod_eq_of_lt (by omega)]
  rw [UInt32.toNat_sub_of_le _ _ (UInt32.le_iff_toNat_le.mpr (by omega)), small]

theorem separate_some (bufferFits : buffer.toNat + size ≤ 2 ^ 32)
    (tmpFits : bufferTmp.toNat + size ≤ 0xb8000) (stackFits : below ≤ bufferTmp.toNat)
    (above : 0xb8000 + 4000 ≤ buffer.toNat) : Separate some buffer bufferTmp size below where
  screen := ⟨fun _ _ => rfl, fun _ _ _ _ same => Option.some.inj same⟩
  readable _ _ := rfl
  writable _ _ := rfl
  apart := by
    constructor
    · intro i few j small different same
      have value := congrArg UInt32.toNat (Option.some.inj same)
      rw [block_byte (by omega) few, block_byte (by omega) small] at value
      omega
    · intro i few j small same
      have value := congrArg UInt32.toNat (Option.some.inj same)
      rw [block_byte bufferFits few, block_byte (by omega) small] at value
      omega
  bufferScreen := by
    rintro k few place located ⟨address, ⟨_, below⟩, same⟩
    have value := congrArg UInt32.toNat (Option.some.inj (located.trans same.symm))
    rw [block_byte bufferFits few] at value
    unfold numColumns numRows at below
    omega
  tmpScreen := by
    rintro k few place located ⟨address, ⟨start, _⟩, same⟩
    have value := congrArg UInt32.toNat (Option.some.inj (located.trans same.symm))
    rw [block_byte (by omega) few] at value
    omega
  stack _ _ _ := rfl
  stackBuffer := by
    intro k positive few j small same
    have value := congrArg UInt32.toNat (Option.some.inj same)
    rw [stack_byte stackFits few, block_byte bufferFits small] at value
    omega
  stackTmp := by
    intro k positive few j small same
    have value := congrArg UInt32.toNat (Option.some.inj same)
    rw [stack_byte stackFits few, block_byte (by omega) small] at value
    omega
  stackScreen := by
    rintro k positive few place located ⟨address, ⟨start, _⟩, same⟩
    have value := congrArg UInt32.toNat (Option.some.inj (located.trans same.symm))
    rw [stack_byte stackFits few] at value
    omega

/-- Memory that is zero, with the cursor of `io.c`. -/
def blankTerminal : Terminal UInt32 where
  memory _ := 0
  x := 0
  y := 19
  port := []
  stores := []

/-- Calls that push eight bytes and sixteen. -/
def smallFrames (_ : Nat) : CallFrames := ⟨List.replicate 8 0xFF, List.replicate 16 0xFF⟩

theorem smallFrames_within (i : Nat) : (smallFrames i).Within 16 :=
  ⟨(by decide : 8 ≤ 16), Nat.le_refl 16⟩

/-- Two chunks. -/
theorem chunked_output_two : ∃ cs after,
    loadBytes some 3000 0x110000 blankTerminal.memory = some cs ∧
      blankTerminal.sysWrite some smallFrames 0x20000 1 0x110000 3000 = some (3000, after) ∧
      after.port = cs := by
  have separate : Separate some 0x110000 0x20000 (3000 : Int32).toInt.toNat 16 :=
    separate_some (by decide) (by decide) (by decide) (by decide)
  obtain ⟨d, _, ⟨cs, after, loaded, ended, prints⟩, _⟩ := chunked_output (t := blankTerminal)
    separate smallFrames_within (by decide) (by decide) (by decide) (by decide) (by decide)
  exact ⟨cs, after, loaded, ended, prints.port⟩

end Zeos
