import Zeos.Console.Screen
import Zeos.Sys
import Zeos.Utils

/-!
# `sys_write` and its buffer

`sys_write` and `sys_write_console` on linear memory, and the kernel stack, in the
page of the PCB, on which `bufferTmp` and below it the frames of the calls lie.
-/

namespace Zeos

open Library

universe u

variable {Place : Type u} [DecidableEq Place]

/-! ## The frames of the calls -/

/-- What the calls of `copy_from_user` and of `sys_write_console` push in one round:
arguments, return addresses, saved registers and locals. -/
structure CallFrames where
  copying : List UInt8
  printing : List UInt8

/-- The frames of the calls take at most so many bytes. -/
def CallFrames.Within (frames : CallFrames) (below : Nat) : Prop :=
  frames.copying.length ≤ below ∧ frames.printing.length ≤ below

/-- The frames of a call lie below `%esp`. -/
def pushFrame (locate : UInt32 → Option Place) (esp : UInt32) (frame : List UInt8)
    (memory : Place → UInt8) : Option (Place → UInt8) :=
  storeBytes locate frame (esp - UInt32.ofNat frame.length) memory

section Pushes

variable {locate : UInt32 → Option Place} {esp : UInt32} {frame : List UInt8}
  {memory after : Place → UInt8} {place : Place} {below : Nat}

theorem sub_ofNat_add {k : Nat} (few : k ≤ below) :
    esp - UInt32.ofNat below + UInt32.ofNat k = esp - UInt32.ofNat (below - k) := by
  have parts : UInt32.ofNat below = UInt32.ofNat (below - k) + UInt32.ofNat k := by
    rw [← UInt32.ofNat_add, Nat.sub_add_cancel few]
  rw [parts]
  grind

/-- Only the bytes below `%esp` are written. -/
theorem pushFrame_beside (pushed : pushFrame locate esp frame memory = some after)
    (within : frame.length ≤ below)
    (outside : ∀ k, 0 < k → k ≤ below → locate (esp - UInt32.ofNat k) ≠ some place) :
    after place = memory place := by
  apply storeBytes_beside pushed
  intro k few located
  rw [sub_ofNat_add (Nat.le_of_lt few)] at located
  exact outside (frame.length - k) (by omega) (by omega) located

/-- A call succeeds on a mapped stack. -/
theorem pushFrame_exists (within : frame.length ≤ below)
    (mapped : ∀ k, 0 < k → k ≤ below → (locate (esp - UInt32.ofNat k)).isSome)
    (memory : Place → UInt8) : ∃ after, pushFrame locate esp frame memory = some after := by
  apply Option.isSome_iff_exists.mp
  apply storeBytes_isSome.mpr
  intro k few
  rw [sub_ofNat_add (Nat.le_of_lt few)]
  exact mapped (frame.length - k) (by omega) (by omega)

end Pushes

/-! ## The calls -/

/-- `for (i=0; i<size; i++) printc(buffer[i]);` -/
def printFrom (locate : UInt32 → Option Place) (buffer : UInt32) (size : Int) (i : Nat)
    (t : Terminal Place) : Option (Terminal Place) :=
  if (i : Int) < size then
    (load locate (buffer + UInt32.ofNat i) t.memory).bind fun c =>
      (t.printc locate c).bind (printFrom locate buffer size (i + 1))
  else
    some t
termination_by size.toNat - i

/-- `sys_write_console`. -/
def sysWriteConsole (locate : UInt32 → Option Place) (buffer : UInt32) (size : Int)
    (t : Terminal Place) : Option (Int × Terminal Place) :=
  (printFrom locate buffer size 0 t).map fun t => (size, t)

/-- One round of the loop of `sys_write`.  `%esp` is at `bufferTmp`. -/
def writeRound (locate : UInt32 → Option Place) (frames : CallFrames) (buffer bufferTmp : UInt32)
    (size : Int) (i : Nat) (ret : Int) (t : Terminal Place) : Option (Int × Terminal Place) :=
  (pushFrame locate bufferTmp frames.copying t.memory).bind fun pushed =>
    (copyData locate (buffer + UInt32.ofNat i) bufferTmp (min 2048 (size - i)) pushed).bind
      fun copied =>
        (pushFrame locate bufferTmp frames.printing copied).bind fun pushed =>
          (sysWriteConsole locate bufferTmp (min 2048 (size - i)) { t with memory := pushed }).map
            fun written => (ret + written.1, written.2)

/-- The loop of `sys_write`.  `i + 2048` has no value behind `INT_MAX`. -/
def writeFrom (locate : UInt32 → Option Place) (frames : Nat → CallFrames)
    (buffer bufferTmp : UInt32) (size : Int) (i : Nat) (ret : Int) (t : Terminal Place) :
    Option (Int × Terminal Place) :=
  if (i : Int) < size then
    (writeRound locate (frames i) buffer bufferTmp size i ret t).bind fun round =>
      if i + 2048 ≤ 2147483647 then
        writeFrom locate frames buffer bufferTmp size (i + 2048) round.1 round.2
      else
        none
  else
    some (ret, t)
termination_by size.toNat - i
decreasing_by omega

/-- `sys_write`, with the address of `bufferTmp` and the frames that the calls of each round
push. -/
def Terminal.sysWrite (locate : UInt32 → Option Place) (frames : Nat → CallFrames)
    (bufferTmp : UInt32) (fd : Int32) (buffer : UInt32) (size : Int32) (t : Terminal Place) :
    Option (Int × Terminal Place) :=
  let tmp := checkFd fd.toInt true
  if tmp < 0 then some (tmp, t)
  else if buffer = 0 then some (-efault, t)
  else if size.toInt < 0 then some (-einval, t)
  else writeFrom locate frames buffer bufferTmp size.toInt 0 0 t

/-! ## The kernel stack -/

/-- The stack of a process in a system call.  `depth` counts the bytes between the end of
`bufferTmp` and the end of the `task_union`: the 16 words of the trap frame, the return
address, the saved `ebp`, and what else the compiler puts there.  The calls made with the
buffer push at most `below` bytes under it. -/
structure KernelFrame where
  base : UInt32
  depth : Nat
  below : Nat
  aligned : base.toNat % taskUnionSize = 0
  trap : 72 ≤ depth
  fits : depth ≤ taskUnionSize

namespace KernelFrame

variable {f : KernelFrame} {size k : Nat}

/-- `char bufferTmp[size]`. -/
def bufferTmp (f : KernelFrame) (size : Nat) : UInt32 :=
  f.base + UInt32.ofNat (taskUnionSize - f.depth) - UInt32.ofNat size

/-- The buffer and the frames of the calls fit between the PCB and the rest of the stack. -/
def Holds (f : KernelFrame) (size : Nat) : Prop :=
  f.depth + size + f.below ≤ taskUnionSize - taskStructSize

/-- What holds of the states of a run is that the buffer fits. -/
theorem holds_iff_fits {frame : BufferFrame}
    (reserved : f.depth + size = frame.above + BufferFrame.reserved size)
    (below : f.below = frame.below) : f.Holds size ↔ frame.Fits size := by
  unfold Holds BufferFrame.Fits
  rw [reserved, below]

theorem base_le (f : KernelFrame) : f.base.toNat + taskUnionSize ≤ 2 ^ 32 := by
  have aligned := f.aligned
  have bounded := f.base.toNat_lt
  unfold taskUnionSize at *
  omega

theorem inUnion (f : KernelFrame) (inside : k < taskUnionSize) :
    (f.base + UInt32.ofNat k).toNat = f.base.toNat + k := by
  have bounded := f.base_le
  exact toNat_add_ofNat (by omega)

/-- Where the buffer is in the `task_union`. -/
theorem bufferTmp_eq (room : f.depth + size ≤ taskUnionSize) :
    f.bufferTmp size = f.base + UInt32.ofNat (taskUnionSize - f.depth - size) := by
  unfold bufferTmp
  rw [show taskUnionSize - f.depth = taskUnionSize - f.depth - size + size by omega,
    UInt32.ofNat_add, ← UInt32.add_assoc, UInt32.add_sub_cancel]
  congr 2
  omega

/-- The bytes from the buffer on. -/
theorem bufferTmp_byte (room : f.depth + size ≤ taskUnionSize) (k : Nat) :
    f.bufferTmp size + UInt32.ofNat k =
      f.base + UInt32.ofNat (taskUnionSize - f.depth - size + k) := by
  rw [bufferTmp_eq room, add_ofNat_add]

/-- The bytes below the buffer. -/
theorem bufferTmp_below (room : f.depth + size + k ≤ taskUnionSize) :
    f.bufferTmp size - UInt32.ofNat k =
      f.base + UInt32.ofNat (taskUnionSize - f.depth - size - k) := by
  rw [bufferTmp_eq (by omega), show taskUnionSize - f.depth - size =
    taskUnionSize - f.depth - size - k + k by omega, UInt32.ofNat_add, ← UInt32.add_assoc,
    UInt32.add_sub_cancel]
  congr 2
  omega

end KernelFrame

end Zeos
