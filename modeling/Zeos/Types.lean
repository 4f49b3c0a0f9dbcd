import Mathlib

/-!
# Constants and data types

The constants of `mm_address.h`, `sched.h` and `errno.h`, and the data types of
`types.h`, `stats.h` and `sched.h`.

A `task_union` is one page that holds a PCB and a kernel stack.  Its parts are
kept in separate maps from the task's index: the plain PCB fields
(`TaskStruct`), the statistics (`Stats`), the `list` field (the links of the
node `Node.pcb`), and what the kernel stack below `kernel_esp` stands for
(`Context`, and the saved `eax` of the trap frame).
-/

namespace Zeos

/-! ## Constants -/

@[simp] def totalPages : Nat := 1024
@[simp] def numPagKernel : Nat := 256
@[simp] def numPagCode : Nat := 8
@[simp] def numPagData : Nat := 20
@[simp] def pageSize : Nat := 4096

/-- `L_USER_START >> 12`, the same as `USER_FIRST_PAGE`. -/
@[simp] def pagLogInitCode : Nat := 256
@[simp] def pagLogInitData : Nat := pagLogInitCode + numPagCode
@[simp] def heapInitPage : Nat := pagLogInitData + numPagData
@[simp] def heapStart : Nat := heapInitPage * pageSize

@[simp] def nrTasks : Nat := 10
@[simp] def defaultQuantum : Int := 10

/-- `sizeof (struct task_struct)`: 17 words. -/
def taskStructSize : Nat := 68

/-- `sizeof (union task_union)`. -/
def taskUnionSize : Nat := 4096

/-- The capacity `N` of the keyboard's circular buffer. -/
@[simp] def bufferSize : Nat := 10

@[simp] def eperm : Int := 1
@[simp] def esrch : Int := 3
@[simp] def ebadf : Int := 9
@[simp] def eagain : Int := 11
@[simp] def enomem : Int := 12
@[simp] def efault : Int := 14
@[simp] def ebusy : Int := 16
@[simp] def einval : Int := 22
@[simp] def enosys : Int := 38

/-- The value of a C `int` after an operation whose exact result is `value`. -/
def int32 (value : Int) : Int := value.bmod (2 ^ 32)

theorem int32_of_range {value : Int} (lower : -2 ^ 31 ≤ value)
    (upper : value < 2 ^ 31) : int32 value = value := by
  unfold int32
  rw [Int.bmod_eq_of_le] <;> omega

theorem int32_range (value : Int) : -2 ^ 31 ≤ int32 value ∧ int32 value < 2 ^ 31 := by
  have lower := Int.le_bmod (x := value) (m := 2 ^ 32) (by decide)
  have upper := Int.bmod_lt (x := value) (m := 2 ^ 32) (by decide)
  unfold int32
  omega

theorem int32_succ_ne (value : Int) : int32 (value + 1) ≠ value := by
  intro same
  have congruent := Int.bmod_emod (x := value + 1) (m := 2 ^ 32)
  unfold int32 at same
  rw [same] at congruent
  omega

/-! ## Tasks, directories and queues -/

/-- An index into `task[NR_TASKS]`. -/
abbrev TaskId := Fin 10

instance nrTasks_neZero : NeZero 10 := ⟨by decide⟩

instance taskId_lawfulBEq : LawfulBEq TaskId := inferInstance

/-- An index into `dir_pages[NR_TASKS]`, and into `pagusr_table[NR_TASKS]`:
`init_dir_pages` makes directory `i` point at table `i`. -/
abbrev DirId := Fin 10

/-- An index into `semaphores[20]`. -/
abbrev SemId := Fin 20

/-- The global list heads, and the `queue` field of each semaphore. -/
inductive Queue where
  | freequeue
  | readyqueue
  | blocked
  | keyboardqueue
  | semaphore (index : SemId)
  deriving DecidableEq

/-- A `struct list_head` in memory: a list head, or the `list` field of a
PCB. -/
inductive Node where
  | head (queue : Queue)
  | pcb (task : TaskId)
  deriving DecidableEq

/-- `enum state_t`. -/
inductive State where
  | stRun
  | stReady
  | stBlocked
  deriving DecidableEq

/-- `struct stats`; every field is an `unsigned long`. -/
structure Stats where
  userTicks : UInt32 := 0
  systemTicks : UInt32 := 0
  blockedTicks : UInt32 := 0
  readyTicks : UInt32 := 0
  elapsedTotalTicks : UInt32 := 0
  totalTrans : UInt32 := 0
  remainingTicks : UInt32 := 0
  deriving DecidableEq

/-- `struct task_struct` without `list`, `kernel_esp` and `process_stats`.
The memory of the task array is zero before boot. -/
structure TaskStruct where
  pid : Int := 0
  dirPagesBaseAddr : DirId := 0
  execStatus : State := .stRun
  quantum : Int := 0
  heap : Int := 0
  heapSize : Int := 0
  heapPages : Int := 0
  deriving DecidableEq

/-- How the compiler lays out the kernel stack around the buffer of `sys_read` or
of `sys_write`: the bytes between the end of the `task_union` and the buffer
(the 16 words of the trap frame, the return address, the saved `ebp`, and what
else it puts there), and those that the calls made from there push below it. -/
structure BufferFrame where
  above : Nat
  below : Nat
  trap : 72 ≤ above

namespace BufferFrame

/-- The compiler reserves a multiple of 16 bytes for `char bufferTmp[size]`. -/
def reserved (size : Nat) : Nat := (size + 15) / 16 * 16

/-- The buffer, with what the calls push below it, lies above the PCB. -/
def Fits (f : BufferFrame) (size : Nat) : Prop :=
  f.above + reserved size + f.below ≤ taskUnionSize - taskStructSize

instance (f : BufferFrame) (size : Nat) : Decidable (f.Fits size) := by
  unfold Fits
  infer_instance

/-- Where the buffer begins: how many pages below the caller's, and at which
offset there. -/
def landing (f : BufferFrame) (size : Nat) : Nat × Nat :=
  let pages := (f.above + reserved size - 1) / taskUnionSize
  (pages, taskUnionSize * (pages + 1) - (f.above + reserved size))

end BufferFrame

/-- `struct semaphore` without its list head. -/
structure Semaphore where
  ownerPID : Int := 0
  counter : Int := 0
  semID : Int := 0
  deriving DecidableEq

/-- What a process that is switched away from has left to do when it is
switched to again: the C frames between `task_switch_asm` and the return to
user mode. -/
inductive Context where
  /-- `iret` from the clock or the keyboard handler. -/
  | interrupted
  /-- The first return of a forked or cloned child, through `ret_from_fork`. -/
  | retFromFork
  /-- The rest of `sys_sem_wait(n_sem)`, with its local `mySemID`. -/
  | semWait (nSem : SemId) (mySemID : Int)
  /-- The loop of `sys_read_keyboard(buff, n)`, called from
  `sys_read(0, buf, n)`, after the characters `stored` were put in `buff`. -/
  | readKeyboard (buf : UInt32) (n : Int) (stored : List UInt8)
  /-- The rest of `sys_exit`. -/
  | exited
  /-- The loop of `cpu_idle`. -/
  | cpuIdle
  deriving DecidableEq

/-- What the processor does between two kernel entries. -/
inductive Mode where
  /-- It runs user code, or the loop of `cpu_idle`; interrupts are enabled. -/
  | user
  /-- `task_switch_asm` has just changed the stack: the kernel goes on in the
  context of the new process, with interrupts disabled. -/
  | switched
  deriving DecidableEq

/-- A page table entry: the bits the kernel writes.  All others stay zero. -/
structure PageTableEntry where
  present : Bool := false
  rw : Bool := false
  user : Bool := false
  pbaseAddr : Nat := 0
  deriving DecidableEq

/-- The state of a byte of `phys_mem`. -/
inductive FrameState where
  | freeFrame
  | usedFrame
  deriving DecidableEq

end Zeos
