import Zeos.Library.Observers
import Zeos.Sys

/-!
# Boot and the events

The interrupt routines of `interrupt.c`, the initialisation of `system.c`, and
the system as a step function: what happens at one interrupt, at one system
call, or when a process that was switched to goes on in the kernel.

Kernel code runs with interrupts disabled, so an interrupt or a system call
happens only while user code or the idle loop runs, and the kernel then runs
until it returns there or switches to another process.  The idle process makes
no system calls.
-/

namespace Zeos

/-- `char_map`. -/
def charMap : List UInt8 :=
  [0, 0, 49, 50, 51, 52, 53, 54,
    55, 56, 57, 48, 39, 161, 0, 0,
    113, 119, 101, 114, 116, 121, 117, 105,
    111, 112, 96, 43, 0, 0, 97, 115,
    100, 102, 103, 104, 106, 107, 108, 241,
    0, 186, 0, 231, 122, 120, 99, 118,
    98, 110, 109, 44, 46, 45, 0, 42,
    0, 0, 0, 0, 0, 0, 0, 0,
    0, 0, 0, 0, 0, 0, 0, 55,
    56, 57, 45, 52, 53, 54, 43, 49,
    50, 51, 48, 0, 0, 0, 60, 0,
    0, 0, 0, 0, 0, 0, 0, 0,
    0, 0]

/-- The character of a scancode.  Scancodes from 98 on index past the end of
`char_map`; `beyond` is the byte that lies there. -/
def charOfScancode (scancode beyond : UInt8) : UInt8 :=
  charMap.getD (scancode &&& 0x7F).toNat beyond

namespace Kernel

/-- The condition under which `keyboard_routine` wakes the first reader. -/
def wakesReader (kb : Keyboard) : Bool :=
  kb.cbfull || decide (kb.leftToRead ≥ kb.charsInCirc)

/-- The keyboard buffer after the character of a key was handled; a control key
(character 0) only prints a `C`. -/
def keyStored (s : Kernel) (c : UInt8) : Keyboard :=
  if c = 0 then s.kbd else (s.kbd.putC c (!s.listEmpty .keyboardqueue)).2

/-- `keyboard_routine`, for the scancode read from port 0x60. -/
def keyboardRoutine (s : Kernel) (scancode beyond : UInt8) : Kernel :=
  if scancode &&& 0x80 ≠ 0 then
    let s := { s with kbd := s.keyStored (charOfScancode scancode beyond) }
    if wakesReader s.kbd ∧ ¬ s.listEmpty .keyboardqueue then
      match s.listFirst .keyboardqueue with
      | some t => (s.unblock t).schedNextRr .interrupted
      | none => { s with listFault := true }
    else
      s
  else
    s

/-- `clock_routine`. -/
def clockRoutine (s : Kernel) : Kernel :=
  { s with zeosTicks := int32 (s.zeosTicks + 1) }.schedule

end Kernel

/-! ## Events -/

/-- A system call with its arguments. -/
inductive Syscall where
  | exit
  | fork
  | read (fd : Int32) (buf : UInt32) (count : Int32)
  | write (fd : Int32) (buffer : UInt32) (size : Int32)
  | gettime
  | sbrk (increment : Int32)
  | clone (function stack : UInt32)
  | getpid
  | semInit (nSem : Int32) (value : UInt32)
  | semWait (nSem : Int32)
  | semSignal (nSem : Int32)
  | semDestroy (nSem : Int32)
  | getStats (pid : Int32) (st : UInt32)
  /-- A number whose table entry is `sys_ni_syscall`. -/
  | niSyscall
  deriving DecidableEq

inductive Event where
  | clock
  | keyboard (scancode beyond : UInt8)
  | syscall (call : Syscall)
  /-- `int 0x80` with a number that `system_call_handler` rejects. -/
  | badSyscall
  /-- The process that was switched to goes on in the kernel. -/
  | resume
  deriving DecidableEq

namespace Kernel

/-- The service routine of a system call. -/
def service (s : Kernel) : Syscall → Option Int × Kernel
  | .exit => (none, s.sysExit)
  | .fork => (some s.sysFork.1, s.sysFork.2)
  | .read fd buf count => s.sysRead fd buf count
  | .write fd buffer size =>
      (some (s.sysWrite fd buffer size).1, (s.sysWrite fd buffer size).2)
  | .gettime => (some s.zeosTicks, s)
  | .sbrk increment => (some (s.sysSbrk increment).1, (s.sysSbrk increment).2)
  | .clone function stack =>
      (some (s.sysClone function stack).1, (s.sysClone function stack).2)
  | .getpid => (some s.currentTask.pid, s)
  | .semInit nSem value =>
      (some (s.sysSemInit nSem value).1, (s.sysSemInit nSem value).2)
  | .semWait nSem => s.sysSemWait nSem
  | .semSignal nSem => (some (s.sysSemSignal nSem).1, (s.sysSemSignal nSem).2)
  | .semDestroy nSem =>
      (some (s.sysSemDestroy nSem).1, (s.sysSemDestroy nSem).2)
  | .getStats pid st =>
      (some (s.sysGetStats pid st).1, (s.sysGetStats pid st).2)
  | .niSyscall => (some (-enosys), s)

/-- Return to user mode with a result, unless the routine switched away. -/
def complete : Option Int × Kernel → Kernel
  | (some result, s) => s.sysReturn result
  | (none, s) => s

/-- `system_call_handler` for a number in the table. -/
def systemCall (s : Kernel) (call : Syscall) : Kernel :=
  complete (s.userToSysStats.service call)

/-- What the current process does after `task_switch_asm` returns in its
context. -/
def resume (s : Kernel) : Kernel :=
  match s.context s.current with
  | .interrupted => { s with mode := .user }
  | .cpuIdle => { s with mode := .user }
  | .retFromFork => s.sysReturn 0
  | .semWait n mySemID => s.sysReturn (s.semWaitResult n mySemID)
  | .readKeyboard buf n stored => complete (s.readLoop buf n stored)
  -- `sys_exit` would return to the gate, but its context is never resumed
  | .exited => s.sysReturn 0

/-- The kernel's reaction to an event that can happen in this state, if the buffer
that it reserves or goes on with fits the stack. -/
def handle (s : Kernel) : Event → Option Kernel
  | .clock => if s.mode = .user then some s.clockRoutine else none
  | .keyboard scancode beyond =>
      if s.mode = .user then some (s.keyboardRoutine scancode beyond) else none
  | .syscall call =>
      if s.mode = .user ∧ s.current ≠ s.idleTask then some (s.systemCall call)
      else none
  | .badSyscall =>
      if s.mode = .user ∧ s.current ≠ s.idleTask then
        some { s with eax := Function.update s.eax s.current (-enosys) }
      else none
  | .resume => if s.mode = .switched then some s.resume else none

/-! ## Buffers on the kernel stack -/

/-- The buffer on the stack at an event: its frame and its size. -/
def buffer (s : Kernel) : Event → Option (BufferFrame × Nat)
  | .syscall (.read fd buf count) =>
      if ReadAccepted fd buf count then some (s.readFrame, count.toInt.toNat) else none
  | .syscall (.write fd buffer size) =>
      if WriteAccepted fd buffer size then some (s.writeFrame, size.toInt.toNat) else none
  | .resume =>
      match s.context s.current with
      | .readKeyboard _ n _ => some (s.readFrame, n.toNat)
      | _ => none
  | _ => none

/-- The buffer of an accepted `read` or `write`, and of a `read` that goes on, fits
between the PCB and the frames above it, with the frames of the calls below it. -/
def BuffersFit (s : Kernel) (event : Event) : Prop :=
  ∀ reserved ∈ s.buffer event, reserved.1.Fits reserved.2

instance (s : Kernel) (event : Event) : Decidable (s.BuffersFit event) := by
  unfold BuffersFit
  infer_instance

/-- The task that `current` gives when `%esp` is so many pages below the page of
the running one.  Below the first there is a page that is not present. -/
def taskBelow (s : Kernel) (pages : Nat) : Option TaskId :=
  if pages ≤ s.current.val then
    some ⟨s.current.val - pages, Nat.lt_of_le_of_lt (Nat.sub_le _ _) s.current.isLt⟩
  else
    none

/-- A read that waits.  Where one that does not fit its page returns, its frames
lie under those of another process, which is not described here. -/
def waiting : Option Int × Kernel → Option Kernel
  | (none, s) => some s
  | (some _, _) => none

/-- The reaction to an accepted `read` whose buffer does not fit, and to its
resumption, as long as its frames and the characters it stores lie between the PCB
and the trap frame of one page.  `current` is the task of that page: `block` links
its PCB, and the switch saves `kernel_esp` there.  What a `write` leaves of the PCB
that it runs over is not described. -/
def overrun (s : Kernel) : Event → Option Kernel
  | .syscall (.read _ buf count) =>
      let (pages, offset) := s.readFrame.landing count.toInt.toNat
      if s.mode = .user ∧ s.current ≠ s.idleTask ∧
          taskStructSize + s.readFrame.below ≤ offset ∧ offset + 64 ≤ taskUnionSize then
        (s.taskBelow pages).bind fun t =>
          waiting ({ s.userToSysStats with current := t }.sysReadKeyboard buf count.toInt)
      else
        none
  | .resume =>
      match s.context s.current with
      | .readKeyboard buf n stored =>
          if s.mode = .switched ∧
              (s.readFrame.landing n.toNat).2 + stored.length + bufferSize + 64 ≤
                taskUnionSize then
            waiting (s.readLoop buf n stored)
          else
            none
      | _ => none
  | _ => none

/-- One step of the kernel, also where a buffer does not fit.  A run ends at a
memory exception in the kernel, and is not followed behind an entry outside a page
table. -/
def advance (s : Kernel) (event : Event) : Option Kernel :=
  if s.BuffersFit event then
    (s.handle event).bind fun after => if after.mm.fault then none else some after
  else
    s.overrun event

/-- One step of the system: one of the kernel in which the buffers fit. -/
def step (s : Kernel) (event : Event) : Option Kernel :=
  Library.guarded advance BuffersFit s event

theorem step_eq_some {s s' : Kernel} {event : Event} :
    s.step event = some s' ↔
      s.BuffersFit event ∧ s.handle event = some s' ∧ s'.mm.fault = false := by
  unfold step Library.guarded advance
  by_cases fits : s.BuffersFit event
  · rw [if_pos fits, if_pos fits, Option.bind_eq_some_iff]
    constructor
    · rintro ⟨after, handled, finished⟩
      split_ifs at finished with fault
      cases finished
      exact ⟨fits, handled, by simpa using fault⟩
    · rintro ⟨_, handled, noFault⟩
      exact ⟨s', handled, by rw [noFault, if_neg Bool.false_ne_true]⟩
  · rw [if_neg fits]
    exact iff_of_false nofun fun able => fits able.1

theorem handle_of_step {s s' : Kernel} {event : Event} (taken : s.step event = some s') :
    s.handle event = some s' :=
  (step_eq_some.mp taken).2.1

theorem fault_of_step {s s' : Kernel} {event : Event} (taken : s.step event = some s') :
    s'.mm.fault = false :=
  (step_eq_some.mp taken).2.2

theorem fits_of_none {s : Kernel} {event : Event} (none : s.buffer event = none) :
    s.BuffersFit event := by
  unfold BuffersFit
  rw [none]
  exact nofun

/-- An event without a buffer is taken if the kernel handles it. -/
theorem step_of_handle {s s' : Kernel} {event : Event} (none : s.buffer event = none)
    (handled : s.handle event = some s') (noFault : s'.mm.fault = false) :
    s.step event = some s' :=
  step_eq_some.mpr ⟨fits_of_none none, handled, noFault⟩

/-! ## Boot -/

end Kernel

/-- What boot does not fix: the readings of the clock, the first page of the task
array, which the linker puts among the kernel's pages, and the frames that the
compiler makes of `sys_read` and `sys_write`. -/
structure BootImage where
  clock : Nat → UInt32
  taskPage : Nat
  taskPage_pos : 0 < taskPage
  taskPage_lt : taskPage + 11 < numPagKernel
  readFrame : BufferFrame
  writeFrame : BufferFrame

/-- An image on a machine whose clock stands still, with the task array at page 22
and the frames of the kernel that comes with the sources. -/
def sampleImage : BootImage where
  clock _ := 0
  taskPage := 22
  taskPage_pos := by decide
  taskPage_lt := by decide
  readFrame := ⟨96, 160, by decide⟩
  writeFrame := ⟨112, 80, by decide⟩

namespace Kernel

/-- Memory as the loader leaves it: every PCB and list head is zero. -/
def zeroed (image : BootImage) : Kernel where
  task _ := {}
  stats _ := {}
  context _ := .exited
  eax _ := 0
  links := ⟨fun _ => none, fun _ => none⟩
  semaphores _ := {}
  globalPID := 2
  globalSemID := -1
  idleTask := 0
  current := 0
  readFrame := image.readFrame
  writeFrame := image.writeFrame
  cr3 := 0
  mode := .user
  kbd := Keyboard.initial
  mm := Memory.initMm image.taskPage
  zeosTicks := 0
  console := []
  clock := image.clock
  clockReads := 0
  live _ := false
  readLog := []
  listFault := false

/-- `init_sched`. -/
def initSched (s : Kernel) : Kernel :=
  let s := { s with
    semaphores := fun n => { s.semaphores n with ownerPID := -1 }
    links := initListHead (initListHead (initListHead (initListHead s.links
      (.head .freequeue)) (.head .readyqueue)) (.head .blocked))
      (.head .keyboardqueue) }
  (List.finRange nrTasks).foldl (fun s i => s.listAddTail i .freequeue) s

/-- The part that `init_idle` and `init_task1` share: take a PCB from
`freequeue` and initialise it. -/
def initTask (s : Kernel) (t : TaskId) (pid : Int) : Kernel :=
  let s := (s.listDel t).modTask t fun p =>
    { p with pid := pid, quantum := defaultQuantum, heapSize := 0 }
  let s := ((s.initStats t).allocateDIR t).2
  { s with live := Function.update s.live t true }

/-- `init_idle`. -/
def initIdle (s : Kernel) : Kernel :=
  match s.listFirst .freequeue with
  | some t =>
      let s := { s with idleTask := t }.initTask t 0
      { s with context := Function.update s.context t .cpuIdle }
  | none => { s with listFault := true }

/-- `init_task1`; `tss.esp0` makes its stack the one that the first trap
uses. -/
def initTask1 (s : Kernel) : Kernel :=
  match s.listFirst .freequeue with
  | some t =>
      let s := s.initTask t 1
      { s with
        mm := s.mm.setUserPages (s.task t).dirPagesBaseAddr
        cr3 := (s.task t).dirPagesBaseAddr
        current := t }
  | none => { s with listFault := true }

end Kernel

/-- The state when `main` enters user mode. -/
def boot (image : BootImage) : Kernel :=
  (Kernel.zeroed image).initSched.initIdle.initTask1

/-- The states of every run from boot whose buffers fit. -/
abbrev Reachable (image : BootImage) (s : Kernel) : Prop :=
  Library.Reach Kernel.step (fun _ _ => True) (boot image) s

/-- The states of the runs from boot whose steps all meet a condition. -/
abbrev ReachableUnder (allowed : Kernel → Event → Prop) (image : BootImage)
    (s : Kernel) : Prop :=
  Library.Reach Kernel.step allowed (boot image) s

/-- The observed runs are those of the kernel in which all buffers fit. -/
theorem Kernel.observe_fitting_iff {γ : Type} {watch : Kernel → Event → Kernel → γ → γ}
    {first last : Kernel} {blank record : γ} :
    Library.Observe Kernel.step watch (fun _ _ => True) first blank last record ↔
      Library.Observe Kernel.advance watch Kernel.BuffersFit first blank last record := by
  have guarded : Kernel.step = Library.guarded Kernel.advance Kernel.BuffersFit := rfl
  rw [guarded, Library.observe_guarded_iff]
  constructor
  · exact fun run => run.mono fun _ _ condition => condition.1
  · exact fun run => run.mono fun _ _ fits => ⟨fits, trivial⟩

/-- The runs from boot are those of the kernel in which all buffers fit. -/
theorem reachable_iff {image : BootImage} {s : Kernel} :
    Reachable image s ↔ Library.Reach Kernel.advance Kernel.BuffersFit (boot image) s := by
  have guarded : Kernel.step = Library.guarded Kernel.advance Kernel.BuffersFit := rfl
  rw [Reachable, guarded, Library.reach_guarded_iff]
  constructor
  · exact fun run => run.mono fun _ _ condition => condition.1
  · exact fun run => run.mono fun _ _ fits => ⟨fits, trivial⟩

end Zeos
