import Zeos.Heap
import Zeos.Kernel

/-!
# System calls

`sys.c`, `sys_read_keyboard` of `devices.c`, and `access_ok` of `utils.c`.

A service routine returns the value it leaves in `eax`, or `none` when it has
switched to another process; what is left of it then is the saved context.

`sys_read` and `sys_write` reserve a buffer of the caller's size on the kernel
stack, in the page of the PCB.  They are described here for sizes that fit there
(`Kernel.BuffersFit`), so that `current` is the caller throughout and no store to
the buffer reaches a PCB; `Kernel.overrun` is about the others.
-/

namespace Zeos

inductive Access where
  | verifyRead
  | verifyWrite
  deriving DecidableEq

/-- `access_ok`, in 32-bit unsigned arithmetic. -/
def accessOk (type : Access) (addr size : UInt32) : Bool :=
  let addrIni := addr.toNat / pageSize
  let addrFin := (addr + size).toNat / pageSize
  let inUser :=
    decide (addrIni ≥ pagLogInitCode) &&
      decide (addrFin ≤ pagLogInitCode + numPagCode + numPagData)
  if addrFin < addrIni then
    false
  else
    match type with
    | .verifyWrite =>
        -- the write case falls through to the read case
        (decide (addrIni ≥ pagLogInitCode + numPagCode) &&
            decide (addrFin ≤ pagLogInitCode + numPagCode + numPagData)) ||
          inUser
    | .verifyRead => inUser

/-- The bytes of an `unsigned long`, least significant first. -/
def wordBytes (word : UInt32) : List UInt8 :=
  [word.toUInt8, (word >>> 8).toUInt8, (word >>> 16).toUInt8,
    (word >>> 24).toUInt8]

/-- The bytes of a `struct stats`. -/
def Stats.bytes (st : Stats) : List UInt8 :=
  wordBytes st.userTicks ++ wordBytes st.systemTicks ++
    wordBytes st.blockedTicks ++ wordBytes st.readyTicks ++
    wordBytes st.elapsedTotalTicks ++ wordBytes st.totalTrans ++
    wordBytes st.remainingTicks

/-- `check_fd(fd, LECTURA)` and `check_fd(fd, ESCRIPTURA)`: descriptor 0 is
for reading and descriptor 1 for writing. -/
def checkFd (fd : Int) (write : Bool) : Int :=
  if fd > 1 ∨ fd < 0 then -ebadf
  else if fd = 1 ∧ ¬ write then -ebadf
  else if fd = 0 ∧ write then -ebadf
  else 0

/-- The slot `semaphores[n_sem]`, if there is one. -/
def semIndex (nSem : Int32) : Option SemId :=
  if bound : 0 ≤ nSem.toInt ∧ nSem.toInt ≤ 19 then
    some ⟨nSem.toInt.toNat, by omega⟩
  else
    none

namespace Kernel

/-- The state after `copy_to_user` wrote to the pages of the process that runs. -/
def copyToUser (s : Kernel) (values : List UInt8) (dest : UInt32) : Kernel :=
  { s with mm := Memory.copyToUser s.cr3 values dest s.mm }

/-- The way back from a service routine through `system_call_handler`: the
system time is charged, `eax` is stored in the trap frame, and `iret`. -/
def sysReturn (s : Kernel) (result : Int) : Kernel :=
  let s := s.sysToUserStats
  { s with
    eax := Function.update s.eax s.current result
    mode := .user }

/-! ## Semaphores -/

def modSem (s : Kernel) (n : SemId) (change : Semaphore → Semaphore) : Kernel :=
  { s with semaphores := Function.update s.semaphores n (change (s.semaphores n)) }

/-- `sys_sem_init`; `counter` receives an `unsigned int`. -/
def sysSemInit (s : Kernel) (nSem : Int32) (value : UInt32) : Int × Kernel :=
  match semIndex nSem with
  | none => (-einval, s)
  | some n =>
      if (s.semaphores n).ownerPID ≥ 0 then
        (-ebusy, s)
      else
        let s := { s with globalSemID := int32 (s.globalSemID + 1) }
        let s := s.modSem n fun _ =>
          { ownerPID := s.currentTask.pid
            counter := int32 value.toNat
            semID := s.globalSemID }
        (0, { s with links := initListHead s.links (.head (.semaphore n)) })

/-- `sys_sem_wait` up to the switch. -/
def sysSemWait (s : Kernel) (nSem : Int32) : Option Int × Kernel :=
  match semIndex nSem with
  | none => (some (-einval), s)
  | some n =>
      if (s.semaphores n).ownerPID < 0 then
        (some (-einval), s)
      else if (s.semaphores n).counter ≤ 0 then
        let mySemID := (s.semaphores n).semID
        (none, (s.block s.current (.semaphore n)).schedNextRr
          (.semWait n mySemID))
      else
        (some 0, s.modSem n fun sem => { sem with counter := sem.counter - 1 })

/-- The value `sys_sem_wait` returns after it was switched back to. -/
def semWaitResult (s : Kernel) (n : SemId) (mySemID : Int) : Int :=
  if (s.semaphores n).ownerPID < 0 ∨ mySemID ≠ (s.semaphores n).semID then -1
  else 0

/-- `sys_sem_signal`. -/
def sysSemSignal (s : Kernel) (nSem : Int32) : Int × Kernel :=
  match semIndex nSem with
  | none => (-einval, s)
  | some n =>
      if (s.semaphores n).ownerPID < 0 then
        (-einval, s)
      else if s.listEmpty (.semaphore n) then
        (0, s.modSem n fun sem => { sem with counter := int32 (sem.counter + 1) })
      else
        match s.listFirst (.semaphore n) with
        | some t => (0, s.unblock t)
        | none => (0, { s with listFault := true })

/-- The loop of `sys_sem_destroy`, for at most `fuel` rounds; a queue holds at
most `NR_TASKS` processes, see `releaseWaiters_queue`. -/
def releaseWaiters (n : SemId) : Nat → Kernel → Kernel
  | 0, s => s
  | fuel + 1, s =>
      if s.listEmpty (.semaphore n) then
        s
      else
        match s.listFirst (.semaphore n) with
        | some t => releaseWaiters n fuel (s.unblock t)
        | none => { s with listFault := true }

/-- `sys_sem_destroy` on a slot of the table. -/
def semDestroy (s : Kernel) (n : SemId) : Int × Kernel :=
  if (s.semaphores n).ownerPID < 0 then
    (-einval, s)
  else if s.currentTask.pid = (s.semaphores n).ownerPID then
    let s := releaseWaiters n nrTasks s
    (0, s.modSem n fun sem => { sem with ownerPID := -1, semID := -1 })
  else
    (-eperm, s)

/-- `sys_sem_destroy`. -/
def sysSemDestroy (s : Kernel) (nSem : Int32) : Int × Kernel :=
  match semIndex nSem with
  | none => (-einval, s)
  | some n => s.semDestroy n

/-! ## Processes -/

/-- One round of the first loop of `sys_exit`. -/
def exitSemaphore (s : Kernel) (n : SemId) : Kernel :=
  if (s.semaphores n).ownerPID = s.currentTask.pid then (s.semDestroy n).2
  else s

/-- The directory part of `sys_exit`: give up the use of the directory, and
free the data pages with the last one. -/
def releaseDir (mm : Memory) (pos : DirId) : Memory :=
  let mm := { mm with
    dirCounter := Function.update mm.dirCounter pos (mm.dirCounter pos - 1) }
  if mm.dirCounter pos = 0 then mm.freeUserPages pos else mm

/-- `sys_exit` between its loop and its calls of the scheduler. -/
def releaseProcess (s : Kernel) : Kernel :=
  let s := s.modTask s.current fun p => { p with pid := -1 }
  { s with
    mm := releaseDir s.mm s.currentTask.dirPagesBaseAddr
    live := Function.update s.live s.current false }

/-- `sys_exit`. -/
def sysExit (s : Kernel) : Kernel :=
  let s := ((List.finRange 20).foldl exitSemaphore s).releaseProcess
  (s.updateProcessStateRr s.current (some .freequeue)).schedNextRr .exited

/-- `copy_data(current(), uChild, sizeof(union task_union))`: the PCB, its link
fields and the kernel stack. -/
def copyUnion (s : Kernel) (child : TaskId) : Kernel :=
  { s with
    task := Function.update s.task child (s.task s.current)
    stats := Function.update s.stats child (s.stats s.current)
    context := Function.update s.context child (s.context s.current)
    eax := Function.update s.eax child (s.eax s.current)
    links :=
      (s.links.setNext (.pcb child) (s.links.next (.pcb s.current))).setPrev
        (.pcb child) (s.links.prev (.pcb s.current)) }

/-- The initialisation that `sys_fork` and `sys_clone` share: PID, quantum,
statistics and status of the child. -/
def initChild (s : Kernel) (child : TaskId) : Kernel :=
  let s := s.modTask child fun p =>
    { p with
      pid := s.globalPID
      quantum := s.currentTask.quantum
      execStatus := .stReady }
  { s.initStats child with
    globalPID := int32 (s.globalPID + 1)
    live := Function.update s.live child true }

/-- `NUM_PAG_DATA + current()->heapPages`, the number of pages a child gets. -/
def forkPages (s : Kernel) : Nat :=
  (numPagData + s.currentTask.heapPages).toNat

/-- The memory part of `sys_fork` after all frames were reserved: share the
system and code pages, copy the data pages. -/
def forkSpace (s : Kernel) (mm : Memory) (ptChild : DirId) : Memory :=
  let ptParent := s.currentTask.dirPagesBaseAddr
  let mm := mm.sharePages ptChild ptParent 0 numPagKernel
  let mm := mm.sharePages ptChild ptParent pagLogInitCode numPagCode
  mm.copyDataPages s.cr3 ptChild ptParent s.forkPages

/-- The error path of `sys_fork`, after its rollback. -/
def abandonChild (s : Kernel) (child : TaskId) (mm : Memory) : Kernel :=
  { s with mm := mm }.listAddTail child .freequeue

/-- `sys_fork` after all frames were reserved. -/
def finishFork (s : Kernel) (child : TaskId) (mm : Memory) : Kernel :=
  let s := { s with
    mm := s.forkSpace mm (s.task child).dirPagesBaseAddr
    cr3 := s.currentTask.dirPagesBaseAddr }
  let s := s.initChild child
  let s := { s with
    context := Function.update s.context child .retFromFork }
  let s := s.modTask child fun p =>
    { p with
      heapSize := s.currentTask.heapSize
      heapPages := s.currentTask.heapPages }
  s.listAddTail child .readyqueue

/-- `sys_fork` after the PCB `child` was taken from `freequeue`. -/
def forkInto (s : Kernel) (child : TaskId) : Int × Kernel :=
  -- the result of `allocate_DIR` is ignored
  let s := ((s.copyUnion child).allocateDIR child).2
  match Memory.reserveData (s.task child).dirPagesBaseAddr s.forkPages 0 s.mm with
  | (false, mm) => (-enomem, s.abandonChild child mm)
  | (true, mm) =>
      let s := s.finishFork child mm
      ((s.task child).pid, s)

/-- `sys_fork`. -/
def sysFork (s : Kernel) : Int × Kernel :=
  if s.listEmpty .freequeue then
    (-eagain, s)
  else
    match s.listFirst .freequeue with
    | some child => (s.listDel child).forkInto child
    | none => (-eagain, { s with listFault := true })

/-- `sys_clone` after the PCB `child` was taken from `freequeue`.  What the
child finds in its trap frame for `eip` and `esp` is not part of this state. -/
def cloneInto (s : Kernel) (child : TaskId) : Int × Kernel :=
  let s := (s.copyUnion child).initChild child
  let s := s.modTask child fun p => { p with heapSize := 0 }
  let s := s.listAddTail child .readyqueue
  let pos := s.currentTask.dirPagesBaseAddr
  let s := { s with
    mm := { s.mm with
      dirCounter :=
        Function.update s.mm.dirCounter pos (s.mm.dirCounter pos + 1) }
    context := Function.update s.context child .retFromFork }
  ((s.task child).pid, s)

/-- `sys_clone`. -/
def sysClone (s : Kernel) (function stack : UInt32) : Int × Kernel :=
  if ¬ accessOk .verifyWrite stack 4 ∨ ¬ accessOk .verifyRead function 4 then
    (-efault, s)
  else if s.listEmpty .freequeue then
    (-eagain, s)
  else
    match s.listFirst .freequeue with
    | some child => (s.listDel child).cloneInto child
    | none => (-eagain, { s with listFault := true })

/-- `sys_sbrk` by the current process. -/
def sysSbrk (s : Kernel) (increment : Int32) : Int × Kernel :=
  let (result, t, mm) := Zeos.sysSbrk increment s.currentTask s.mm
  (result, { s with
    task := Function.update s.task s.current t
    mm := mm })

/-- `sys_get_stats`. -/
def sysGetStats (s : Kernel) (pid : Int32) (st : UInt32) : Int × Kernel :=
  if pid.toInt < 0 then
    (-einval, s)
  else if st = 0 then
    (-efault, s)
  else if ¬ accessOk .verifyWrite st 28 then
    (-efault, s)
  else if pid.toInt = s.currentTask.pid then
    (0, s.copyToUser (s.stats s.current).bytes st)
  else
    match (List.finRange nrTasks).find? (fun i => (s.task i).pid = pid.toInt) with
    | some i =>
        let s := s.modStats i fun found =>
          { found with remainingTicks := (s.stats s.current).remainingTicks }
        (0, s.copyToUser (s.stats i).bytes st)
    | none => (-esrch, s)

/-! ## Read and write -/

/-- The rest of `sys_read` after `sys_read_keyboard` stored all characters. -/
def finishRead (s : Kernel) (buf : UInt32) (n : Int)
    (stored : List UInt8) : Int × Kernel :=
  let s := { s with readLog := ⟨s.current, n, stored⟩ :: s.readLog }
  (stored.length, s.copyToUser stored buf)

/-- The loop of `sys_read_keyboard` with the characters `stored` so far: one
round, after which the reader has finished or is blocked again, this time at
the front of the queue. -/
def readLoop (s : Kernel) (buf : UInt32) (n : Int)
    (stored : List UInt8) : Option Int × Kernel :=
  if (stored.length : Int) < n then
    let (cs, kbd) := Keyboard.drain bufferSize s.kbd
    let s := { s with kbd := kbd }
    let stored := stored ++ cs
    if (stored.length : Int) < n then
      let s := (s.listAdd s.current .keyboardqueue).sysToReadyStats
      let s := s.modTask s.current fun p => { p with execStatus := .stBlocked }
      (none, s.schedNextRr (.readKeyboard buf n stored))
    else
      let (result, s) := s.finishRead buf n stored
      (some result, s)
  else
    let (result, s) := s.finishRead buf n stored
    (some result, s)

/-- `sys_read_keyboard`, called from `sys_read` with `%esp` in the page of
`current`. -/
def sysReadKeyboard (s : Kernel) (buf : UInt32) (n : Int) :
    Option Int × Kernel :=
  let s := { s with kbd := { s.kbd with leftToRead := n } }
  if ¬ s.listEmpty .keyboardqueue ∨ s.kbd.cbIsEmpty then
    (none, (s.block s.current .keyboardqueue).schedNextRr
      (.readKeyboard buf n []))
  else
    s.readLoop buf n []

/-- The arguments pass the checks of `sys_read`. -/
def ReadAccepted (fd : Int32) (buf : UInt32) (count : Int32) : Prop :=
  accessOk .verifyWrite buf count.toUInt32 = true ∧
    0 ≤ checkFd fd.toInt false ∧ buf ≠ 0 ∧ 0 ≤ count.toInt

instance (fd : Int32) (buf : UInt32) (count : Int32) :
    Decidable (ReadAccepted fd buf count) := by
  unfold ReadAccepted
  infer_instance

/-- `sys_read`, for a `bufferTmp` that fits its stack page. -/
def sysRead (s : Kernel) (fd : Int32) (buf : UInt32) (count : Int32) :
    Option Int × Kernel :=
  let tmp := checkFd fd.toInt false
  if ¬ accessOk .verifyWrite buf count.toUInt32 then (some (-efault), s)
  else if tmp < 0 then (some tmp, s)
  else if buf = 0 then (some (-efault), s)
  else if count.toInt < 0 then (some (-einval), s)
  else s.sysReadKeyboard buf count.toInt

/-- One round of the loop of `sys_write`: a chunk of at most 2048 bytes. -/
def writeChunk (buffer : UInt32) (size : Nat) (progress : Int × Kernel)
    (chunk : Nat) : Int × Kernel :=
  let (ret, s) := progress
  let i := 2048 * chunk
  let length := min 2048 (size - i)
  match s.mm.copyFromUser s.cr3 length (buffer + UInt32.ofNat i) with
  | some values => (ret + length, { s with console := s.console ++ values })
  | none => (ret, { s with mm := { s.mm with fault := true } })

/-- `sys_write`, for a `bufferTmp` that fits its stack page. -/
def sysWrite (s : Kernel) (fd : Int32) (buffer : UInt32) (size : Int32) :
    Int × Kernel :=
  let tmp := checkFd fd.toInt true
  if tmp < 0 then (tmp, s)
  else if buffer = 0 then (-efault, s)
  else if size.toInt < 0 then (-einval, s)
  else
    let size := size.toInt.toNat
    (List.range ((size + 2047) / 2048)).foldl (writeChunk buffer size) (0, s)

end Kernel

/-- The arguments pass the checks of `sys_write`. -/
def WriteAccepted (fd : Int32) (buffer : UInt32) (size : Int32) : Prop :=
  0 ≤ checkFd fd.toInt true ∧ buffer ≠ 0 ∧ 0 ≤ size.toInt

instance (fd : Int32) (buffer : UInt32) (size : Int32) :
    Decidable (WriteAccepted fd buffer size) := by
  unfold WriteAccepted
  infer_instance

end Zeos
