import Zeos.Devices
import Zeos.List
import Zeos.Memory

/-!
# The kernel state and the scheduler

The state of ZeOS between two statements of kernel code, the functions of
`stat_funcs.c`, and the scheduling policy of `sched.c`.

A function that calls `sched_next_rr` takes the context in which the calling
process will go on: `task_switch_asm` saves it on the old kernel stack and the
call returns only when that process is switched to again.
-/

namespace Zeos

/-- One finished call of `sys_read_keyboard`: who made it, the count it was
given and the characters it stored. -/
structure ReadRecord where
  reader : TaskId
  n : Int
  stored : List UInt8

structure Kernel where
  task : TaskId → TaskStruct
  stats : TaskId → Stats
  /-- What is saved below `kernel_esp`. -/
  context : TaskId → Context
  /-- `eax` in the trap frame of a process. -/
  eax : TaskId → Int
  links : Library.Links Node
  semaphores : SemId → Semaphore
  globalPID : Int
  globalSemID : Int
  idleTask : TaskId
  /-- The task whose page `%esp` points into, which is what `current` reads. -/
  current : TaskId
  /-- The stack around the buffer of `sys_read`, and of `sys_write`. -/
  readFrame : BufferFrame
  writeFrame : BufferFrame
  cr3 : DirId
  mode : Mode
  kbd : Keyboard
  mm : Memory
  zeosTicks : Int
  /-- The characters given to `printc`, the latest last. -/
  console : List UInt8
  /-- The successive values of `get_ticks`, and how many were read. -/
  clock : Nat → UInt32
  clockReads : Nat
  /-- History: created and not exited. -/
  live : TaskId → Bool
  /-- History: the finished keyboard reads, the latest first. -/
  readLog : List ReadRecord
  /-- History: a list operation met a null pointer, `list_del` was given an
  unlinked entry, or `list_add` or `list_add_tail` a linked one. -/
  listFault : Bool

namespace Kernel

/-! ## Lists -/

/-- Whether the `list` field of a PCB is set. -/
def linked (s : Kernel) (t : TaskId) : Bool :=
  (s.links.next (.pcb t)).isSome || (s.links.prev (.pcb t)).isSome

def listEmpty (s : Kernel) (q : Queue) : Bool :=
  Zeos.listEmpty s.links (.head q)

/-- `list_head_to_task_struct(list_first(&q))`; there is no such PCB when the
pointer does not lead to a `list` field. -/
def listFirst (s : Kernel) (q : Queue) : Option TaskId :=
  match Zeos.listFirst s.links (.head q) with
  | some (.pcb t) => some t
  | _ => none

def listAdd (s : Kernel) (t : TaskId) (q : Queue) : Kernel :=
  let result := Zeos.listAdd s.links (.pcb t) (.head q)
  { s with
    links := result.getD s.links
    listFault := s.listFault || s.linked t || result.isNone }

def listAddTail (s : Kernel) (t : TaskId) (q : Queue) : Kernel :=
  let result := Zeos.listAddTail s.links (.pcb t) (.head q)
  { s with
    links := result.getD s.links
    listFault := s.listFault || s.linked t || result.isNone }

def listDel (s : Kernel) (t : TaskId) : Kernel :=
  let result := Zeos.listDel s.links (.pcb t)
  { s with
    links := result.getD s.links
    listFault := s.listFault || result.isNone }

/-- The walk of `list_for_each` from a list head, over at most `fuel` PCBs. -/
def walk (links : Library.Links Node) : Nat → Option Node → List TaskId
  | fuel + 1, some (.pcb t) => t :: walk links fuel (links.next (.pcb t))
  | _, _ => []

/-- The PCBs linked in the list of a head, in order. -/
def sequence (links : Library.Links Node) (q : Queue) : List TaskId :=
  walk links nrTasks (links.next (.head q))

/-- The PCBs linked in a queue, in order. -/
def queue (s : Kernel) (q : Queue) : List TaskId := sequence s.links q

/-! ## PCB fields -/

def modTask (s : Kernel) (t : TaskId) (change : TaskStruct → TaskStruct) :
    Kernel :=
  { s with task := Function.update s.task t (change (s.task t)) }

def modStats (s : Kernel) (t : TaskId) (change : Stats → Stats) : Kernel :=
  { s with stats := Function.update s.stats t (change (s.stats t)) }

/-- The PCB of the current process. -/
def currentTask (s : Kernel) : TaskStruct := s.task s.current

/-! ## `stat_funcs.c` -/

/-- The common body of the accounting functions: charge the ticks since the
last transition to one counter, and read the clock again for the new time
stamp. -/
def chargeTicks (s : Kernel) (t : TaskId)
    (charge : UInt32 → Stats → Stats) : Kernel :=
  let st := s.stats t
  let charged := charge (s.clock s.clockReads - st.elapsedTotalTicks) st
  { s with
    stats := Function.update s.stats t
      { charged with elapsedTotalTicks := s.clock (s.clockReads + 1) }
    clockReads := s.clockReads + 2 }

def userToSysStats (s : Kernel) : Kernel :=
  s.chargeTicks s.current fun d st => { st with userTicks := st.userTicks + d }

def sysToUserStats (s : Kernel) : Kernel :=
  s.chargeTicks s.current fun d st =>
    { st with systemTicks := st.systemTicks + d }

def sysToReadyStats (s : Kernel) : Kernel :=
  s.chargeTicks s.current fun d st =>
    { st with systemTicks := st.systemTicks + d }

def sysToProcessStats (s : Kernel) (t : TaskId) : Kernel :=
  s.chargeTicks t fun d st => { st with readyTicks := st.readyTicks + d }

/-- `init_stats`. -/
def initStats (s : Kernel) (t : TaskId) : Kernel :=
  { s with
    stats := Function.update s.stats t
      { elapsedTotalTicks := s.clock s.clockReads
        remainingTicks := UInt32.ofInt defaultQuantum }
    clockReads := s.clockReads + 1 }

/-! ## `sched.c` -/

/-- `get_quantum`, as the unsigned `remaining_ticks` receives it. -/
def getQuantum (s : Kernel) (t : TaskId) : UInt32 :=
  UInt32.ofInt (s.task t).quantum

/-- `task_switch_asm` and `inner_task_switch`: the old process keeps `context`
on its stack, `%cr3` and `%esp` become those of `new`. -/
def taskSwitch (s : Kernel) (context : Context) (new : TaskId) : Kernel :=
  { s with
    context := Function.update s.context s.current context
    current := new
    cr3 := (s.task new).dirPagesBaseAddr
    mode := .switched }

/-- The part of `sched_next_rr` after the next process is chosen. -/
def dispatch (s : Kernel) (context : Context) (t : TaskId) : Kernel :=
  let s := s.modStats t fun st => { st with remainingTicks := s.getQuantum t }
  let s := s.sysToProcessStats t
  let s := s.modStats t fun st => { st with totalTrans := st.totalTrans + 1 }
  let s := s.modTask t fun p => { p with execStatus := .stRun }
  s.taskSwitch context t

/-- `sched_next_rr`. -/
def schedNextRr (s : Kernel) (context : Context) : Kernel :=
  if s.listEmpty .readyqueue then
    s.dispatch context s.idleTask
  else
    match s.listFirst .readyqueue with
    | some t => (s.listDel t).dispatch context t
    | none => { s with listFault := true }

/-- `update_process_state_rr`; `none` is the null `dest`. -/
def updateProcessStateRr (s : Kernel) (t : TaskId) (dest : Option Queue) :
    Kernel :=
  let s := if (s.task t).execStatus ≠ .stRun then s.listDel t else s
  match dest with
  | none => s
  | some dest =>
      let s := (s.listAddTail t dest).sysToReadyStats
      s.modTask t fun p =>
        { p with execStatus := if dest ≠ .readyqueue then .stBlocked else .stReady }

/-- `needs_sched_rr`. -/
def needsSchedRr (s : Kernel) : Bool × Kernel :=
  if (s.stats s.current).remainingTicks = 0 ∧ ¬ s.listEmpty .readyqueue then
    (true, s)
  else if (s.stats s.current).remainingTicks = 0 ∧ s.listEmpty .readyqueue then
    (false, s.modStats s.current fun st =>
      { st with
        remainingTicks := s.getQuantum s.current
        totalTrans := st.totalTrans + 1 })
  else
    (false, s)

/-- `update_sched_data_rr`. -/
def updateSchedDataRr (s : Kernel) : Kernel :=
  s.modStats s.current fun st =>
    { st with remainingTicks := st.remainingTicks - 1 }

/-- `schedule`, called by the clock handler. -/
def schedule (s : Kernel) : Kernel :=
  let (needed, s) := s.updateSchedDataRr.needsSchedRr
  if needed then
    (s.updateProcessStateRr s.current (some .readyqueue)).schedNextRr
      .interrupted
  else
    s

/-- `unblock`. -/
def unblock (s : Kernel) (t : TaskId) : Kernel :=
  let s := ((s.listDel t).listAdd t .readyqueue).sysToReadyStats
  s.modTask t fun p => { p with execStatus := .stReady }

/-- `block`. -/
def block (s : Kernel) (t : TaskId) (dest : Queue) : Kernel :=
  let s := if (s.task t).execStatus ≠ .stRun then s.listDel t else s
  let s := (s.listAddTail t dest).sysToReadyStats
  s.modTask t fun p => { p with execStatus := .stBlocked }

/-- `allocate_DIR`; the result is the return value. -/
def allocateDIR (s : Kernel) (t : TaskId) : Int × Kernel :=
  match (List.finRange nrTasks).find? (fun i => s.mm.dirCounter i = 0) with
  | some i =>
      let s := s.modTask t fun p => { p with dirPagesBaseAddr := i }
      (1, { s with mm := { s.mm with
        dirCounter := Function.update s.mm.dirCounter i (s.mm.dirCounter i + 1) } })
  | none => (-enomem, s)

end Kernel

end Zeos
