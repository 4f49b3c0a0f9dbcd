import Zeos.Sched.Reachable
import Zeos.Space.Break

/-!
# What a step does to the address spaces

`SpaceEffect` is the inversion of one step for memory: only `sys_exit`,
`sys_fork`, `sys_clone` and `sys_sbrk` change page tables, the frame map, the
use counts of directories or the heap fields of a PCB.
-/

namespace Zeos

/-- Two PCBs have the same directory and heap. -/
structure SameRegion (t t' : TaskStruct) : Prop where
  dirPagesBaseAddr : t'.dirPagesBaseAddr = t.dirPagesBaseAddr
  heap : t'.heap = t.heap
  heapSize : t'.heapSize = t.heapSize
  heapPages : t'.heapPages = t.heapPages

theorem SameRegion.refl (t : TaskStruct) : SameRegion t t :=
  ⟨rfl, rfl, rfl, rfl⟩

theorem SameRegion.trans {t t' t'' : TaskStruct} (first : SameRegion t t')
    (second : SameRegion t' t'') : SameRegion t t'' where
  dirPagesBaseAddr := second.dirPagesBaseAddr.trans first.dirPagesBaseAddr
  heap := second.heap.trans first.heap
  heapSize := second.heapSize.trans first.heapSize
  heapPages := second.heapPages.trans first.heapPages

/-- Two memories have the same tables, frame map and use counts. -/
structure SameTables (mm mm' : Memory) : Prop where
  pagusrTable : mm'.pagusrTable = mm.pagusrTable
  physMem : mm'.physMem = mm.physMem
  dirCounter : mm'.dirCounter = mm.dirCounter

theorem SameTables.refl (mm : Memory) : SameTables mm mm := ⟨rfl, rfl, rfl⟩

theorem SameTables.trans {mm mm' mm'' : Memory} (first : SameTables mm mm')
    (second : SameTables mm' mm'') : SameTables mm mm'' where
  pagusrTable := second.pagusrTable.trans first.pagusrTable
  physMem := second.physMem.trans first.physMem
  dirCounter := second.dirCounter.trans first.dirCounter

namespace Kernel

variable {s s' s'' : Kernel} {event : Event} {child : TaskId}

/-- No address space differs. -/
structure SameSpace (s s' : Kernel) : Prop where
  region : ∀ t, SameRegion (s.task t) (s'.task t)
  live : s'.live = s.live
  tables : SameTables s.mm s'.mm

namespace SameSpace

theorem refl (s : Kernel) : s.SameSpace s :=
  ⟨fun _ => .refl _, rfl, .refl _⟩

theorem trans (first : s.SameSpace s') (second : s'.SameSpace s'') :
    s.SameSpace s'' where
  region t := (first.region t).trans (second.region t)
  live := second.live.trans first.live
  tables := first.tables.trans second.tables

theorem of_keeps (keeps : s.Keeps s') : s.SameSpace s' where
  region t := by
    rw [keeps.task t]
    exact ⟨rfl, rfl, rfl, rfl⟩
  live := keeps.live
  tables := by
    rw [keeps.mm]
    exact .refl _

/-- A change outside the PCBs and memory. -/
theorem of_eq (task : s'.task = s.task) (live : s'.live = s.live)
    (mm : s'.mm = s.mm) : s.SameSpace s' where
  region t := by
    rw [task]
    exact .refl _
  live := live
  tables := by
    rw [mm]
    exact .refl _

end SameSpace

/-- What `allocate_DIR` gives a child: a directory that nobody uses, or, when
all are in use, nothing, so that the child keeps its parent's. -/
inductive ForkDir (s : Kernel) : DirId → (DirId → Int) → Prop
  | found {i : DirId} :
      s.mm.dirCounter i = 0 →
      ForkDir s i (Function.update s.mm.dirCounter i 1)
  | inherited :
      (∀ i, s.mm.dirCounter i ≠ 0) →
      ForkDir s s.currentTask.dirPagesBaseAddr s.mm.dirCounter

/-- The directory that `allocate_DIR` looks for: the first whose use count is
zero. -/
def unusedDir (s : Kernel) : Option DirId :=
  (List.finRange nrTasks).find? fun i => s.mm.dirCounter i = 0

/-- A fork that takes a free PCB: the child is a copy of the caller with a
directory of its own, if there is one. -/
structure ForkTaken (s : Kernel) (child : TaskId) (dir : DirId)
    (uses : DirId → Int) (s' : Kernel) : Prop where
  member : child ∈ s.queue .freequeue
  different : child ≠ s.current
  directory : s.ForkDir dir uses
  others : ∀ t, t ≠ child → SameRegion (s.task t) (s'.task t)
  own : SameRegion { s.currentTask with dirPagesBaseAddr := dir }
    (s'.task child)
  chosen : dir = s.unusedDir.getD s.currentTask.dirPagesBaseAddr

/-- The effect of an event on the address spaces. -/
inductive SpaceEffect (s : Kernel) : Event → Kernel → Prop
  | same {event : Event} {s' : Kernel} :
      s.SameSpace s' →
      SpaceEffect s event s'
  | exited {mm : Memory} {s' : Kernel} :
      SameTables s.mm mm →
      (∀ t, SameRegion (s.task t) (s'.task t)) →
      s'.live = Function.update s.live s.current false →
      s'.mm = releaseDir mm s.currentTask.dirPagesBaseAddr →
      SpaceEffect s (.syscall .exit) s'
  | forkFailed {child : TaskId} {dir : DirId} {uses : DirId → Int} {mm : Memory}
      {s' : Kernel} :
      s.ForkTaken child dir uses s' →
      Memory.reserveData dir s.forkPages 0 { s.mm with dirCounter := uses } =
        (false, mm) →
      s'.live = s.live →
      s'.mm = mm →
      SpaceEffect s (.syscall .fork) s'
  | forked {child : TaskId} {dir : DirId} {uses : DirId → Int} {mm : Memory}
      {s' : Kernel} :
      s.ForkTaken child dir uses s' →
      Memory.reserveData dir s.forkPages 0 { s.mm with dirCounter := uses } =
        (true, mm) →
      s'.live = Function.update s.live child true →
      s'.mm = s.forkSpace mm dir →
      SpaceEffect s (.syscall .fork) s'
  | cloned {function stack : UInt32} {child : TaskId} {s' : Kernel} :
      child ∈ s.queue .freequeue →
      child ≠ s.current →
      (∀ t, t ≠ child → SameRegion (s.task t) (s'.task t)) →
      SameRegion { s.currentTask with heapSize := 0 } (s'.task child) →
      s'.live = Function.update s.live child true →
      s'.mm = { s.mm with
        dirCounter := Function.update s.mm.dirCounter
          s.currentTask.dirPagesBaseAddr
          (s.mm.dirCounter s.currentTask.dirPagesBaseAddr + 1) } →
      SpaceEffect s (.syscall (.clone function stack)) s'
  | moved {increment : Int32} {s' : Kernel} :
      (∀ t, t ≠ s.current → SameRegion (s.task t) (s'.task t)) →
      SameRegion (Zeos.sysSbrk increment s.currentTask s.mm).2.1
        (s'.task s.current) →
      s'.live = s.live →
      s'.mm = (Zeos.sysSbrk increment s.currentTask s.mm).2.2 →
      SpaceEffect s (.syscall (.sbrk increment)) s'

/-- `sys_sbrk` changes no directory. -/
theorem moved_dirs {increment : Int32}
    (others : ∀ t, t ≠ s.current → SameRegion (s.task t) (s'.task t))
    (own : SameRegion (Zeos.sysSbrk increment s.currentTask s.mm).2.1
      (s'.task s.current)) (t : TaskId) :
    (s'.task t).dirPagesBaseAddr = (s.task t).dirPagesBaseAddr := by
  by_cases isCurrent : t = s.current
  · rw [isCurrent, own.dirPagesBaseAddr]
    exact (HeapOnly.sysSbrk _ _ _).dirPagesBaseAddr
  · exact (others t isCurrent).dirPagesBaseAddr

/-! ## Calls that leave the address spaces alone -/

theorem SameSpace.enter (s : Kernel) : s.SameSpace s.userToSysStats :=
  .of_eq rfl rfl rfl

theorem SameSpace.returned (same : s.SameSpace s') (result : Int) :
    s.SameSpace (s'.sysReturn result) :=
  same.trans (.of_eq rfl rfl rfl)

/-- Only the contents of memory differ. -/
theorem SameSpace.contents {ram : Nat → Nat → UInt8} {fault : Bool}
    (task : s'.task = s.task) (live : s'.live = s.live)
    (mm : s'.mm = { s.mm with ram := ram, fault := fault }) :
    s.SameSpace s' where
  region t := by
    rw [task]
    exact .refl _
  live := live
  tables := by
    rw [mm]
    exact ⟨rfl, rfl, rfl⟩

theorem finishRead_sameSpace (s : Kernel) (buf : UInt32) (n : Int)
    (stored : List UInt8) : s.SameSpace (s.finishRead buf n stored).2 := by
  obtain ⟨ram, fault, copied⟩ := Memory.copyToUser_cases s.cr3 stored buf s.mm
  exact .contents rfl rfl copied

theorem readLoop_sameSpace (s : Kernel) (buf : UInt32) (n : Int)
    (stored : List UInt8) : s.SameSpace (complete (s.readLoop buf n stored)) := by
  rw [readLoop_eq]
  dsimp only
  have taken : s.SameSpace { s with kbd := (deliver n stored s.kbd).2 } :=
    .of_eq rfl rfl rfl
  split_ifs
  · apply taken.trans
    have queued : ({ s with kbd := (deliver n stored s.kbd).2 } : Kernel).Keeps
        (({ s with kbd := (deliver n stored s.kbd).2 }.listAdd s.current
          .keyboardqueue).sysToReadyStats) :=
      ⟨fun _ => rfl, rfl, rfl, rfl, rfl, rfl⟩
    have marked := queued.trans (Keeps.modTask _ s.current .stBlocked)
    exact .of_keeps (marked.trans (Keeps.schedNextRr _ _))
  · apply SameSpace.returned
    exact taken.trans (finishRead_sameSpace _ buf n _)

theorem read_sameSpace (orderly : s.Orderly) (fd : Int32) (buf : UInt32)
    (count : Int32) :
    s.SameSpace (s.systemCall (.read fd buf count)) := by
  apply (SameSpace.enter s).trans
  change SameSpace _ (complete (s.userToSysStats.sysRead fd buf count))
  rcases sysRead_cases orderly.userToSysStats.cbIsEmpty fd buf count with
    ⟨_, result, failed⟩ | ⟨_, waits⟩
  · rw [failed]
    exact (SameSpace.refl _).returned result
  · rw [waits]
    have asking : s.userToSysStats.SameSpace { s.userToSysStats with
        kbd := { s.userToSysStats.kbd with leftToRead := count.toInt } } :=
      .of_eq rfl rfl rfl
    exact asking.trans (.of_keeps
      ((Keeps.block _ _ _).trans (Keeps.schedNextRr _ _)))

theorem semWait_sameSpace (s : Kernel) (nSem : Int32) :
    s.SameSpace (s.systemCall (.semWait nSem)) := by
  apply (SameSpace.enter s).trans
  have keeps := SameSpace.of_keeps (sysSemWait_keeps s.userToSysStats nSem)
  change SameSpace _ (complete (s.userToSysStats.sysSemWait nSem))
  cases answer : s.userToSysStats.sysSemWait nSem with
  | mk result after =>
      rw [answer] at keeps
      cases result with
      | none => exact keeps
      | some value => exact keeps.returned value

theorem keyboard_sameSpace (s : Kernel) (scancode beyond : UInt8) :
    s.SameSpace (s.keyboardRoutine scancode beyond) := by
  unfold keyboardRoutine
  split_ifs with make
  · have typed : s.SameSpace
        { s with kbd := s.keyStored (charOfScancode scancode beyond) } :=
      .of_eq rfl rfl rfl
    dsimp only
    split_ifs
    · split
      · exact typed.trans (.of_keeps
          ((Keeps.unblock _ _).trans (Keeps.schedNextRr _ _)))
      · exact .of_eq rfl rfl rfl
    · exact typed
  · exact .refl s

theorem resume_sameSpace (s : Kernel) : s.SameSpace s.resume := by
  unfold resume
  split
  · exact .of_eq rfl rfl rfl
  · exact .of_eq rfl rfl rfl
  · exact .of_eq rfl rfl rfl
  · exact .of_eq rfl rfl rfl
  · exact readLoop_sameSpace s _ _ _
  · exact .of_eq rfl rfl rfl

/-! ## `sys_exit`, `sys_fork`, `sys_clone` and `sys_sbrk` -/

theorem releaseProcess_region (s : Kernel) (t : TaskId) :
    SameRegion (s.task t) (s.releaseProcess.task t) := by
  by_cases isCurrent : t = s.current
  · subst isCurrent
    constructor <;> simp [releaseProcess, modTask]
  · constructor <;> simp [releaseProcess, modTask, isCurrent]

/-- What is left of a process that exits. -/
theorem exit_state (orderly : s.Orderly) (busy : s.current ≠ s.idleTask) :
    (∀ t, SameRegion (s.task t) ((s.systemCall .exit).task t)) ∧
      (∀ t, t ≠ s.current →
        ((s.systemCall .exit).task t).pid = (s.task t).pid) ∧
      (s.systemCall .exit).live = Function.update s.live s.current false ∧
      (s.systemCall .exit).mm =
        releaseDir s.mm s.currentTask.dirPagesBaseAddr := by
  have entered := orderly.userToSysStats
  obtain ⟨quiet, keeps⟩ := exitSemaphores_quiet (List.finRange 20)
    entered.refines entered.settled busy
  have current : ((List.finRange 20).foldl exitSemaphore
      s.userToSysStats).current = s.current := quiet.current
  have shape : s.systemCall .exit =
      ((((List.finRange 20).foldl exitSemaphore
        s.userToSysStats).releaseProcess).updateProcessStateRr
          ((List.finRange 20).foldl exitSemaphore s.userToSysStats).current
          (some .freequeue)).schedNextRr .exited := rfl
  rw [shape]
  generalize (List.finRange 20).foldl exitSemaphore s.userToSysStats = middle
    at keeps current
  have before := (SameSpace.enter s).trans (.of_keeps keeps)
  have later := (Keeps.updateProcessStateRr middle.releaseProcess middle.current
    (some .freequeue)).trans (Keeps.schedNextRr _ .exited)
  refine ⟨?_, ?_, ?_, ?_⟩
  · intro t
    exact (before.region t).trans ((releaseProcess_region middle t).trans
      ((SameSpace.of_keeps later).region t))
  · intro t other
    rw [later.task t, releaseProcess]
    simp only [modTask, current, Function.update_of_ne other]
    rw [keeps.task t]
    rfl
  · rw [later.live, releaseProcess, ← current, ← before.live]
    rfl
  · have sameDir := (before.region s.current).dirPagesBaseAddr
    have sameMemory : middle.mm = s.mm := keeps.mm
    rw [later.mm]
    unfold releaseProcess currentTask
    rw [← sameDir, ← current, ← sameMemory]
    simp [modTask]

theorem exit_space (orderly : s.Orderly) (busy : s.current ≠ s.idleTask) :
    SpaceEffect s (.syscall .exit) (s.systemCall .exit) := by
  obtain ⟨region, _, live, memory⟩ := exit_state orderly busy
  exact .exited (SameTables.refl _) region live memory

theorem allocateDIR_cases (s : Kernel) (t : TaskId) :
    (∃ i, s.unusedDir = some i ∧ s.mm.dirCounter i = 0 ∧
      (s.allocateDIR t).2 =
        { s.modTask t fun p => { p with dirPagesBaseAddr := i } with
          mm := { s.mm with
            dirCounter := Function.update s.mm.dirCounter i 1 } }) ∨
      (s.unusedDir = none ∧ (∀ i, s.mm.dirCounter i ≠ 0) ∧
        (s.allocateDIR t).2 = s) := by
  unfold allocateDIR
  split
  · next i found =>
      have unused : s.mm.dirCounter i = 0 := by
        simpa using List.find?_some found
      have first : s.mm.dirCounter i + 1 = 1 := by
        rw [unused]
        rfl
      refine Or.inl ⟨i, found, unused, ?_⟩
      simp only [modTask, first]
  · next absent =>
      refine Or.inr ⟨absent, fun i => ?_, rfl⟩
      have used := List.find?_eq_none.mp absent i (List.mem_finRange i)
      simpa using used

/-- The child after its PCB was copied and a directory was looked for. -/
theorem childState (s : Kernel) (child : TaskId) :
    ∃ dir uses, s.ForkDir dir uses ∧
      dir = s.unusedDir.getD s.currentTask.dirPagesBaseAddr ∧
      let s₁ := ((s.copyUnion child).allocateDIR child).2
      s₁.task = Function.update s.task child
          { s.currentTask with dirPagesBaseAddr := dir } ∧
        s₁.mm = { s.mm with dirCounter := uses } ∧ s₁.live = s.live ∧
        s₁.current = s.current ∧ s₁.cr3 = s.cr3 := by
  rcases allocateDIR_cases (s.copyUnion child) child with
    ⟨i, first, unused, shape⟩ | ⟨none, all, shape⟩
  · refine ⟨i, _, .found unused, ?_, ?_⟩
    · exact (congrArg (Option.getD · _) first).symm
    rw [shape]
    refine ⟨?_, rfl, rfl, rfl, rfl⟩
    simp [modTask, copyUnion, currentTask]
  · refine ⟨_, _, .inherited all, ?_, ?_⟩
    · exact (congrArg (Option.getD · _) none).symm
    rw [shape]
    exact ⟨rfl, rfl, rfl, rfl, rfl⟩

theorem forkSpace_congr (current : s'.currentTask = s.currentTask)
    (cr3 : s'.cr3 = s.cr3) : s'.forkSpace = s.forkSpace := by
  unfold forkSpace forkPages
  rw [current, cr3]

theorem finishFork_region (s : Kernel) (child : TaskId) (mm : Memory)
    (different : child ≠ s.current) (t : TaskId) :
    SameRegion
      (if t = child then { s.task child with
        heapSize := s.currentTask.heapSize
        heapPages := s.currentTask.heapPages } else s.task t)
      ((s.finishFork child mm).task t) := by
  have notChild : s.current ≠ child := different.symm
  by_cases isChild : t = child
  · subst isChild
    constructor <;>
      simp [finishFork, initChild, initStats, modTask, listAddTail, currentTask,
        notChild]
  · constructor <;>
      simp [finishFork, initChild, initStats, modTask, listAddTail, isChild]

/-- What `sys_fork` does after it took a PCB: the reservation fails and its
memory is all that is left of it, or the child is made and gets the next PID. -/
theorem forkInto_space (s : Kernel) (different : child ≠ s.current) :
    ∃ dir uses mm, s.ForkDir dir uses ∧
      dir = s.unusedDir.getD s.currentTask.dirPagesBaseAddr ∧
      (∀ t, t ≠ child → SameRegion (s.task t) ((s.forkInto child).2.task t)) ∧
      SameRegion { s.currentTask with dirPagesBaseAddr := dir }
        ((s.forkInto child).2.task child) ∧
      ((Memory.reserveData dir s.forkPages 0 { s.mm with dirCounter := uses } =
          (false, mm) ∧
          (s.forkInto child).1 = -enomem ∧
          (s.forkInto child).2.task = Function.update s.task child
            { s.currentTask with dirPagesBaseAddr := dir } ∧
          (s.forkInto child).2.live = s.live ∧
          (s.forkInto child).2.mm = mm) ∨
        (Memory.reserveData dir s.forkPages 0 { s.mm with dirCounter := uses } =
          (true, mm) ∧
          (s.forkInto child).2.live = Function.update s.live child true ∧
          (s.forkInto child).2.mm = s.forkSpace mm dir)) := by
  obtain ⟨dir, uses, directory, chosen, task, mm, live, current, cr3⟩ :=
    childState s child
  unfold forkInto
  dsimp only
  generalize ((s.copyUnion child).allocateDIR child).2 = s₁
    at task mm live current cr3
  have ownTask : s₁.task child =
      { s.currentTask with dirPagesBaseAddr := dir } := by
    rw [task, Function.update_self]
  have otherTask : ∀ t, t ≠ child → s₁.task t = s.task t := by
    intro t notChild
    rw [task, Function.update_of_ne notChild]
  have parent : s₁.currentTask = s.currentTask := by
    unfold currentTask
    rw [current]
    exact otherTask s.current different.symm
  have pages : s₁.forkPages = s.forkPages := by
    unfold forkPages
    rw [parent]
  have space : s₁.forkSpace = s.forkSpace := forkSpace_congr parent cr3
  rw [ownTask, pages, mm]
  split
  · next mm₁ failed =>
      refine ⟨dir, uses, mm₁, directory, chosen, ?_, ?_,
        Or.inl ⟨failed, rfl, task, live, rfl⟩⟩
      · intro t notChild
        change SameRegion _ (s₁.task t)
        rw [otherTask t notChild]
        exact .refl _
      · change SameRegion _ (s₁.task child)
        rw [ownTask]
        exact .refl _
  · next mm₁ reserved =>
      have apart : child ≠ s₁.current := by
        rw [current]
        exact different
      have regions := finishFork_region s₁ child mm₁ apart
      refine ⟨dir, uses, mm₁, directory, chosen, ?_, ?_,
        Or.inr ⟨reserved, ?_, ?_⟩⟩
      · intro t notChild
        have region := regions t
        rw [if_neg notChild, otherTask t notChild] at region
        exact region
      · have region := regions child
        rw [if_pos rfl, ownTask, parent] at region
        exact region
      · change Function.update s₁.live child true = _
        rw [live]
      · change s₁.forkSpace mm₁ (s₁.task child).dirPagesBaseAddr = _
        rw [ownTask, space]

/-- A fork that finds a PCB in `freequeue` goes on with the first one. -/
theorem fork_shape (orderly : s.Orderly) {rest : List TaskId}
    (queue : s.queue .freequeue = child :: rest) :
    s.systemCall .fork =
      ((s.userToSysStats.listDel child).forkInto child).2.sysReturn
        ((s.userToSysStats.listDel child).forkInto child).1 := by
  have entered := orderly.userToSysStats
  have someFree : ¬ s.userToSysStats.listEmpty .freequeue = true := by
    rw [entered.refines.listEmpty_iff (q := .freequeue) trivial]
    change ¬ s.queue .freequeue = []
    simp [queue]
  have first : s.userToSysStats.listFirst .freequeue = some child :=
    entered.refines.listFirst queue
  change s.userToSysStats.sysFork.2.sysReturn s.userToSysStats.sysFork.1 = _
  unfold sysFork
  rw [if_neg someFree, first]

theorem fork_taken (orderly : s.Orderly) (free : s.queue .freequeue ≠ []) :
    ∃ child dir uses mm, s.ForkTaken child dir uses (s.systemCall .fork) ∧
      ((Memory.reserveData dir s.forkPages 0 { s.mm with dirCounter := uses } =
          (false, mm) ∧
          (s.systemCall .fork).eax s.current = -enomem ∧
          (s.systemCall .fork).live = s.live ∧
          (s.systemCall .fork).mm = mm) ∨
        (Memory.reserveData dir s.forkPages 0 { s.mm with dirCounter := uses } =
          (true, mm) ∧
          (s.systemCall .fork).live = Function.update s.live child true ∧
          (s.systemCall .fork).mm = s.forkSpace mm dir)) := by
  obtain ⟨child, rest, queue⟩ := List.exists_cons_of_ne_nil free
  have member : child ∈ s.queue .freequeue := by simp [queue]
  have different : child ≠ s.current := orderly.settled.away member
  obtain ⟨dir, uses, mm, directory, chosen, others, own, outcome⟩ :=
    forkInto_space (s.userToSysStats.listDel child) different
  have forkDir : s.ForkDir dir uses := by
    cases directory with
    | found unused => exact .found unused
    | inherited all => exact .inherited all
  have current : ((s.userToSysStats.listDel child).forkInto
      child).2.sysToUserStats.current = s.current :=
    (forkInto_frame (s.userToSysStats.listDel child) child).1
  rw [fork_shape orderly queue]
  refine ⟨child, dir, uses, mm,
    ⟨member, different, forkDir, others, own, chosen⟩, ?_⟩
  rcases outcome with ⟨failed, result, _, live, after⟩ | ⟨reserved, live, after⟩
  · have returned : (((s.userToSysStats.listDel child).forkInto
        child).2.sysReturn ((s.userToSysStats.listDel child).forkInto
        child).1).eax s.current = -enomem := by
      rw [result]
      simp only [sysReturn]
      rw [current, Function.update_self]
    exact Or.inl ⟨failed, returned, live, after⟩
  · exact Or.inr ⟨reserved, live, after⟩

theorem fork_space (orderly : s.Orderly) :
    SpaceEffect s (.syscall .fork) (s.systemCall .fork) := by
  by_cases free : s.queue .freequeue = []
  · have entered := orderly.userToSysStats
    have empty : s.userToSysStats.listEmpty .freequeue = true :=
      (entered.refines.listEmpty_iff (q := .freequeue) trivial).mpr free
    have shape : s.systemCall .fork = s.userToSysStats.sysReturn (-eagain) := by
      change s.userToSysStats.sysFork.2.sysReturn s.userToSysStats.sysFork.1 = _
      unfold sysFork
      rw [if_pos empty]
    rw [shape]
    exact .same ((SameSpace.enter s).returned _)
  · obtain ⟨child, dir, uses, mm, taken, ⟨failed, _, live, after⟩ |
      ⟨reserved, live, after⟩⟩ := fork_taken orderly free
    · exact .forkFailed taken failed live after
    · exact .forked taken reserved live after

theorem clone_space (orderly : s.Orderly)
    (function stack : UInt32) :
    SpaceEffect s (.syscall (.clone function stack))
      (s.systemCall (.clone function stack)) := by
  have entered := orderly.userToSysStats
  have shape : s.systemCall (.clone function stack) =
      (s.userToSysStats.sysClone function stack).2.sysReturn
        (s.userToSysStats.sysClone function stack).1 := rfl
  rw [shape]
  unfold sysClone
  split_ifs with denied empty
  · exact .same ((SameSpace.enter s).returned _)
  · exact .same ((SameSpace.enter s).returned _)
  · rw [entered.refines.listEmpty_iff (q := .freequeue) trivial] at empty
    obtain ⟨child, rest, queue⟩ := List.exists_cons_of_ne_nil empty
    have member : child ∈ s.queue .freequeue := by
      change child ∈ s.userToSysStats.view.queue .freequeue
      simp [queue]
    have different : child ≠ s.current := orderly.settled.away member
    have notChild : s.current ≠ child := different.symm
    rw [entered.refines.listFirst queue]
    refine .cloned member different ?_ ?_ rfl ?_
    · intro t notChild
      constructor <;>
        simp [cloneInto, copyUnion, initChild, initStats, modTask, listAddTail,
          listDel, sysReturn, sysToUserStats, userToSysStats, chargeTicks,
          notChild]
    · constructor <;>
        simp [cloneInto, copyUnion, initChild, initStats, modTask, listAddTail,
          listDel, sysReturn, sysToUserStats, userToSysStats, chargeTicks,
          currentTask]
    · simp [cloneInto, copyUnion, initChild, initStats, modTask, listAddTail,
        listDel, sysReturn, sysToUserStats, userToSysStats, chargeTicks,
        currentTask, notChild]

theorem sbrk_space (s : Kernel) (increment : Int32) :
    SpaceEffect s (.syscall (.sbrk increment))
      (s.systemCall (.sbrk increment)) := by
  refine .moved ?_ ?_ rfl rfl
  · intro t notCurrent
    constructor <;>
      simp [systemCall, service, complete, sysSbrk, sysReturn, sysToUserStats,
        userToSysStats, chargeTicks, notCurrent]
  · constructor <;>
      simp [systemCall, service, complete, sysSbrk, sysReturn, sysToUserStats,
        userToSysStats, chargeTicks, currentTask]

/-! ## All events -/

theorem syscall_space (orderly : s.Orderly) (busy : s.current ≠ s.idleTask)
    (call : Syscall) : SpaceEffect s (.syscall call) (s.systemCall call) := by
  have entered := orderly.userToSysStats
  have enter := SameSpace.enter s
  cases call with
  | exit => exact exit_space orderly busy
  | fork => exact fork_space orderly
  | read fd buf count => exact .same (read_sameSpace orderly fd buf count)
  | write fd buffer size =>
      obtain ⟨console, fault, written⟩ :=
        s.userToSysStats.sysWrite_cases fd buffer size
      have same : s.userToSysStats.SameSpace
          (s.userToSysStats.sysWrite fd buffer size).2 := by
        rw [written]
        exact ⟨fun _ => .refl _, rfl, ⟨rfl, rfl, rfl⟩⟩
      exact .same ((enter.trans same).returned _)
  | gettime => exact .same (enter.returned _)
  | sbrk increment => exact sbrk_space s increment
  | clone function stack => exact clone_space orderly function stack
  | getpid => exact .same (enter.returned _)
  | semInit nSem value =>
      exact .same ((enter.trans (.of_keeps
        (sysSemInit_keeps _ nSem value))).returned _)
  | semWait nSem => exact .same (semWait_sameSpace s nSem)
  | semSignal nSem =>
      exact .same ((enter.trans (.of_keeps (sysSemSignal_quiet entered.refines
        entered.settled busy nSem).2)).returned _)
  | semDestroy nSem =>
      exact .same ((enter.trans (.of_keeps (sysSemDestroy_quiet entered.refines
        entered.settled busy nSem).2)).returned _)
  | getStats pid st =>
      obtain ⟨stats, ram, fault, charged⟩ :=
        s.userToSysStats.sysGetStats_cases pid st
      have same : s.userToSysStats.SameSpace
          (s.userToSysStats.sysGetStats pid st).2 := by
        rw [charged]
        exact ⟨fun _ => .refl _, rfl, ⟨rfl, rfl, rfl⟩⟩
      exact .same ((enter.trans same).returned _)
  | niSyscall => exact .same (enter.returned _)

/-- The inversion of one reaction of the kernel, for memory. -/
theorem handle_space (orderly : s.Orderly)
    (handled : s.handle event = some s') : SpaceEffect s event s' := by
  cases event with
  | clock =>
      by_cases mode : s.mode = .user
      · rw [handle, if_pos mode] at handled
        cases handled
        have ticked : s.SameSpace
            { s with zeosTicks := int32 (s.zeosTicks + 1) } :=
          .of_eq rfl rfl rfl
        exact .same (ticked.trans (.of_keeps (Keeps.schedule _)))
      · rw [handle, if_neg mode] at handled
        cases handled
  | keyboard scancode beyond =>
      by_cases mode : s.mode = .user
      · rw [handle, if_pos mode] at handled
        cases handled
        exact .same (keyboard_sameSpace s scancode beyond)
      · rw [handle, if_neg mode] at handled
        cases handled
  | syscall call =>
      by_cases able : s.mode = .user ∧ s.current ≠ s.idleTask
      · rw [handle, if_pos able] at handled
        cases handled
        exact syscall_space orderly able.2 call
      · rw [handle, if_neg able] at handled
        cases handled
  | badSyscall =>
      by_cases able : s.mode = .user ∧ s.current ≠ s.idleTask
      · rw [handle, if_pos able] at handled
        cases handled
        exact .same (.of_eq rfl rfl rfl)
      · rw [handle, if_neg able] at handled
        cases handled
  | resume =>
      by_cases mode : s.mode = .switched
      · rw [handle, if_pos mode] at handled
        cases handled
        exact .same (resume_sameSpace s)
      · rw [handle, if_neg mode] at handled
        cases handled

end Kernel

end Zeos
