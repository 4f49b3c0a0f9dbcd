import Zeos.Sched.Turns
import Zeos.Space.Neighbours

/-!
# Forks that fail

A fork that runs out of frames gives back the frames and the PCB, but neither
the use of the directory that `allocate_DIR` counted nor the copy of its
caller's PCB that it wrote over the free one.  `sys_get_stats` does not look at
the queues: it finds the copy under the caller's PID even when the caller has
exited.
-/

namespace Zeos

namespace Kernel

open Memory (Maps)

variable {s s' : Kernel} {child : TaskId} {image : BootImage} {event : Event}

/-! ## `sys_get_stats` -/

/-- The arguments of `sys_get_stats` that pass its checks. -/
def StatsArgs (pid : Int32) (st : UInt32) : Prop :=
  0 ≤ pid.toInt ∧ st ≠ 0 ∧ accessOk .verifyWrite st 28 = true

theorem sysGetStats_refused {pid : Int32} {st : UInt32}
    (refused : ¬ StatsArgs pid st) : (s.sysGetStats pid st).1 ≠ 0 := by
  unfold sysGetStats
  by_cases negative : pid.toInt < 0
  · rw [if_pos negative]
    exact (by decide : -einval ≠ 0)
  by_cases null : st = 0
  · rw [if_neg negative, if_pos null]
    exact (by decide : -efault ≠ 0)
  by_cases denied : ¬ accessOk .verifyWrite st 28
  · rw [if_neg negative, if_neg null, if_pos denied]
    exact (by decide : -efault ≠ 0)
  · exact absurd ⟨by omega, null, not_not.mp denied⟩ refused

/-- The call finds any PCB with the PID, whether its process lives or not. -/
theorem sysGetStats_found {pid : Int32} {st : UInt32} (args : StatsArgs pid st)
    {t : TaskId} (named : (s.task t).pid = pid.toInt) :
    (s.sysGetStats pid st).1 = 0 := by
  obtain ⟨nonneg, notNull, allowed⟩ := args
  unfold sysGetStats
  rw [if_neg (by omega), if_neg notNull, if_neg (not_not.mpr allowed)]
  split_ifs
  · rfl
  · split
    · rfl
    · next absent =>
        have other := List.find?_eq_none.mp absent t (List.mem_finRange t)
        exact absurd named (by simpa using other)

theorem sysGetStats_absent {pid : Int32} {st : UInt32} (args : StatsArgs pid st)
    (unnamed : ∀ t, (s.task t).pid ≠ pid.toInt) :
    (s.sysGetStats pid st).1 = -esrch := by
  obtain ⟨nonneg, notNull, allowed⟩ := args
  unfold sysGetStats
  rw [if_neg (by omega), if_neg notNull, if_neg (not_not.mpr allowed),
    if_neg fun own => unnamed s.current own.symm]
  split
  · next t found =>
      have named := List.find?_some found
      exact absurd (by simpa using named) (unnamed t)
  · rfl

/-- No PCB is taken from `freequeue`. -/
def MakesNone : Event → Prop
  | .syscall call => ¬ call.Creates
  | _ => True

/-- The call left no trace: the frames, the counts, the tables of the live
processes, the queues and the PIDs are as before; `sys_get_stats` finds the PIDs
that it found before, and as long as no PCB is taken again, it finds the PID of
a process until that process exits. -/
structure ForkAtomic (s s' : Kernel) : Prop where
  physMem : s'.mm.physMem = s.mm.physMem
  dirCounter : s'.mm.dirCounter = s.mm.dirCounter
  table : ∀ t, s.live t = true → ∀ page,
    s'.mm.pagusrTable (s.task t).dirPagesBaseAddr page =
      s.mm.pagusrTable (s.task t).dirPagesBaseAddr page
  ready : s'.queue .readyqueue = s.queue .readyqueue
  free : ∀ t, t ∈ s'.queue .freequeue ↔ t ∈ s.queue .freequeue
  globalPID : s'.globalPID = s.globalPID
  found : ∀ pid st, (s'.sysGetStats pid st).1 = 0 ↔ (s.sysGetStats pid st).1 = 0
  later : ∀ t, s'.live t = true → ∀ pid st, StatsArgs pid st →
    (s'.task t).pid = pid.toInt →
      ∀ s'', Library.Reach step (fun _ event => MakesNone event) s' s'' →
        (s''.live t = true → (s''.sysGetStats pid st).1 = 0) ∧
          (s''.live t = false → (s''.sysGetStats pid st).1 = -esrch)

/-- The call finds no directory, so that its child keeps the caller's; it runs
out of frames, and where it tries, the caller's table is empty; and the caller
has a PID that `sys_get_stats` rejects. -/
structure Traceless (s : Kernel) : Prop where
  few : s.mm.freeFrames < s.forkPages
  counted : ∀ i, s.mm.dirCounter i ≠ 0
  untried : ∀ page, Maps.Range pagLogInitData s.mm.freeFrames page →
    s.mm.pagusrTable s.parentDir page = {}
  negative : s.currentTask.pid < 0

/-- No PID that `sys_get_stats` accepts is in two PCBs of which one is live, or
in the PCB `child` alone. -/
def PidsOwn (s : Kernel) (child : TaskId) : Prop :=
  (0 ≤ (s.task child).pid → ∃ t, t ≠ child ∧ (s.task t).pid = (s.task child).pid) ∧
    ∀ t, s.live t = true → 0 ≤ (s.task t).pid → ∀ u, u ≠ child →
      (s.task u).pid = (s.task t).pid → u = t

/-! ## Memory after a failure -/

/-- All frames that were taken are given back. -/
theorem ForkFails.physMem (failed : ForkFails s child s') (mapped : s.Mapped)
    (noFault : s'.mm.fault = false) : s'.mm.physMem = s.mm.physMem := by
  obtain ⟨uses, _, reserved⟩ := failed.reserved
  obtain ⟨k, mm₁, _, _, maps, _, given⟩ :=
    Memory.reserveData_failed reserved noFault (Tidy.withUses mapped.tidy _)
  obtain ⟨_, inside, kept, grown⟩ := maps.held (Nat.le_refl _)
  have fresh := maps.fresh (Nat.le_refl _)
  have same : ∀ f, s'.mm.physMem f = .usedFrame ↔ s.mm.physMem f = .usedFrame := by
    intro f
    change s'.mm.holdings.used f ↔ s.mm.holdings.used f
    rw [given, Library.Holdings.surrenderAll_used]
    constructor
    · rintro ⟨usedThen, notGiven⟩
      rcases grown f usedThen with before | ⟨p, range, holds⟩
      · exact before
      · exact absurd holds (notGiven _ (Memory.mem_dataPlaces.mpr ⟨rfl, range⟩))
    · intro used
      refine ⟨kept f used, ?_⟩
      rintro ⟨d, p⟩ member holds
      obtain ⟨isDir, range⟩ := Memory.mem_dataPlaces.mp member
      dsimp only at isDir
      subst isDir
      exact fresh p f range holds used
  funext f
  have iff_ := same f
  cases before : s.mm.physMem f with
  | usedFrame => exact iff_.mpr before
  | freeFrame =>
      cases after : s'.mm.physMem f with
      | freeFrame => rfl
      | usedFrame =>
          rw [iff_.mp after] at before
          cases before

theorem ForkFails.dirCounter (failed : ForkFails s child s') (mapped : s.Mapped)
    (noFault : s'.mm.fault = false) :
    s'.mm.dirCounter = s.mm.dirCounter ↔ ∀ i, s.mm.dirCounter i ≠ 0 := by
  obtain ⟨uses, directory, reserved⟩ := failed.reserved
  obtain ⟨_, _, _, _, _, edit, _⟩ :=
    Memory.reserveData_failed reserved noFault (Tidy.withUses mapped.tidy _)
  have counters : s'.mm.dirCounter = uses := edit.dirCounter
  rw [counters]
  generalize s.chosenDir = dir at directory
  constructor
  · intro same
    cases directory with
    | inherited all => exact all
    | found unused =>
        have own := congrFun same dir
        rw [Function.update_self, unused] at own
        cases own
  · intro all
    cases directory with
    | inherited _ => rfl
    | found unused => exact absurd unused (all _)

theorem chosenDir_of_counted (counted : ∀ i, s.mm.dirCounter i ≠ 0) :
    s.chosenDir = s.parentDir := by
  have none : s.unusedDir = none :=
    List.find?_eq_none.mpr fun i _ => by simpa using counted i
  rw [chosenDir, none]
  rfl

/-! ## The exit of the caller -/

theorem exit_taken (orderly : s.Orderly) (mode : s.mode = .user)
    (busy : s.current ≠ s.idleTask) (noFault : s.mm.fault = false) :
    s.step (.syscall .exit) = some (s.systemCall .exit) := by
  have handled : s.handle (.syscall .exit) = some (s.systemCall .exit) :=
    if_pos ⟨mode, busy⟩
  have ends : (s.systemCall .exit).mm.fault = false := by
    rw [(exit_state orderly busy).2.2.2, releaseDir]
    dsimp only
    split
    · rw [Memory.freeUserPages_eq]
      apply Memory.givePages_noFault
      · intro page member
        have range := Memory.mem_dataPages.mp member
        have bounds : pagLogInitData + numPagData ≤ totalPages := by decide
        omega
      · exact noFault
    · exact noFault
  exact step_of_handle rfl handled ends

/-- A failing fork returns to its caller, with all queues as they were but for
the place of the PCB in `freequeue`. -/
structure Returns (s s' : Kernel) : Prop where
  mode : s'.mode = .user
  current : s'.current = s.current
  idleTask : s'.idleTask = s.idleTask
  ready : s'.queue .readyqueue = s.queue .readyqueue
  free : ∀ t, t ∈ s'.queue .freequeue ↔ t ∈ s.queue .freequeue
  globalPID : s'.globalPID = s.globalPID

theorem ForkFails.returned (failed : ForkFails s child s') (orderly : s.Orderly)
    (taken : s.step (.syscall .fork) = some s') : Returns s s' := by
  have fields : ∀ {v : View}, s'.view = v → s'.live = v.live ∧
      s'.current = v.current ∧ s'.idleTask = v.idle ∧ s'.queue = v.queue := by
    rintro _ rfl
    exact ⟨rfl, rfl, rfl, rfl⟩
  cases turn_of_step orderly taken with
  | stays _ view kept mode =>
      obtain ⟨_, current, idle, queue⟩ := fields view
      exact ⟨mode, current, idle, congrFun queue _, fun t => by rw [queue]; rfl,
        kept.globalPID⟩
  | @created _ other _ _ _ member view _ _ _ _ _ =>
      have born := (fields view).1
      rw [failed.live] at born
      have alive := congrFun born other
      have dead : s.live other = false := orderly.dead member
      change s.live other = Function.update s.live other true other at alive
      rw [dead, Function.update_self] at alive
      cases alive
  | @recycled other st context _ _ member view _ _ _ globalPID mode =>
      obtain ⟨_, current, idle, queue⟩ := fields view
      refine ⟨mode, current, idle, ?_, fun t => ?_, globalPID⟩
      · rw [queue]
        exact Function.update_of_ne (show Queue.readyqueue ≠ .freequeue from nofun)
          ((s.view.queue .freequeue).erase other ++ [other]) s.view.queue
      · rw [queue]
        exact (View.mem_recycle member : t ∈ (s.view.recycle other st
          context).queue .freequeue ↔ t ∈ s.view.queue .freequeue)

/-- Without forks and clones, PIDs change only when a process exits. -/
theorem pids_of_step (orderly : s.Orderly) (none : MakesNone event)
    (taken : s.step event = some s') :
    (s'.live = s.live ∧ ∀ t, (s'.task t).pid = (s.task t).pid) ∨
      (s'.live = Function.update s.live s.current false ∧
        ∀ t, (s'.task t).pid = if t = s.current then -1 else (s.task t).pid) := by
  have liveOf : ∀ {v : View}, s'.view = v → v.live = s.live →
      s'.live = s.live := fun view same => (congrArg View.live view).trans same
  cases turn_of_step orderly taken with
  | stays _ view kept _ => exact Or.inl ⟨liveOf view rfl, kept.pid⟩
  | preempted _ view kept _ => exact Or.inl ⟨liveOf view rfl, kept.pid⟩
  | served _ view kept _ => exact Or.inl ⟨liveOf view rfl, kept.pid⟩
  | asked _ _ view kept _ => exact Or.inl ⟨liveOf view rfl, kept.pid⟩
  | again _ _ _ view kept _ => exact Or.inl ⟨liveOf view rfl, kept.pid⟩
  | took _ _ _ view sets _ _ => exact Or.inl ⟨liveOf view rfl, sets.pid⟩
  | waited _ _ _ _ view kept _ => exact Or.inl ⟨liveOf view rfl, kept.pid⟩
  | raised _ _ _ view sets _ _ => exact Or.inl ⟨liveOf view rfl, sets.pid⟩
  | woke _ _ _ _ view kept _ => exact Or.inl ⟨liveOf view rfl, kept.pid⟩
  | opened _ _ view sets _ _ => exact Or.inl ⟨liveOf view rfl, sets.pid⟩
  | destroyed _ _ _ _ released sets _ _ =>
      exact Or.inl ⟨released.live, sets.pid⟩
  | exited _ released view _ _ pid _ _ =>
      refine Or.inr ⟨?_, pid⟩
      have live := congrArg View.live view
      change s'.live = Function.update _ _ false at live
      rw [live, released.live, released.current]
      rfl
  | created creates _ _ _ _ _ _ _ _ => exact absurd creates none
  | recycled _ _ _ _ _ _ _ _ => exact absurd trivial none

/-- The process `t`, while it lives, has a PID that no other PCB has. -/
def SoleName (s : Kernel) (t : TaskId) (pid : Int) : Prop :=
  ∀ u, (s.task u).pid = pid ↔ u = t ∧ s.live t = true

theorem SoleName.step {t : TaskId} {pid : Int} (sole : SoleName s t pid)
    (nonneg : 0 ≤ pid) (orderly : s.Orderly) (none : MakesNone event)
    (taken : s.step event = some s') : SoleName s' t pid := by
  intro u
  rcases pids_of_step orderly none taken with ⟨live, pids⟩ | ⟨live, pids⟩
  · rw [pids, live]
    exact sole u
  · rw [pids, live]
    by_cases exits : u = s.current
    · rw [if_pos exits]
      refine iff_of_false (by omega) fun both => ?_
      rw [← both.1, exits, Function.update_self] at both
      cases both.2
    · rw [if_neg exits, sole u]
      constructor
      · rintro ⟨rfl, alive⟩
        exact ⟨rfl, by rwa [Function.update_of_ne exits]⟩
      · rintro ⟨rfl, alive⟩
        rw [Function.update_of_ne exits] at alive
        exact ⟨rfl, alive⟩

theorem SoleName.run {t : TaskId} {pid : Int} (sole : SoleName s t pid)
    (nonneg : 0 ≤ pid) (orderly : s.Orderly)
    (later : Library.Reach Kernel.step (fun _ event => MakesNone event) s s') :
    s'.Orderly ∧ SoleName s' t pid := by
  induction later with
  | start => exact ⟨orderly, sole⟩
  | step _ none taken inductionHypothesis =>
      obtain ⟨middle, named⟩ := inductionHypothesis
      exact ⟨middle.step taken, named.step nonneg middle none taken⟩

theorem sysGetStats_iff {pid : Int32} {st : UInt32} (args : StatsArgs pid st) :
    (s.sysGetStats pid st).1 = 0 ↔ ∃ t, (s.task t).pid = pid.toInt := by
  constructor
  · intro found
    by_contra unnamed
    push Not at unnamed
    rw [sysGetStats_absent args unnamed] at found
    exact absurd found (by decide)
  · rintro ⟨t, named⟩
    exact sysGetStats_found args named

/-! ## PIDs are C integers -/

structure PidsInt (s : Kernel) : Prop where
  next : int32 s.globalPID = s.globalPID
  pid : ∀ t, int32 (s.task t).pid = (s.task t).pid

theorem PidsInt.step (named : PidsInt s) (orderly : s.Orderly)
    (mapped : s.Mapped) (paged : s.Paged) (taken : s.step event = some s') :
    PidsInt s' := by
  have kept : (∀ t, (s'.task t).pid = (s.task t).pid) →
      s'.globalPID = s.globalPID → PidsInt s' := fun pid globalPID =>
    ⟨by rw [globalPID, named.next], fun t => by rw [pid, named.pid]⟩
  cases turn_of_step orderly taken with
  | stays _ _ keeps _ => exact kept keeps.pid keeps.globalPID
  | preempted _ _ keeps _ => exact kept keeps.pid keeps.globalPID
  | served _ _ keeps _ => exact kept keeps.pid keeps.globalPID
  | asked _ _ _ keeps _ => exact kept keeps.pid keeps.globalPID
  | again _ _ _ _ keeps _ => exact kept keeps.pid keeps.globalPID
  | took _ _ _ _ sets _ _ => exact kept sets.pid sets.globalPID
  | waited _ _ _ _ _ keeps _ => exact kept keeps.pid keeps.globalPID
  | raised _ _ _ _ sets _ _ => exact kept sets.pid sets.globalPID
  | woke _ _ _ _ _ keeps _ => exact kept keeps.pid keeps.globalPID
  | opened _ _ _ sets _ _ => exact kept sets.pid sets.globalPID
  | destroyed _ _ _ _ _ sets _ _ => exact kept sets.pid sets.globalPID
  | exited _ _ _ _ _ pid globalPID _ =>
      refine ⟨by rw [globalPID, named.next], fun t => ?_⟩
      rw [pid]
      split_ifs
      · rfl
      · exact named.pid t
  | created _ _ _ _ _ _ pid globalPID _ =>
      refine ⟨by rw [globalPID, int32_idem], fun t => ?_⟩
      rw [pid]
      split_ifs
      · exact named.next
      · exact named.pid t
  | @recycled other _ _ _ _ _ view _ _ _ globalPID _ =>
      refine ⟨by rw [globalPID, named.next], fun t => ?_⟩
      rcases fork_outcome orderly mapped paged taken with
        ⟨_, refused⟩ | ⟨child, failed⟩ | ⟨child, succeeded⟩
      · rw [refused]
        exact named.pid t
      · rw [failed.task]
        by_cases isChild : t = child
        · rw [isChild, Function.update_self]
          exact named.pid s.current
        · rw [Function.update_of_ne isChild]
          exact named.pid t
      · obtain ⟨rest, queue⟩ := succeeded.first
        have dead := orderly.dead (queue ▸ List.mem_cons_self)
        have live : s'.live = s.live := congrArg View.live view
        have alive := congrFun succeeded.live child
        rw [live, dead, Function.update_self] at alive
        cases alive

theorem boot_pidsInt (image : BootImage) : PidsInt (boot image) := by
  have pid : ∀ t, ((boot image).task t).pid = if t = 1 then 1 else 0 := by
    intro t
    fin_cases t <;> rfl
  refine ⟨rfl, fun t => ?_⟩
  rw [pid]
  split_ifs <;> rfl

theorem pidsInt_of_reachable (run : Reachable image s) : PidsInt s := by
  refine Library.Reach.invariant_over PidsInt (boot_pidsInt image)
    (fun _ plain => (⟨orderly_of_reachable plain, mapped_of_reachable plain,
      paged_of_reachable plain⟩ : Orderly _ ∧ Mapped _ ∧ Paged _)) ?_ run
  intro before event after base named _ taken
  exact named.step base.1 base.2.1 base.2.2 taken

/-- The `int` argument that names a PCB. -/
theorem PidsInt.argument (named : PidsInt s) (t : TaskId) :
    ∃ pid : Int32, (s.task t).pid = pid.toInt := by
  refine ⟨Int32.ofInt (s.task t).pid, ?_⟩
  have range := int32_range (s.task t).pid
  rw [named.pid] at range
  rw [Int32.toInt_ofInt_of_le]
  · exact range.1
  · exact range.2

/-! ## When a failure leaves no trace -/

/-- The caller's PID is found after the caller has exited. -/
theorem ForkFails.negative (failed : ForkFails s child s')
    (orderly : s.Orderly) (named : PidsInt s) (busy : s.current ≠ s.idleTask)
    (taken : s.step (.syscall .fork) = some s') (atomic : ForkAtomic s s') :
    s.currentTask.pid < 0 := by
  have returned := failed.returned orderly taken
  have ready' := orderly.step taken
  have isCurrent := returned.current
  have ownTask : s'.task s.current = s.task s.current := by
    rw [failed.task, Function.update_of_ne failed.different.symm]
  obtain ⟨pid, named⟩ := named.argument s.current
  by_contra nonneg
  have args : StatsArgs pid 0x108000 := by
    refine ⟨?_, by decide, by decide⟩
    rw [← named]
    exact not_lt.mp nonneg
  have exits := exit_taken ready' returned.mode
    (by rw [isCurrent, returned.idleTask]; exact busy) (fault_of_step taken)
  obtain ⟨_, pids, live, _⟩ := exit_state ready'
    (by rw [isCurrent, returned.idleTask]; exact busy)
  have gone := (atomic.later s.current
    (by rw [failed.live]; exact orderly.settled.currentLive) pid 0x108000 args
    (by rw [ownTask]; exact named) _ (.step .start (show MakesNone
      (.syscall .exit) from id) exits)).2 (by rw [live, isCurrent]; simp)
  have copied : ((s'.systemCall .exit).task child).pid = pid.toInt := by
    rw [pids child (by rw [isCurrent]; exact failed.different), failed.task,
      Function.update_self]
    exact named
  rw [sysGetStats_found args copied] at gone
  exact absurd gone (by decide)

theorem ForkFails.traceless (failed : ForkFails s child s') (orderly : s.Orderly)
    (mapped : s.Mapped) (named : PidsInt s)
    (taken : s.step (.syscall .fork) = some s') (atomic : ForkAtomic s s') :
    Traceless s := by
  have noFault := fault_of_step taken
  have counted := (failed.dirCounter mapped noFault).mp atomic.dirCounter
  have busy : s.current ≠ s.idleTask :=
    (Option.ite_none_right_eq_some.mp (handle_of_step taken)).1.2
  refine ⟨failed.few, counted, fun page range => ?_,
    failed.negative orderly named busy taken atomic⟩
  obtain ⟨_, _, reserved⟩ := failed.reserved
  have tried := (Memory.reserveData_failed_table reserved noFault).1
    s.chosenDir page
  rw [if_pos ⟨rfl, range⟩, chosenDir_of_counted counted] at tried
  exact (atomic.table s.current orderly.settled.currentLive page).symm.trans tried

theorem ForkFails.atomic (failed : ForkFails s child s') (orderly : s.Orderly)
    (mapped : s.Mapped) (taken : s.step (.syscall .fork) = some s')
    (traceless : Traceless s) (own : PidsOwn s child) : ForkAtomic s s' := by
  have noFault := fault_of_step taken
  have returned := failed.returned orderly taken
  obtain ⟨rest, queue⟩ := failed.first
  have dead := orderly.dead (queue ▸ List.mem_cons_self)
  have copied : (s'.task child).pid = s.currentTask.pid := by
    rw [failed.task, Function.update_self]
  have others : ∀ t, t ≠ child → (s'.task t).pid = (s.task t).pid := by
    intro t other
    rw [failed.task, Function.update_of_ne other]
  have negative := traceless.negative
  refine ⟨failed.physMem mapped noFault,
    (failed.dirCounter mapped noFault).mpr traceless.counted, ?_, returned.ready,
    returned.free, returned.globalPID, ?_, ?_⟩
  · refine ((failed.undisturbed_iff noFault).mpr (Or.inr fun page range => ?_)).table
    rw [chosenDir_of_counted traceless.counted]
    exact traceless.untried page range
  · intro pid st
    by_cases args : StatsArgs pid st
    · rw [sysGetStats_iff args, sysGetStats_iff args]
      have nonneg := args.1
      constructor
      · rintro ⟨t, names⟩
        by_cases isChild : t = child
        · rw [isChild, copied] at names
          omega
        · exact ⟨t, (others t isChild).symm.trans names⟩
      · rintro ⟨t, names⟩
        by_cases isChild : t = child
        · rw [isChild] at names
          obtain ⟨u, other, samePid⟩ := own.1 (by omega)
          exact ⟨u, (others u other).trans (samePid.trans names)⟩
        · exact ⟨t, (others t isChild).trans names⟩
    · exact iff_of_false (sysGetStats_refused args) (sysGetStats_refused args)
  · intro t alive pid st args names s'' later
    have nonneg := args.1
    rw [failed.live] at alive
    have notChild : t ≠ child := fun same => by
      rw [same, dead] at alive
      cases alive
    have before : (s.task t).pid = pid.toInt := (others t notChild).symm.trans names
    have sole : SoleName s' t pid.toInt := by
      intro u
      rw [failed.live]
      by_cases isChild : u = child
      · rw [isChild, copied]
        exact iff_of_false (by omega) fun both => notChild both.1.symm
      · rw [others u isChild]
        constructor
        · intro same
          exact ⟨own.2 t alive (by omega) u isChild (same.trans before.symm), alive⟩
        · rintro ⟨rfl, _⟩
          exact before
    have kept := (SoleName.run sole nonneg (orderly.step taken) later).2
    constructor
    · intro lives
      exact sysGetStats_found args ((kept t).mpr ⟨rfl, lives⟩)
    · intro gone
      refine sysGetStats_absent args fun u named => ?_
      have both := (kept u).mp named
      rw [gone] at both
      cases both.2

/-- A successful fork gives out the next PID. -/
theorem ForkSucceeds.globalPID (succeeded : ForkSucceeds s child s')
    (orderly : s.Orderly) (taken : s.step (.syscall .fork) = some s') :
    s'.globalPID ≠ s.globalPID := by
  obtain ⟨rest, queue⟩ := succeeded.first
  have dead := orderly.dead (queue ▸ List.mem_cons_self)
  have born : s'.live ≠ s.live := fun same => by
    have alive := congrFun succeeded.live child
    rw [same, dead, Function.update_self] at alive
    cases alive
  cases turn_of_step orderly taken with
  | stays _ view _ _ => exact absurd (congrArg View.live view) born
  | created _ _ _ _ _ _ _ globalPID _ =>
      rw [globalPID]
      exact int32_succ_ne _
  | recycled _ _ view _ _ _ _ _ => exact absurd (congrArg View.live view) born

/-- In every reachable state, a fork that returns `-ENOMEM` leaves no trace only
if nothing of it could remain, and if that is so and the PIDs are the
processes' own, it leaves none. -/
theorem failed_fork_traceless (run : Reachable image s)
    (taken : s.step (.syscall .fork) = some s')
    (failed : s'.eax s.current = -enomem) :
    (ForkAtomic s s' → Traceless s) ∧
      (Traceless s → (∀ child rest, s.queue .freequeue = child :: rest →
        PidsOwn s child) → ForkAtomic s s') := by
  have orderly := orderly_of_reachable run
  have mapped := mapped_of_reachable run
  have noFault := fault_of_step taken
  rcases fork_outcome orderly mapped (paged_of_reachable run) taken with
    ⟨_, refused⟩ | ⟨child, fails⟩ | ⟨child, succeeded⟩
  · rw [refused] at failed
    change Function.update s.eax s.current (-eagain) s.current = -enomem at failed
    rw [Function.update_self] at failed
    exact absurd failed (by decide)
  · exact ⟨fails.traceless orderly mapped (pidsInt_of_reachable run) taken,
      fun traceless own => fails.atomic orderly mapped taken traceless
        (own child _ fails.first.choose_spec)⟩
  · exact ⟨fun atomic => absurd atomic.globalPID (succeeded.globalPID orderly taken),
      fun traceless _ => absurd succeeded.enough (Nat.not_le.mpr traceless.few)⟩

theorem failed_fork_traceless_crowded : ∃ s s', Reachable sampleImage s ∧
    s.step (.syscall .fork) = some s' ∧ s'.eax s.current = -enomem ∧
      (ForkAtomic s s' → Traceless s) := by
  obtain ⟨s, s', _, _, _, run, _, taken, failed, _⟩ := crowded_fork
  exact ⟨s, s', run, taken, failed, (failed_fork_traceless run taken failed).1⟩

/-- A state that meets the condition: no directory and no frame is free, and the caller's PID
is negative. -/
example : let s := { boot sampleImage with
      mm := { (boot sampleImage).mm with
        dirCounter := fun _ => 1
        physMem := fun _ => .usedFrame }
      task := fun _ => { (boot sampleImage).task 1 with pid := -1 } }
    Traceless s ∧ (s.step (.syscall .fork)).map (fun s' => s'.eax 1) = some (-enomem) := by
  intro s
  have seen : s.mm.freeFrames = 0 ∧ 0 < s.forkPages ∧ s.currentTask.pid = -1 ∧
      (s.step (.syscall .fork)).map (fun s' => s'.eax 1) = some (-enomem) := by decide +kernel
  obtain ⟨none, some_, pid, fails⟩ := seen
  refine ⟨⟨by omega, fun _ => by change (1 : Int) ≠ 0; decide, fun page range => ?_, by rw [pid]; decide⟩, fails⟩
  rw [none] at range
  exact absurd range.2 (Nat.not_lt.mpr range.1)

/-- The directory that was claimed for the child stays counted. -/
theorem failed_fork_counts : ∃ s s', Reachable sampleImage s ∧
    s.step (.syscall .fork) = some s' ∧ s'.eax s.current = -enomem ∧
      ¬ ForkAtomic s s' := by
  obtain ⟨s, s', _, _, _, run, unused, taken, failed, _⟩ := crowded_fork
  refine ⟨s, s', run, taken, failed, fun atomic => ?_⟩
  have orderly := orderly_of_reachable run
  have mapped := mapped_of_reachable run
  rcases fork_outcome orderly mapped (paged_of_reachable run) taken with
    ⟨_, refused⟩ | ⟨child, fails⟩ | ⟨child, succeeded⟩
  · rw [refused] at failed
    change Function.update s.eax s.current (-eagain) s.current = -enomem at failed
    rw [Function.update_self] at failed
    exact absurd failed (by decide)
  · exact (fails.dirCounter mapped (fault_of_step taken)).mp atomic.dirCounter 2
      unused
  · exact succeeded.globalPID orderly taken atomic.globalPID

end Kernel

end Zeos
