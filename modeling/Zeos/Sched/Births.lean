import Zeos.Sems.Owners
import Zeos.Sems.Verdicts
import Zeos.Space.Calls

/-!
# Births

`sys_fork` and `sys_clone` make a process and tell their caller its PID.  PIDs are given
out in order, each to one process, a call that fails makes no process, and the child
comes back with the result 0.
-/

namespace Zeos

instance : DecidablePred Syscall.Creates
  | .fork => isTrue trivial
  | .clone _ _ => isTrue trivial
  | .exit | .read _ _ _ | .write _ _ _ | .gettime | .sbrk _ | .getpid | .semInit _ _ | .semWait _
  | .semSignal _ | .semDestroy _ | .getStats _ _ | .niSyscall => isFalse id

namespace Kernel

variable {s s' : Kernel} {event : Event} {call : Syscall} {child t : TaskId}

/-! ## What the caller is told -/

theorem sysReturn_eax (s : Kernel) (result : Int) :
    (s.sysReturn result).eax s.current = result :=
  Function.update_self _ _ _

theorem forkInto_answer (s : Kernel) (child : TaskId) :
    ((s.forkInto child).2.live = s.live ∧ (s.forkInto child).1 = -enomem) ∨
      ((s.forkInto child).2.live = Function.update s.live child true ∧
        (s.forkInto child).1 = ((s.forkInto child).2.task child).pid) := by
  have kept : ((s.copyUnion child).allocateDIR child).2.live = s.live := by
    unfold allocateDIR
    split <;> rfl
  unfold forkInto
  dsimp only
  split
  · exact Or.inl ⟨kept, rfl⟩
  · refine Or.inr ⟨?_, rfl⟩
    rw [← kept]
    rfl

/-- A call of fork or clone returns the PID of the process that it made, or a negative
number if it made none. -/
theorem creating_told (orderly : s.Orderly) (creates : call.Creates) :
    ((s.systemCall call).live = s.live ∧ (s.systemCall call).eax s.current < 0) ∨
      ∃ child ∈ s.queue .freequeue,
        (s.systemCall call).live = Function.update s.live child true ∧
          (s.systemCall call).eax s.current = ((s.systemCall call).task child).pid := by
  have entered := orderly.userToSysStats
  have refused : ∀ result : Int, result < 0 →
      (s.userToSysStats.sysReturn result).live = s.live ∧
        (s.userToSysStats.sysReturn result).eax s.current < 0 := by
    intro result negative
    exact ⟨rfl, (s.userToSysStats.sysReturn_eax result).trans_lt negative⟩
  have nonempty : ¬ s.userToSysStats.listEmpty .freequeue = true →
      ∃ child rest, s.queue .freequeue = child :: rest := by
    intro empty
    rw [entered.refines.listEmpty_iff (q := .freequeue) trivial] at empty
    exact List.exists_cons_of_ne_nil empty
  cases call with
  | fork =>
      by_cases free : s.userToSysStats.listEmpty .freequeue = true
      · have shape : s.systemCall .fork = s.userToSysStats.sysReturn (-eagain) := by
          change s.userToSysStats.sysFork.2.sysReturn s.userToSysStats.sysFork.1 = _
          unfold sysFork
          rw [if_pos free]
        rw [shape]
        exact Or.inl (refused _ (by decide))
      · obtain ⟨child, rest, queue⟩ := nonempty free
        have current := (forkInto_frame (s.userToSysStats.listDel child) child).1
        rw [fork_shape orderly queue]
        have returned : ∀ result, (((s.userToSysStats.listDel child).forkInto
            child).2.sysReturn result).eax s.current = result := by
          intro result
          have kept := sysReturn_eax ((s.userToSysStats.listDel child).forkInto child).2 result
          rwa [current] at kept
        rw [returned]
        rcases forkInto_answer (s.userToSysStats.listDel child) child with
          ⟨live, failed⟩ | ⟨live, told⟩
        · rw [failed]
          exact Or.inl ⟨live, by decide⟩
        · refine Or.inr ⟨child, ?_, live, told⟩
          rw [queue]
          exact List.mem_cons_self
  | clone function stack =>
      have shape : s.systemCall (.clone function stack) =
          (s.userToSysStats.sysClone function stack).2.sysReturn
            (s.userToSysStats.sysClone function stack).1 := rfl
      rw [shape]
      unfold sysClone
      split_ifs with denied empty
      · exact Or.inl (refused (-efault) (by decide))
      · exact Or.inl (refused (-eagain) (by decide))
      · obtain ⟨child, rest, queue⟩ := nonempty empty
        rw [entered.refines.listFirst queue]
        refine Or.inr ⟨child, ?_, rfl, Function.update_self _ _ _⟩
        rw [queue]
        exact List.mem_cons_self
  | _ => exact absurd creates id

/-- The PID that a caller of fork or clone is told in the step. -/
def toldPid (s : Kernel) (event : Event) (s' : Kernel) : Option Int :=
  match event with
  | .syscall call =>
      if call.Creates ∧ 0 ≤ s'.eax s.current then some (s'.eax s.current) else none
  | _ => none

/-- What a step does to the processes. -/
inductive Generation (s : Kernel) (event : Event) (s' : Kernel) : Prop where
  | born (child : TaskId) :
      event ≠ .syscall .exit →
      s.live child = false →
      s'.live = Function.update s.live child true →
      (∀ t, (s'.task t).pid = if t = child then s.globalPID else (s.task t).pid) →
      s'.globalPID = int32 (s.globalPID + 1) →
      (0 ≤ s.globalPID → toldPid s event s' = some s.globalPID) →
      child ∈ s'.queue .readyqueue →
      s'.context child = .retFromFork →
      Generation s event s'
  | died :
      event = .syscall .exit →
      s'.live = Function.update s.live s.current false →
      (∀ t, t ≠ s.current → (s'.task t).pid = (s.task t).pid) →
      s'.globalPID = s.globalPID →
      Generation s event s'
  | stays :
      event ≠ .syscall .exit →
      s'.live = s.live →
      (∀ t, s.live t = true → (s'.task t).pid = (s.task t).pid) →
      s'.globalPID = s.globalPID →
      toldPid s event s' = none →
      Generation s event s'

theorem creating_generation (orderly : s.Orderly) (creates : call.Creates)
    (taken : s.step (.syscall call) = some s') : Generation s (.syscall call) s' := by
  have notExit : Event.syscall call ≠ .syscall .exit := by
    rintro same
    cases same
    exact creates
  have told := creating_told orderly creates
  rw [syscall_of_handle (handle_of_step taken)] at told
  have silent : s'.live = s.live → toldPid s (.syscall call) s' = none := by
    intro live
    refine if_neg fun both => ?_
    rcases told with ⟨_, negative⟩ | ⟨child, free, born, _⟩
    · exact absurd both.2 (not_le.mpr negative)
    · have alive := congrFun born child
      rw [live, orderly.dead free, Function.update_self] at alive
      cases alive
  cases turn_of_step orderly taken with
  | stays _ view kept _ =>
      have live : s'.live = s.live := congrArg View.live view
      exact .stays notExit live (fun t _ => kept.pid t) kept.globalPID (silent live)
  | @created _ child _ _ _ free view _ _ pid globalPID _ =>
      have dead := orderly.dead free
      have born : s'.live = Function.update s.live child true := congrArg View.live view
      have ready : child ∈ s'.view.queue .readyqueue := by
        rw [view]
        exact (View.mem_create orderly.settled.toParked free).mpr (Or.inl ⟨rfl, rfl⟩)
      have context : s'.context child = .retFromFork :=
        (congrFun (congrArg View.context view) child).trans (Function.update_self _ _ _)
      refine .born child notExit dead born pid globalPID (fun positive => ?_) ready context
      rcases told with ⟨live, _⟩ | ⟨other, _, live, result⟩
      · have alive := congrFun born child
        rw [live, dead, Function.update_self] at alive
        cases alive
      · have same : other = child := by
          by_contra different
          have alive := congrFun live child
          rw [born, Function.update_self, Function.update_of_ne (Ne.symm different),
            dead] at alive
          cases alive
        rw [same, pid child, if_pos rfl] at result
        unfold toldPid
        dsimp only
        rw [result, if_pos ⟨creates, positive⟩]
  | @recycled child _ _ _ _ free view _ _ pid globalPID _ =>
      have dead := orderly.dead free
      have live : s'.live = s.live := congrArg View.live view
      refine .stays notExit live (fun t alive => pid t ?_) globalPID (silent live)
      rintro rfl
      rw [dead] at alive
      cases alive
  | _ => exact absurd creates id

theorem generation_of_step (orderly : s.Orderly) (taken : s.step event = some s') :
    Generation s event s' := by
  have handled := handle_of_step taken
  by_cases isExit : event = .syscall .exit
  · subst isExit
    have called := syscall_of_handle handled
    rw [handle] at handled
    split_ifs at handled with user
    obtain ⟨_, pid, live, _⟩ := exit_state orderly user.2
    rw [called] at pid live
    refine .died rfl live pid ?_
    cases turn_of_step orderly taken with
    | stays _ _ kept _ => exact kept.globalPID
    | exited _ _ _ _ _ _ globalPID _ => exact globalPID
    | created creates _ _ _ _ _ _ _ _ => exact absurd creates id
  · by_cases creating : ∃ call : Syscall, event = .syscall call ∧ call.Creates
    · obtain ⟨call, rfl, creates⟩ := creating
      exact creating_generation orderly creates taken
    · have silent : toldPid s event s' = none := by
        unfold toldPid
        split
        · next call => exact if_neg fun both => creating ⟨call, rfl, both.1⟩
        · rfl
      have kept : s'.live = s.live → (∀ t, (s'.task t).pid = (s.task t).pid) →
          s'.globalPID = s.globalPID → Generation s event s' :=
        fun live pid globalPID => .stays isExit live (fun t _ => pid t) globalPID silent
      have liveOf : ∀ {v : View}, s'.view = v → s'.live = v.live :=
        fun view => congrArg View.live view
      cases turn_of_step orderly taken with
      | stays _ view keeps _ => exact kept (liveOf view) keeps.pid keeps.globalPID
      | preempted _ view keeps _ => exact kept (liveOf view) keeps.pid keeps.globalPID
      | served _ view keeps _ => exact kept (liveOf view) keeps.pid keeps.globalPID
      | asked _ _ view keeps _ => exact kept (liveOf view) keeps.pid keeps.globalPID
      | again _ _ _ view keeps _ => exact kept (liveOf view) keeps.pid keeps.globalPID
      | took _ _ _ view sets _ _ => exact kept (liveOf view) sets.pid sets.globalPID
      | waited _ _ _ _ view keeps _ => exact kept (liveOf view) keeps.pid keeps.globalPID
      | raised _ _ _ view sets _ _ => exact kept (liveOf view) sets.pid sets.globalPID
      | woke _ _ _ _ view keeps _ => exact kept (liveOf view) keeps.pid keeps.globalPID
      | opened _ _ view sets _ _ => exact kept (liveOf view) sets.pid sets.globalPID
      | destroyed _ _ _ _ released sets _ _ =>
          exact kept released.live sets.pid sets.globalPID
      | exited _ _ _ _ _ _ _ _ => exact absurd rfl isExit
      | created creates _ _ _ _ _ _ _ _ => exact absurd ⟨_, rfl, creates⟩ creating
      | recycled _ _ _ _ _ _ _ _ => exact absurd ⟨_, rfl, trivial⟩ creating

/-! ## The observer -/

/-- What the observer of births knows: the PIDs that were given out, the last one first, how
many processes exited, the PID under which each one was announced, and who has not run
yet. -/
structure Register where
  given : List Int
  exits : Nat
  named : TaskId → Option Int
  newborn : TaskId → Bool

/-- `init_idle` and `init_task1` give out 0 and 1. -/
def Register.initial : Register where
  given := [1, 0]
  exits := 0
  named := Function.update (Function.update (fun _ => none) 0 (some 0)) 1 (some 1)
  newborn _ := false

/-- The process was made in the step. -/
def MadeIn (s s' : Kernel) (t : TaskId) : Prop := s.live t = false ∧ s'.live t = true

instance (s s' : Kernel) (t : TaskId) : Decidable (MadeIn s s' t) :=
  inferInstanceAs (Decidable (_ ∧ _))

def watchBirths (s : Kernel) (event : Event) (s' : Kernel) (r : Register) : Register where
  given := (toldPid s event s').toList ++ r.given
  exits := if event = .syscall .exit then r.exits + 1 else r.exits
  named t := if MadeIn s s' t then toldPid s event s' else r.named t
  newborn t :=
    if MadeIn s s' t then true
    else if event = .resume ∧ s.current = t then false
    else r.newborn t

/-- The processes, the idle one included. -/
def processes (s : Kernel) : Finset TaskId := Finset.univ.filter fun t => s.live t = true

theorem mem_processes : t ∈ s.processes ↔ s.live t = true := by
  simp [processes]

/-- The callers, the processes and the kernel agree on who exists. -/
structure Census (s : Kernel) (r : Register) : Prop where
  numbered : r.given.reverse = (List.range r.given.length).map fun k : Nat => (k : Int)
  population : s.processes.card + r.exits = r.given.length
  named : ∀ t, s.live t = true →
    r.named t = some (s.task t).pid ∧ (s.task t).pid ∈ r.given
  distinct : ∀ t u, s.live t = true → s.live u = true →
    (s.task t).pid = (s.task u).pid → t = u
  newborn : ∀ t, r.newborn t = true → s.live t = true ∧ Returning t s ∧
    ∀ s', s.current = t → s.step .resume = some s' → s'.mode = .user ∧ s'.eax t = 0

/-- What the census relies on. -/
structure Recorded (s : Kernel) (r : Register) : Prop where
  pids : PidsIssued s r.given.length
  numbered : r.given.reverse = (List.range r.given.length).map fun k : Nat => (k : Int)
  population : s.processes.card + r.exits = r.given.length
  named : ∀ t, s.live t = true → r.named t = some (s.task t).pid
  newborn : ∀ t, r.newborn t = true → s.live t = true ∧ Returning t s ∧
    s.context t = .retFromFork

theorem Recorded.census {r : Register} (recorded : Recorded s r) : Census s r := by
  refine ⟨recorded.numbered, recorded.population, fun t alive => ⟨recorded.named t alive, ?_⟩,
    recorded.pids.distinct, fun t isNew => ?_⟩
  · obtain ⟨lower, upper⟩ := recorded.pids.range t alive
    rw [← List.mem_reverse, recorded.numbered, List.mem_map]
    refine ⟨(s.task t).pid.toNat, List.mem_range.mpr ?_, ?_⟩
    · omega
    · omega
  · obtain ⟨alive, returning, context⟩ := recorded.newborn t isNew
    refine ⟨alive, returning, fun s' isCurrent resumed => ?_⟩
    subst isCurrent
    have handled := handle_of_step resumed
    rw [handle] at handled
    split_ifs at handled
    cases handled
    unfold resume
    rw [context]
    exact ⟨rfl, s.sysReturn_eax 0⟩

/-- A process that has not run yet stays so until it is dispatched and goes on. -/
theorem newborn_kept (orderly : s.Orderly) (taken : s.step event = some s')
    (returning : Returning t s) (context : s.context t = .retFromFork)
    (waits : ¬ (event = .resume ∧ s.current = t)) :
    s.current ≠ t ∧ Returning t s' ∧ s'.context t = .retFromFork := by
  have notCurrent : s.current ≠ t := by
    rintro rfl
    rcases returning with ready | ⟨_, switched⟩
    · exact orderly.settled.away ready rfl
    · have handled := handle_of_step taken
      unfold handle at handled
      rw [switched] at handled
      cases event with
      | resume => exact waits ⟨rfl, rfl⟩
      | _ => simp at handled
  obtain ⟨kept, later⟩ := (turn_of_step orderly taken).returning orderly returning notCurrent
  exact ⟨notCurrent, later, kept.trans context⟩

theorem madeIn_iff_of_born (dead : s.live child = false)
    (live : s'.live = Function.update s.live child true) : MadeIn s s' t ↔ t = child := by
  unfold MadeIn
  rw [live]
  by_cases isChild : t = child
  · rw [isChild, Function.update_self]
    exact iff_of_true ⟨dead, rfl⟩ rfl
  · rw [Function.update_of_ne isChild]
    refine iff_of_false (fun both => ?_) isChild
    rw [both.1] at both
    cases both.2

theorem not_madeIn (kept : s'.live t = true → s.live t = true) : ¬ MadeIn s s' t := by
  rintro ⟨before, alive⟩
  rw [kept alive] at before
  cases before

theorem card_processes_born (dead : s.live child = false)
    (live : s'.live = Function.update s.live child true) :
    s'.processes.card = s.processes.card + 1 := by
  have grown : s'.processes = insert child s.processes := by
    ext t
    rw [Finset.mem_insert, mem_processes, mem_processes, live]
    by_cases isChild : t = child
    · simp [isChild]
    · rw [Function.update_of_ne isChild]
      exact (or_iff_right isChild).symm
  have fresh : child ∉ s.processes := by
    rw [mem_processes, dead]
    decide
  rw [grown, Finset.card_insert_of_notMem fresh]

theorem card_processes_died (alive : s.live t = true)
    (live : s'.live = Function.update s.live t false) :
    s'.processes.card + 1 = s.processes.card := by
  have shrunk : s'.processes = s.processes.erase t := by
    ext u
    rw [Finset.mem_erase, mem_processes, mem_processes, live]
    by_cases gone : u = t
    · simp [gone]
    · rw [Function.update_of_ne gone]
      exact (and_iff_right gone).symm
  rw [shrunk]
  exact Finset.card_erase_add_one (mem_processes.mpr alive)

section Recorded

variable {r : Register}

theorem Recorded.newborn_step (recorded : Recorded s r) (orderly : s.Orderly)
    (taken : s.step event = some s') (old : ¬ MadeIn s s' t)
    (isNew : (watchBirths s event s' r).newborn t = true) :
    s.current ≠ t ∧ s.live t = true ∧ Returning t s' ∧ s'.context t = .retFromFork := by
  dsimp only [watchBirths] at isNew
  rw [if_neg old] at isNew
  split_ifs at isNew with begins
  obtain ⟨alive, returning, context⟩ := recorded.newborn t isNew
  obtain ⟨notCurrent, later, kept⟩ := newborn_kept orderly taken returning context begins
  exact ⟨notCurrent, alive, later, kept⟩

/-- The register counts the PIDs as `PidsIssued` does. -/
theorem Recorded.issued (recorded : Recorded s r) (orderly : s.Orderly)
    (taken : s.step event = some s')
    (counted : watchPids s event s' r.given.length = (watchBirths s event s' r).given.length)
    (few : (watchBirths s event s' r).given.length < 2 ^ 31) :
    PidsIssued s' (watchBirths s event s' r).given.length := by
  rw [← counted] at few ⊢
  exact recorded.pids.turn orderly few (turn_of_step orderly taken)

/-- A step that gives out no PID keeps the order of those that were given out. -/
theorem Recorded.silent (recorded : Recorded s r) (orderly : s.Orderly)
    (taken : s.step event = some s') (globalPID : s'.globalPID = s.globalPID)
    (given : (watchBirths s event s' r).given = r.given) (few : r.given.length < 2 ^ 31) :
    PidsIssued s' (watchBirths s event s' r).given.length ∧
      (watchBirths s event s' r).given.reverse =
        (List.range (watchBirths s event s' r).given.length).map fun k : Nat => (k : Int) := by
  have counted : watchPids s event s' r.given.length = r.given.length := if_pos globalPID
  refine ⟨recorded.issued orderly taken ?_ ?_, ?_⟩
  · rw [given, counted]
  · rwa [given]
  · rw [given]
    exact recorded.numbered

theorem Recorded.born (recorded : Recorded s r) (orderly : s.Orderly)
    (taken : s.step event = some s')
    (few : (watchBirths s event s' r).given.length < 2 ^ 31)
    (notExit : event ≠ .syscall .exit) (dead : s.live child = false)
    (live : s'.live = Function.update s.live child true)
    (pid : ∀ t, (s'.task t).pid = if t = child then s.globalPID else (s.task t).pid)
    (globalPID : s'.globalPID = int32 (s.globalPID + 1))
    (told : toldPid s event s' = some s.globalPID)
    (ready : child ∈ s'.queue .readyqueue) (context : s'.context child = .retFromFork) :
    Recorded s' (watchBirths s event s' r) := by
  have given : (watchBirths s event s' r).given = s.globalPID :: r.given := by
    simp [watchBirths, told]
  have counted : watchPids s event s' r.given.length = r.given.length + 1 :=
    if_neg (by
      rw [globalPID]
      exact int32_succ_ne _)
  have made : ∀ t, MadeIn s s' t ↔ t = child := fun t => madeIn_iff_of_born dead live
  refine ⟨recorded.issued orderly taken ?_ few, ?_, ?_, ?_, ?_⟩
  · rw [counted, given, List.length_cons]
  · rw [given, List.reverse_cons, recorded.numbered, List.length_cons, List.range_succ,
      List.map_append, recorded.pids.next]
    rfl
  · have grown := card_processes_born dead live
    have exits : (watchBirths s event s' r).exits = r.exits := if_neg notExit
    have population := recorded.population
    rw [grown, given, exits, List.length_cons]
    omega
  · intro t alive
    dsimp only [watchBirths]
    by_cases isChild : t = child
    · rw [if_pos ((made t).mpr isChild), told, pid t, if_pos isChild]
    · rw [live, Function.update_of_ne isChild] at alive
      rw [if_neg ((made t).not.mpr isChild), pid t, if_neg isChild]
      exact recorded.named t alive
  · intro t isNew
    by_cases isChild : t = child
    · rw [isChild]
      refine ⟨?_, Or.inl ready, context⟩
      rw [live, Function.update_self]
    · obtain ⟨_, alive, later, kept⟩ :=
        recorded.newborn_step orderly taken ((made t).not.mpr isChild) isNew
      refine ⟨?_, later, kept⟩
      rwa [live, Function.update_of_ne isChild]

theorem Recorded.died (recorded : Recorded s r) (orderly : s.Orderly)
    (taken : s.step event = some s') (few : r.given.length < 2 ^ 31)
    (isExit : event = .syscall .exit)
    (live : s'.live = Function.update s.live s.current false)
    (pid : ∀ t, t ≠ s.current → (s'.task t).pid = (s.task t).pid)
    (globalPID : s'.globalPID = s.globalPID) : Recorded s' (watchBirths s event s' r) := by
  have silent : toldPid s event s' = none := by
    rw [isExit]
    unfold toldPid
    dsimp only
    exact if_neg fun both => both.1
  have given : (watchBirths s event s' r).given = r.given := by
    simp [watchBirths, silent]
  have stays : ∀ t, s'.live t = true → t ≠ s.current ∧ s.live t = true := by
    intro t alive
    rw [live] at alive
    by_cases gone : t = s.current
    · rw [gone, Function.update_self] at alive
      cases alive
    · rw [Function.update_of_ne gone] at alive
      exact ⟨gone, alive⟩
  have old : ∀ t, ¬ MadeIn s s' t := fun t => not_madeIn fun alive => (stays t alive).2
  obtain ⟨pids, numbered⟩ := recorded.silent orderly taken globalPID given few
  refine ⟨pids, numbered, ?_, ?_, ?_⟩
  · have fewer := card_processes_died orderly.settled.currentLive live
    have exits : (watchBirths s event s' r).exits = r.exits + 1 := if_pos isExit
    have population := recorded.population
    rw [given, exits]
    omega
  · intro t alive
    obtain ⟨other, before⟩ := stays t alive
    dsimp only [watchBirths]
    rw [if_neg (old t), pid t other]
    exact recorded.named t before
  · intro t isNew
    obtain ⟨other, alive, later, kept⟩ := recorded.newborn_step orderly taken (old t) isNew
    refine ⟨?_, later, kept⟩
    rwa [live, Function.update_of_ne (Ne.symm other)]

theorem Recorded.stays (recorded : Recorded s r) (orderly : s.Orderly)
    (taken : s.step event = some s') (few : r.given.length < 2 ^ 31)
    (notExit : event ≠ .syscall .exit) (live : s'.live = s.live)
    (pid : ∀ t, s.live t = true → (s'.task t).pid = (s.task t).pid)
    (globalPID : s'.globalPID = s.globalPID) (silent : toldPid s event s' = none) :
    Recorded s' (watchBirths s event s' r) := by
  have given : (watchBirths s event s' r).given = r.given := by
    simp [watchBirths, silent]
  have old : ∀ t, ¬ MadeIn s s' t := fun t => not_madeIn fun alive => by rwa [live] at alive
  obtain ⟨pids, numbered⟩ := recorded.silent orderly taken globalPID given few
  refine ⟨pids, numbered, ?_, ?_, ?_⟩
  · have exits : (watchBirths s event s' r).exits = r.exits := if_neg notExit
    have same : s'.processes = s.processes := by
      unfold processes
      rw [live]
    rw [same, given, exits]
    exact recorded.population
  · intro t alive
    rw [live] at alive
    dsimp only [watchBirths]
    rw [if_neg (old t), pid t alive]
    exact recorded.named t alive
  · intro t isNew
    obtain ⟨_, alive, later, kept⟩ := recorded.newborn_step orderly taken (old t) isNew
    exact ⟨by rwa [live], later, kept⟩

theorem Recorded.step (recorded : Recorded s r) (orderly : s.Orderly)
    (taken : s.step event = some s')
    (few : (watchBirths s event s' r).given.length < 2 ^ 31) :
    Recorded s' (watchBirths s event s' r) := by
  have fewer : r.given.length < 2 ^ 31 := by
    have longer : r.given.length ≤ (watchBirths s event s' r).given.length := by
      simp [watchBirths]
    omega
  cases generation_of_step orderly taken with
  | born child notExit dead live pid globalPID told ready context =>
      have positive : 0 ≤ s.globalPID := by
        rw [recorded.pids.next]
        omega
      exact recorded.born orderly taken few notExit dead live pid globalPID (told positive)
        ready context
  | died isExit live pid globalPID =>
      exact recorded.died orderly taken fewer isExit live pid globalPID
  | stays notExit live pid globalPID silent =>
      exact recorded.stays orderly taken fewer notExit live pid globalPID silent

end Recorded

theorem boot_recorded (image : BootImage) : Recorded (boot image) .initial := by
  have idle : ((boot image).task 0).pid = 0 := rfl
  have first : ((boot image).task 1).pid = 1 := rfl
  have alive : (boot image).processes = {0, 1} := by
    ext t
    rw [mem_processes, boot_view_live]
    revert t
    decide
  refine ⟨boot_pids image, rfl, ?_, ?_, nofun⟩
  · rw [alive]
    rfl
  · intro t live
    rcases boot_live live with rfl | rfl
    · rw [idle]
      rfl
    · rw [first]
      rfl

/-- In every run with fewer than `2 ^ 31` PIDs: they are given out in order, each to one
process, which keeps it and whose parent was told it; no other call makes a process; and a
new process comes back in user mode with the result 0. -/
theorem births_agree {image : BootImage} {r : Register}
    (run : Library.Observe step watchBirths (fun _ _ => True) (boot image) .initial s r)
    (few : r.given.length < 2 ^ 31) : Census s r := by
  have recorded : r.given.length < 2 ^ 31 → Recorded s r := by
    refine Library.Reach.observe_invariant
      (fun s r => r.given.length < 2 ^ 31 → Recorded s r) (fun _ => boot_recorded image)
      (fun _ plain => orderly_of_reachable plain) ?_ run
    intro before event after r orderly known _ taken fewer
    have longer : r.given.length ≤ (watchBirths before event after r).given.length := by
      simp [watchBirths]
    exact (known (by omega)).step orderly taken fewer
  exact (recorded few).census

/-- A child that is made by fork makes another one by clone and exits. -/
theorem births_agree_family :
    let last := Library.lastState (Library.observed step watchBirths)
      (boot sampleImage, .initial) [.syscall .fork, .syscall (.read 0 0x10A000 1), .resume,
        .syscall (.clone 0x100000 0x10A000), .syscall .exit]
    last.2.given = [3, 2, 1, 0] ∧ last.2.newborn 3 = true ∧ last.1.current = 3 ∧
      Census last.1 last.2 := by
  intro last
  have seen : last.2.given = [3, 2, 1, 0] ∧ last.2.newborn 3 = true ∧ last.1.current = 3 := by
    decide +kernel
  obtain ⟨given, isNew, isCurrent⟩ := seen
  have run : Library.Observe step watchBirths (fun _ _ => True) (boot sampleImage) .initial
      last.1 last.2 := Library.Reach.lastObserved fun _ _ _ => trivial
  exact ⟨given, isNew, isCurrent, births_agree run (by
    rw [given]
    decide)⟩

end Kernel

end Zeos
