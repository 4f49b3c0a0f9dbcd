import Zeos.Sched.Boot
import Zeos.Sched.Reachable
import Zeos.Sched.Turns

/-!
# The owners of semaphores

A semaphore belongs to the process with the PID in its slot.  PIDs come from a
counter, so while it does not wrap around no two live processes share one, and
the loop of `sys_exit` finds every semaphore of the process that exits.
-/

namespace Zeos

namespace Kernel

variable {s s' : Kernel} {event : Event} {issued : Nat}

/-- Count the PIDs: one for each `global_PID++`. -/
def watchPids (s : Kernel) (_ : Event) (s' : Kernel) (issued : Nat) : Nat :=
  if s'.globalPID = s.globalPID then issued else issued + 1

/-- When `sys_exit` calls `sched_next_rr`, the caller owns no semaphore and the
waiters of its semaphores are ready. -/
structure ExitReleases (s reached : Kernel) : Prop where
  calls : s.systemCall .exit = reached.schedNextRr .exited
  owner : ∀ n, (reached.semaphores n).ownerPID ≠ s.currentTask.pid
  waiters : ∀ n, (s.semaphores n).ownerPID = s.currentTask.pid →
    ∀ t ∈ s.queue (.semaphore n), t ∈ reached.queue .readyqueue ∧
      (reached.task t).execStatus = .stReady

structure SemaphoresOwned (s : Kernel) : Prop where
  owner : ∀ n, 0 ≤ (s.semaphores n).ownerPID →
    ∃! t, s.live t = true ∧ (s.task t).pid = (s.semaphores n).ownerPID
  empty : ∀ n, (s.semaphores n).ownerPID < 0 → s.queue (.semaphore n) = []
  exit : s.mode = .user → s.current ≠ s.idleTask →
    ExitReleases s s.userToSysStats.exiting

/-- The PIDs of live processes are distinct and below the counter. -/
structure PidsIssued (s : Kernel) (issued : Nat) : Prop where
  next : s.globalPID = issued
  range : ∀ t, s.live t = true → 0 ≤ (s.task t).pid ∧ (s.task t).pid < issued
  distinct : ∀ t u, s.live t = true → s.live u = true →
    (s.task t).pid = (s.task u).pid → t = u
  owners : ∀ n, 0 ≤ (s.semaphores n).ownerPID →
    ∃ t, s.live t = true ∧ (s.task t).pid = (s.semaphores n).ownerPID

theorem le_watchPids (s : Kernel) (event : Event) (s' : Kernel) (issued : Nat) :
    issued ≤ watchPids s event s' issued := by
  unfold watchPids
  split_ifs
  · exact le_refl issued
  · exact Nat.le_succ issued

namespace PidsIssued

/-- No process comes or goes, and owners are live processes. -/
theorem frame (pids : PidsIssued s issued) (live : s'.live = s.live)
    (pid : ∀ t, s.live t = true → (s'.task t).pid = (s.task t).pid)
    (globalPID : s'.globalPID = s.globalPID)
    (owners : ∀ n, 0 ≤ (s'.semaphores n).ownerPID →
      (s'.semaphores n).ownerPID = (s.semaphores n).ownerPID ∨
        ∃ t, s.live t = true ∧ (s.task t).pid = (s'.semaphores n).ownerPID) :
    PidsIssued s' (watchPids s event s' issued) := by
  have same : watchPids s event s' issued = issued := if_pos globalPID
  rw [same]
  refine ⟨globalPID.trans pids.next, ?_, ?_, ?_⟩
  · intro t alive
    rw [live] at alive
    rw [pid t alive]
    exact pids.range t alive
  · intro t u alive aliveToo samePid
    rw [live] at alive aliveToo
    rw [pid t alive, pid u aliveToo] at samePid
    exact pids.distinct t u alive aliveToo samePid
  · intro n used
    have owner : ∃ t, s.live t = true ∧
        (s.task t).pid = (s'.semaphores n).ownerPID := by
      rcases owners n used with kept | found
      · rw [kept] at used ⊢
        exact pids.owners n used
      · exact found
    obtain ⟨t, alive, isOwner⟩ := owner
    refine ⟨t, ?_, ?_⟩
    · rw [live]
      exact alive
    · rw [pid t alive]
      exact isOwner

theorem keeps (pids : PidsIssued s issued) (live : s'.live = s.live)
    (kept : s.KeepsSems s') :
    PidsIssued s' (watchPids s event s' issued) := by
  apply pids.frame live (fun t _ => kept.pid t) kept.globalPID
  intro n _
  exact Or.inl (by rw [kept.semaphores])

theorem setsSem {n : SemId} {sem : Semaphore} (pids : PidsIssued s issued)
    (live : s'.live = s.live) (sets : s.SetsSem n sem s')
    (owner : sem.ownerPID = (s.semaphores n).ownerPID ∨ sem.ownerPID < 0 ∨
      ∃ t, s.live t = true ∧ (s.task t).pid = sem.ownerPID) :
    PidsIssued s' (watchPids s event s' issued) := by
  apply pids.frame live (fun t _ => sets.pid t) sets.globalPID
  intro m used
  rw [sets.semaphores] at used ⊢
  by_cases same : m = n
  · subst same
    rw [Function.update_self] at used ⊢
    rcases owner with kept | unused | found
    · exact Or.inl kept
    · omega
    · exact Or.inr found
  · rw [Function.update_of_ne same]
    exact Or.inl rfl

/-- A process exits, and its semaphores with it. -/
theorem exited (pids : PidsIssued s issued)
    (live : s'.live = Function.update s.live s.current false)
    (semaphores : ∀ n, s'.semaphores n =
      if s.Owned n then (s.semaphores n).destroyed else s.semaphores n)
    (pid : ∀ t, (s'.task t).pid = if t = s.current then -1 else (s.task t).pid)
    (globalPID : s'.globalPID = s.globalPID) :
    PidsIssued s' (watchPids s event s' issued) := by
  have same : watchPids s event s' issued = issued := if_pos globalPID
  have stays : ∀ t, s'.live t = true → t ≠ s.current ∧ s.live t = true ∧
      (s'.task t).pid = (s.task t).pid := by
    intro t alive
    rw [live] at alive
    by_cases gone : t = s.current
    · rw [gone, Function.update_self] at alive
      cases alive
    · rw [Function.update_of_ne gone] at alive
      exact ⟨gone, alive, (pid t).trans (if_neg gone)⟩
  rw [same]
  refine ⟨globalPID.trans pids.next, ?_, ?_, ?_⟩
  · intro t alive
    obtain ⟨_, before, kept⟩ := stays t alive
    rw [kept]
    exact pids.range t before
  · intro t u alive aliveToo samePid
    obtain ⟨_, before, kept⟩ := stays t alive
    obtain ⟨_, beforeToo, keptToo⟩ := stays u aliveToo
    rw [kept, keptToo] at samePid
    exact pids.distinct t u before beforeToo samePid
  · intro n used
    rw [semaphores n] at used ⊢
    by_cases owned : s.Owned n
    · rw [if_pos owned] at used
      cases used
    · rw [if_neg owned] at used ⊢
      obtain ⟨t, alive, isOwner⟩ := pids.owners n used
      have notGone : t ≠ s.current := by
        intro gone
        subst gone
        exact owned ⟨used, isOwner.symm⟩
      refine ⟨t, ?_, ?_⟩
      · rw [live, Function.update_of_ne notGone]
        exact alive
      · rw [pid t, if_neg notGone]
        exact isOwner

/-- A process comes, with the next PID. -/
theorem created {child : TaskId} (pids : PidsIssued s issued)
    (dead : s.live child = false)
    (live : s'.live = Function.update s.live child true)
    (semaphores : s'.semaphores = s.semaphores)
    (pid : ∀ t, (s'.task t).pid =
      if t = child then s.globalPID else (s.task t).pid)
    (globalPID : s'.globalPID = int32 (s.globalPID + 1))
    (few : issued + 1 < 2 ^ 31) :
    PidsIssued s' (watchPids s event s' issued) := by
  have next : s'.globalPID = (issued : Int) + 1 := by
    rw [globalPID, pids.next, int32_of_range (by omega) (by omega)]
  have counted : watchPids s event s' issued = issued + 1 := by
    apply if_neg
    rw [next, pids.next]
    omega
  have stays : ∀ t, t ≠ child → s'.live t = s.live t ∧
      (s'.task t).pid = (s.task t).pid := by
    intro t other
    rw [live, Function.update_of_ne other, pid t, if_neg other]
    exact ⟨rfl, rfl⟩
  have own : (s'.task child).pid = issued := by
    rw [pid child, if_pos rfl, pids.next]
  have below : ∀ t, t ≠ child → s'.live t = true →
      0 ≤ (s'.task t).pid ∧ (s'.task t).pid < issued := by
    intro t other alive
    obtain ⟨same, kept⟩ := stays t other
    rw [same] at alive
    rw [kept]
    exact pids.range t alive
  rw [counted]
  refine ⟨by rw [next]; rfl, ?_, ?_, ?_⟩
  · intro t alive
    by_cases isChild : t = child
    · rw [isChild, own]
      omega
    · have range := below t isChild alive
      omega
  · intro t u alive aliveToo samePid
    by_cases isChild : t = child
    · by_cases isChildToo : u = child
      · rw [isChild, isChildToo]
      · have range := below u isChildToo aliveToo
        rw [isChild, own] at samePid
        omega
    · by_cases isChildToo : u = child
      · have range := below t isChild alive
        rw [isChildToo, own] at samePid
        omega
      · obtain ⟨same, kept⟩ := stays t isChild
        obtain ⟨sameToo, keptToo⟩ := stays u isChildToo
        rw [kept, keptToo] at samePid
        exact pids.distinct t u (same ▸ alive) (sameToo ▸ aliveToo) samePid
  · intro n used
    rw [semaphores] at used ⊢
    obtain ⟨t, alive, isOwner⟩ := pids.owners n used
    have other : t ≠ child := by
      intro isChild
      rw [isChild, dead] at alive
      cases alive
    obtain ⟨same, kept⟩ := stays t other
    exact ⟨t, same.trans alive, kept.trans isOwner⟩

theorem turn (pids : PidsIssued s issued) (orderly : s.Orderly)
    (few : watchPids s event s' issued < 2 ^ 31) (turn : Turn s event s') :
    PidsIssued s' (watchPids s event s' issued) := by
  have liveOf : ∀ {v : View}, s'.view = v → v.live = s.live →
      s'.live = s.live := fun view same => (congrArg View.live view).trans same
  cases turn with
  | stays _ view kept _ => exact pids.keeps (liveOf view rfl) kept
  | preempted _ view kept _ => exact pids.keeps (liveOf view rfl) kept
  | served _ view kept _ => exact pids.keeps (liveOf view rfl) kept
  | asked _ _ view kept _ => exact pids.keeps (liveOf view rfl) kept
  | again _ _ _ view kept _ => exact pids.keeps (liveOf view rfl) kept
  | took _ _ _ view sets _ _ =>
      exact pids.setsSem (liveOf view rfl) sets (Or.inl rfl)
  | waited _ _ _ _ view kept _ => exact pids.keeps (liveOf view rfl) kept
  | raised _ _ _ view sets _ _ =>
      exact pids.setsSem (liveOf view rfl) sets (Or.inl rfl)
  | woke _ _ _ _ view kept _ => exact pids.keeps (liveOf view rfl) kept
  | opened _ _ view sets _ _ =>
      exact pids.setsSem (liveOf view rfl) sets
        (Or.inr (Or.inr ⟨s.current, orderly.settled.currentLive, rfl⟩))
  | destroyed _ _ _ _ released sets _ _ =>
      exact pids.setsSem released.live sets
        (Or.inr (Or.inl (show (-1 : Int) < 0 by decide)))
  | exited _ released view semaphores _ pid globalPID _ =>
      refine pids.exited ?_ semaphores pid globalPID
      have live := congrArg View.live view
      change s'.live = Function.update _ _ false at live
      rw [live, released.live, released.current]
      rfl
  | @created _ child _ _ _ member view semaphores _ pid globalPID _ =>
      have dead := orderly.dead member
      apply pids.created dead (congrArg View.live view) semaphores pid globalPID
      have changed : s'.globalPID ≠ s.globalPID := by
        rw [globalPID]
        exact int32_succ_ne _
      unfold watchPids at few
      rwa [if_neg changed] at few
  | @recycled child _ _ _ _ member view semaphores _ pid globalPID _ =>
      have dead := orderly.dead member
      apply pids.frame (liveOf view rfl) ?_ globalPID
      · intro n _
        exact Or.inl (by rw [semaphores])
      · intro t alive
        apply pid t
        intro isChild
        subst isChild
        exact absurd (dead.symm.trans alive) (by decide)

end PidsIssued

theorem boot_pids (image : BootImage) : PidsIssued (boot image) 2 := by
  have idle : ((boot image).task 0).pid = 0 := rfl
  have first : ((boot image).task 1).pid = 1 := rfl
  refine ⟨rfl, ?_, ?_, ?_⟩
  · intro t alive
    rcases boot_live alive with isIdle | isFirst
    · rw [isIdle, idle]
      omega
    · rw [isFirst, first]
      omega
  · intro t u alive aliveToo samePid
    rcases boot_live alive with rfl | rfl <;> rcases boot_live aliveToo with rfl | rfl
    · rfl
    · rw [idle, first] at samePid
      omega
    · rw [idle, first] at samePid
      omega
    · rfl
  · intro n used
    have unused : ((boot image).semaphores n).ownerPID = -1 := rfl
    omega

theorem exitReleases (orderly : s.Orderly) (pids : PidsIssued s issued)
    (busy : s.current ≠ s.idleTask) :
    ExitReleases s s.userToSysStats.exiting := by
  have entered := orderly.userToSysStats
  obtain ⟨v, released, settled, refines, semaphores, _, _, _⟩ :=
    exiting_spec entered.refines entered.settled busy
  have known : ∀ n, (s.semaphores n).ownerPID = s.currentTask.pid → s.Owned n := by
    intro n owner
    have range := pids.range s.current orderly.settled.currentLive
    exact ⟨by rw [owner]; exact range.1, owner⟩
  refine ⟨rfl, ?_, ?_⟩
  · intro n owner
    rw [semaphores n] at owner
    split_ifs at owner with owned
    · have positive : 0 ≤ s.currentTask.pid :=
        (pids.range s.current orderly.settled.currentLive).1
      have negative : -1 = s.currentTask.pid := owner
      omega
    · exact owned (known n owner)
  · intro n owner t waiting
    obtain ⟨tasks, ready, members⟩ := released.woken
    have woken : t ∈ v.queue .readyqueue := by
      rw [ready]
      exact List.mem_append_left _ ((members t).mpr ⟨n, known n owner, waiting⟩)
    have sameBusy : v.current ≠ v.idle := by
      rw [released.current, released.idle]
      exact busy
    have parked := settled.retire sameBusy
    have member : t ∈ v.retire.queue .readyqueue :=
      View.mem_retire.mpr (Or.inr woken)
    have live : v.retire.live t = true := by
      by_contra dead
      have isFree := (parked.free t).mpr (by simpa using dead)
      cases parked.exclusive _ _ _ member isFree
    have notIdle : t ≠ v.retire.idle := fun same =>
      parked.idleLoose .readyqueue (same ▸ member)
    refine ⟨?_, ?_⟩
    · rw [← refines.view] at member
      exact member
    · have status := (parked.ready t live notIdle).mpr member
      rw [← refines.view] at status
      exact status

theorem pidsIssued_of_run {image : BootImage}
    (run : Library.Observe step watchPids (fun _ _ => True) (boot image) 2 s
      issued) (few : issued < 2 ^ 31) : PidsIssued s issued := by
  have pids : issued < 2 ^ 31 → PidsIssued s issued := by
    refine Library.Reach.observe_invariant
      (fun s issued => issued < 2 ^ 31 → PidsIssued s issued)
      (fun _ => boot_pids image) (fun _ plain => orderly_of_reachable plain) ?_ run
    intro before event after count orderly pids _ taken few
    have earlier := le_watchPids before event after count
    exact (pids (by omega)).turn orderly few (turn_of_step orderly taken)
  exact pids few

/-- While fewer than `2 ^ 31` PIDs have been issued, every semaphore belongs to
one live process, a free slot has no waiters, and `sys_exit` leaves neither a
semaphore nor a waiter behind. -/
theorem semaphores_owned {image : BootImage}
    (run : Library.Observe step watchPids (fun _ _ => True) (boot image) 2 s
      issued) (few : issued < 2 ^ 31) : SemaphoresOwned s := by
  have orderly := orderly_of_reachable (Library.Reach.unobserved run)
  have pids := pidsIssued_of_run run few
  refine ⟨?_, ?_, fun _ busy => exitReleases orderly pids busy⟩
  · intro n used
    obtain ⟨t, alive, isOwner⟩ := pids.owners n used
    refine ⟨t, ⟨alive, isOwner⟩, ?_⟩
    rintro u ⟨aliveToo, isOwnerToo⟩
    exact pids.distinct u t aliveToo alive (isOwnerToo.trans isOwner.symm)
  · intro n unused
    apply orderly.refines.threads.dormant
    change ¬ 0 ≤ (s.semaphores n).ownerPID
    omega

/-- A process waits for its parent's semaphore, and the parent runs. -/
theorem semaphores_owned_waiting :
    let events : List Event := [.syscall (.semInit 3 0), .syscall .fork,
      .syscall (.read 0 0x10A000 1), .resume, .syscall (.semWait 3)]
    ∃ s issued, Library.runEvents (Library.observed step watchPids) (boot sampleImage, 2) events =
        some (s, issued) ∧ s.queue (.semaphore 3) = [2] ∧ SemaphoresOwned s := by
  intro events
  obtain ⟨⟨s, issued⟩, finished, seen⟩ := (Option.any_eq_true _ _).mp
    (show (Library.runEvents (Library.observed step watchPids) (boot sampleImage, 2) events).any
      (fun last => decide (last.2 < 2 ^ 31 ∧ last.1.queue (.semaphore 3) = [2])) = true by
        decide +kernel)
  obtain ⟨few, waits⟩ := of_decide_eq_true seen
  exact ⟨s, issued, finished, waits,
    semaphores_owned (.of_runEvents .start (fun _ _ _ => trivial) finished) few⟩

end Kernel

end Zeos
