import Zeos.Sched.Reachable

/-!
# The idle process

Neither `schedule` nor `update_process_state_rr` tests for the idle process.
It stays out of the queues because it runs only while `readyqueue` is empty:
then `needs_sched_rr` renews its quantum and does not ask for a switch, and a
key that wakes a reader dispatches that reader without queueing idle.  A read
whose buffer runs into idle's page is another matter.
-/

namespace Zeos

namespace Kernel

variable {s s' : Kernel} {event : Event}

/-- Idle is linked nowhere, and it runs only while no process is ready. -/
structure IdleUnqueued (s : Kernel) : Prop where
  loose : ∀ q, s.idleTask ∉ s.queue q
  unlinked : s.linked s.idleTask = false
  alone : s.current = s.idleTask → s.queue .readyqueue = []
  /-- `schedule` does not put idle in `readyqueue`. -/
  kept : s.current = s.idleTask →
    s.updateSchedDataRr.needsSchedRr.1 = false

theorem Orderly.idleUnqueued (orderly : s.Orderly) : IdleUnqueued s := by
  have alone : s.current = s.idleTask → s.queue .readyqueue = [] :=
    orderly.settled.idleAlone
  refine ⟨orderly.settled.idleLoose,
    orderly.refines.unlinked orderly.settled.idleLoose, alone, ?_⟩
  intro resting
  have empty : s.listEmpty .readyqueue = true :=
    (orderly.refines.listEmpty_iff (q := .readyqueue) trivial).mpr (alone resting)
  rcases s.updateSchedDataRr.needsSchedRr_cases with
    ⟨nonempty, _⟩ | ⟨stats, renewed⟩
  · have same : s.updateSchedDataRr.listEmpty .readyqueue = true := empty
    rw [same] at nonempty
    cases nonempty
  · rw [renewed]

/-- In every run of the kernel in which the buffers fit, and after every reaction to an
event whose buffer fits, idle is in no queue and runs only when no process is ready. -/
theorem idle_never_queued {image : BootImage}
    (run : Library.Reach advance BuffersFit (boot image) s) :
    IdleUnqueued s ∧
      ∀ event s', s.BuffersFit event → s.handle event = some s' → IdleUnqueued s' := by
  have orderly := orderly_of_reachable (reachable_iff.mpr run)
  refine ⟨orderly.idleUnqueued, ?_⟩
  intro event s' _ handled
  exact (orderly.effect (handle_effect orderly handled)).idleUnqueued

/-- Process 1 waits for the keyboard, and a clock tick interrupts idle. -/
theorem idle_never_queued_resting :
    let events : List Event := [.syscall (.read 0 0x10A000 1), .resume, .clock]
    ∃ s, Library.runEvents (Library.guarded advance BuffersFit) (boot sampleImage) events =
        some s ∧ s.current = s.idleTask ∧ IdleUnqueued s ∧
      ∀ event s', s.BuffersFit event → s.handle event = some s' → IdleUnqueued s' := by
  intro events
  obtain ⟨s, finished, resting⟩ := (Option.any_eq_true _ _).mp
    (show (Library.runEvents (Library.guarded advance BuffersFit) (boot sampleImage)
      events).any (fun s => decide (s.current = s.idleTask)) = true by decide +kernel)
  exact ⟨s, finished, of_decide_eq_true resting,
    idle_never_queued (Library.Reach.of_guarded finished)⟩

/-- A clone runs in user mode while idle is in `keyboardqueue`: `sys_read_keyboard`, called
by process 1 with a count that its stack page has no room for, took idle for `current`. -/
theorem idle_queued : ∃ s, Library.Reach advance (fun _ _ => True) (boot sampleImage) s ∧
    s.mode = .user ∧ s.idleTask ∈ s.queue .keyboardqueue ∧ ¬ IdleUnqueued s := by
  obtain ⟨s, finished, seen⟩ := (Option.any_eq_true _ _).mp
    (show (Library.runEvents advance (boot sampleImage)
      [.syscall (.clone 0x100000 0x110000), .syscall (.read 0 0x108000 5000),
        .resume]).any (fun s =>
          decide (s.mode = .user ∧ s.idleTask ∈ s.queue .keyboardqueue)) = true by
      decide +kernel)
  obtain ⟨mode, queued⟩ := of_decide_eq_true seen
  have run : Library.Reach advance (fun _ _ => True) (boot sampleImage) s :=
    .of_runEvents .start (fun _ _ _ => trivial) finished
  exact ⟨s, run, mode, queued, fun unqueued => unqueued.loose _ queued⟩

end Kernel

end Zeos
