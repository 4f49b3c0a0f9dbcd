import Zeos.Library.Potentials
import Zeos.Sched.Overtaking
import Zeos.Sems.Conservation
import Zeos.Sems.Verdicts

/-!
# Bounded waiting

Nobody overtakes a process in the queue of a semaphore: each signal takes away one of
those in front of it, and the one after that takes away the process itself.
-/

namespace Zeos

namespace Kernel

variable {s s' : Kernel} {event : Event} {n : SemId} {t : TaskId} {image : BootImage}

/-- The signals to `n` in a list of events. -/
def signalsIn (n : SemId) (events : List Event) : Nat := (events.map (signalsTo n)).sum

/-- The line in front of a process that goes on waiting gets shorter by the signals. -/
theorem ahead_signalled (orderly : s.Orderly) (turn : SlotTurn s n event s')
    (waiting : t ∈ s.queue (.semaphore n)) (still : t ∈ s'.queue (.semaphore n)) :
    (ahead t (s'.queue (.semaphore n))).length + signalsTo n event =
      (ahead t (s.queue (.semaphore n))).length := by
  have used : 0 ≤ (s.semaphores n).ownerPID :=
    orderly.refines.active_of_mem (q := .semaphore n) waiting
  cases turn with
  | untouched silent _ queue =>
      have none : signalsTo n event = 0 := by
        unfold signalsTo
        split
        · next nSem =>
            refine if_neg fun slot => ?_
            have unused := silent nSem rfl slot
            omega
        · rfl
      rw [queue, none, Nat.add_zero]
  | took _ _ _ _ queue =>
      rw [queue]
      rfl
  | waited _ _ _ _ queue _ =>
      rw [queue, ahead_append waiting]
      rfl
  | raised _ _ empty _ _ =>
      rw [empty] at waiting
      cases waiting
  | @woke nSem u _ slot _ shape _ =>
      have one : signalsTo n (.syscall (.semSignal nSem)) = 1 := if_pos slot
      have nodup : (s.queue (.semaphore n)).Nodup := orderly.settled.nodup (.semaphore n)
      rw [shape, List.nodup_cons] at nodup
      have other : t ∉ [u] := by
        intro isFirst
        rw [List.mem_singleton.mp isFirst] at still
        exact nodup.1 still
      have line : ahead t (s.queue (.semaphore n)) =
          u :: ahead t (s'.queue (.semaphore n)) := by
        rw [shape]
        exact ahead_front other _
      rw [line, one, List.length_cons]
  | opened unused _ _ _ => omega
  | closed _ _ _ empty =>
      rw [empty] at still
      cases still

theorem line_shorter (reachable : Reachable image s) (waiting : t ∈ s.queue (.semaphore n))
    (taken : s.step event = some s') (still : t ∈ s'.queue (.semaphore n)) :
    (ahead t (s'.queue (.semaphore n))).length + 1 + signalsTo n event =
      (ahead t (s.queue (.semaphore n))).length + 1 + 0 := by
  have orderly := orderly_of_reachable reachable
  have shorter := ahead_signalled orderly ((turn_of_step orderly taken).slot orderly n)
    waiting still
  omega

/-- The signals pay for the line. -/
theorem line_pays (image : BootImage) (n : SemId) (t : TaskId) :
    Library.Pays step (Reachable image) (fun s => t ∈ s.queue (.semaphore n))
      (fun s => (ahead t (s.queue (.semaphore n))).length + 1)
      (fun _ event _ => signalsTo n event) (fun _ _ _ => 0) where
  keeps reachable taken := reachable.step trivial taken
  positive _ _ _ := Nat.succ_pos _
  pays reachable waiting taken still := (line_shorter reachable waiting taken still).le

/-- What takes a process off the queue of a semaphore is a signal, when the process is
the first, or the end of the semaphore. -/
theorem SlotTurn.released (turn : SlotTurn s n event s')
    (used : 0 ≤ (s.semaphores n).ownerPID) (waiting : t ∈ s.queue (.semaphore n))
    (gone : t ∉ s'.queue (.semaphore n)) :
    (signalsTo n event = 1 ∧ ahead t (s.queue (.semaphore n)) = []) ∨
      (s'.semaphores n).ownerPID < 0 := by
  cases turn with
  | untouched _ _ queue =>
      rw [queue] at gone
      exact absurd waiting gone
  | took _ _ _ _ queue =>
      rw [queue] at gone
      exact absurd waiting gone
  | waited _ _ _ _ queue _ =>
      rw [queue] at gone
      exact absurd (List.mem_append_left _ waiting) gone
  | raised _ _ empty _ _ =>
      rw [empty] at waiting
      cases waiting
  | @woke nSem u _ slot _ shape _ =>
      rw [shape, List.mem_cons] at waiting
      have isFirst : t = u := waiting.resolve_right gone
      refine Or.inl ⟨if_pos slot, ?_⟩
      rw [shape, isFirst]
      simp [ahead]
  | opened unused _ _ _ => omega
  | closed _ _ unused _ => exact Or.inr unused

/-- In every run, a process that waits for a semaphore is taken off its queue by the signal
after those for the processes in front of it, unless the semaphore is destroyed before; it
is then about to go on. -/
theorem waiter_released (reachable : Reachable image s)
    (waiting : t ∈ s.queue (.semaphore n)) {events : List Event} {last : Kernel}
    (run : Library.runEvents step s events = some last)
    (enough : (ahead t (s.queue (.semaphore n))).length < signalsIn n events) :
    ∃ before event after middle next, events = before ++ event :: after ∧
      Library.runEvents step s before = some middle ∧ t ∈ middle.queue (.semaphore n) ∧
      step middle event = some next ∧ Returning t next ∧ next.context t = middle.context t ∧
      ((signalsTo n event = 1 ∧
          signalsIn n before = (ahead t (s.queue (.semaphore n))).length) ∨
        (next.semaphores n).ownerPID < 0) := by
  have cost := Library.total_events (signalsTo n) run
  obtain ⟨before, event, after, middle, next, split, reached, lasts, taken, _, left⟩ :=
    (line_pays image n t).leaves reachable waiting run (by
      rw [cost, Library.total_zero]
      exact enough)
  have reachableMiddle : Reachable image middle :=
    Library.Reach.of_runEvents reachable (fun _ _ _ => trivial) reached
  have orderly := orderly_of_reachable reachableMiddle
  have turn := turn_of_step orderly taken
  have still := lasts.last reached
  have used : 0 ≤ (middle.semaphores n).ownerPID :=
    orderly.refines.active_of_mem (q := .semaphore n) still
  obtain ⟨context, returning⟩ := turn.leaves orderly still left
  refine ⟨before, event, after, middle, next, split, reached, still, taken, returning,
    context, ?_⟩
  refine ((turn.slot orderly n).released used still left).imp_left fun ⟨signal, first⟩ =>
    ⟨signal, ?_⟩
  have balance := Library.balances (line_pays image n t).keeps line_shorter reachable lasts
    reached
  rw [Library.total_events (signalsTo n) reached, Library.total_zero, first] at balance
  rw [List.length_nil] at balance
  unfold signalsIn
  omega

/-- Two children wait; the second signal wakes the one that came later. -/
theorem waiter_released_second :
    let s := Library.lastState step (boot sampleImage)
      [.syscall (.semInit 3 0), .syscall .fork, .syscall .fork, .syscall (.read 0 0x10A000 1),
        .resume, .syscall (.semWait 3), .resume, .syscall (.semWait 3), .resume,
        .keyboard 0x9E 0, .resume]
    let events : List Event := [.syscall (.semSignal 3), .clock, .syscall (.semSignal 3)]
    ∃ before event after middle next, events = before ++ event :: after ∧
      Library.runEvents step s before = some middle ∧ 3 ∈ middle.queue (.semaphore 3) ∧
      step middle event = some next ∧ Returning 3 next ∧ next.context 3 = middle.context 3 ∧
      ((signalsTo 3 event = 1 ∧
          signalsIn 3 before = (ahead 3 (s.queue (.semaphore 3))).length) ∨
        (next.semaphores 3).ownerPID < 0) := by
  intro s events
  have line : s.queue (.semaphore 3) = [2, 3] := by decide +kernel
  have finished : (Library.runEvents step s events).isSome = true := by decide +kernel
  obtain ⟨last, run⟩ := Option.isSome_iff_exists.mp finished
  have reachable : Reachable sampleImage s := Library.Reach.lastState fun _ _ _ => trivial
  have waiting : 3 ∈ s.queue (.semaphore 3) := by
    rw [line]
    decide
  have enough : (ahead 3 (s.queue (.semaphore 3))).length < signalsIn 3 events := by
    rw [line]
    decide
  exact waiter_released reachable waiting run enough

end Kernel

end Zeos
