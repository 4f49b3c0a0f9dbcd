import Zeos.Library.Potentials
import Zeos.Sched.Quantum

/-!
# Waiting for the processor

A ready process gets the processor after at most a quantum of ticks for every process in
front of it, besides what is left of the slice of the one that runs.  A process that is
woken joins at the front and takes a quantum more.
-/

namespace Zeos

namespace Kernel

variable {s s' : Kernel} {event : Event} {image : BootImage} {t : TaskId}

/-- How many processes a step wakes up. -/
def woken (s s' : Kernel) : Nat := ∑ u : TaskId, wakeUps s s' u

/-- The ticks that a ready process may still have to wait, if nobody is woken. -/
def wait (t : TaskId) (s : Kernel) : Nat :=
  (s.remaining s.current).toNat +
    defaultQuantum.toNat * (ahead t (s.queue .readyqueue)).length

/-- A tick of the clock. -/
def tick : Event → Nat
  | .clock => 1
  | _ => 0

theorem tick_le (event : Event) : tick event ≤ 1 := by
  cases event with
  | clock => exact le_refl 1
  | _ => exact Nat.zero_le 1

theorem sum_ticks (events : List Event) : (events.map tick).sum = events.count .clock := by
  induction events with
  | nil => rfl
  | cons event events inductionHypothesis =>
      rw [List.map_cons, List.sum_cons, inductionHypothesis, ← List.singleton_append,
        List.count_append]
      refine congrArg (· + _) ?_
      cases event <;> rfl

/-- Processes that are all woken by a step. -/
theorem length_le_woken {front : List TaskId} (nodup : front.Nodup)
    (all : ∀ u ∈ front, s.Waits u ∧ ¬ s'.Waits u) : front.length ≤ woken s s' := by
  have card : front.toFinset.card = front.length := List.toFinset_card_of_nodup nodup
  have counted : ∑ u ∈ front.toFinset, wakeUps s s' u = front.toFinset.card := by
    rw [Finset.card_eq_sum_ones]
    refine Finset.sum_congr rfl fun u member => ?_
    exact if_pos (all u (List.mem_toFinset.mp member))
  rw [← card, ← counted]
  exact Finset.sum_le_sum_of_subset (Finset.subset_univ _)

/-- The line in front of `t` grows by the processes that are woken, and a dispatch takes one
away. -/
theorem ReadyTurn.ahead_line (turn : ReadyTurn s s') (settled : s.view.Settled)
    (after : s'.view.Settled) (before : t ∈ s.queue .readyqueue)
    (still : t ∈ s'.queue .readyqueue) :
    (s'.mode = .user ∧ (ahead t (s'.queue .readyqueue)).length ≤
        (ahead t (s.queue .readyqueue)).length + woken s s') ∨
      (s'.mode = .switched ∧ (ahead t (s'.queue .readyqueue)).length + 1 ≤
        (ahead t (s.queue .readyqueue)).length + woken s s') := by
  obtain ⟨front, back, joined, moved⟩ := turn
  have absent : t ∉ front := fun inFront =>
    not_waits settled (Or.inl before) (joined t inFront).1
  have line : ahead t (front ++ s.queue .readyqueue ++ back) =
      front ++ ahead t (s.queue .readyqueue) := by
    rw [List.append_assoc, ahead_front absent, ahead_append before]
  have nodup : (s'.queue .readyqueue).Nodup := after.nodup .readyqueue
  rcases moved with ⟨mode, queue⟩ | ⟨mode, queue⟩ | empty
  · refine Or.inl ⟨mode, ?_⟩
    rw [queue, List.append_assoc] at nodup
    have few := length_le_woken (List.nodup_append'.mp nodup).1 joined
    rw [queue, line, List.length_append]
    omega
  · refine Or.inr ⟨mode, ?_⟩
    have distinct : (s'.current :: s'.queue .readyqueue).Nodup :=
      List.nodup_cons.mpr ⟨after.currentLoose .readyqueue, nodup⟩
    rw [queue, List.append_assoc] at distinct
    have few := length_le_woken (List.nodup_append'.mp distinct).1 joined
    have notFirst : t ∉ [s'.current] := by
      intro isFirst
      rw [List.mem_singleton.mp isFirst] at still
      exact after.currentLoose .readyqueue still
    have shorter : s'.current :: ahead t (s'.queue .readyqueue) =
        front ++ ahead t (s.queue .readyqueue) := by
      rw [← line, ← queue]
      exact (ahead_front notFirst _).symm
    have lengths := congrArg List.length shorter
    rw [List.length_cons, List.length_append] at lengths
    omega
  · rw [empty] at before
    cases before

/-- Every step pays for its tick while `t` is ready. -/
theorem wait_pays (image : BootImage) (t : TaskId) :
    Library.Pays step (Reachable image) (fun s => t ∈ s.queue .readyqueue) (wait t)
      (fun _ event _ => tick event)
      (fun s _ s' => defaultQuantum.toNat * woken s s') where
  keeps reachable taken := reachable.step trivial taken
  positive s reachable _ := by
    have left := (sliced_of_reachable reachable).left
    unfold wait
    omega
  pays := by
    intro s event s' reachable ready taken still
    have orderly := orderly_of_reachable reachable
    have sliced := sliced_of_reachable reachable
    have slicedAfter := sliced_of_reachable (reachable.step trivial taken)
    have turn := (turn_of_step orderly taken).ready (orderly.step taken)
    have quantum : defaultQuantum = 10 := rfl
    have busy : s.queue .readyqueue ≠ [] := List.ne_nil_of_mem ready
    have tickOnce := tick_le event
    unfold wait
    rw [quantum]
    change _ + 10 * _ + _ ≤ _ + 10 * _ + 10 * _
    rcases turn.ahead_line orderly.settled (orderly.step taken).settled ready still with
      ⟨mode, longer⟩ | ⟨_, shorter⟩
    · obtain ⟨current, countdown⟩ := (slice_of_step orderly taken).countdown sliced busy
        (by rw [mode]; decide)
      have counted : List.count Event.clock [event] = tick event := by
        have sum := sum_ticks [event]
        simpa using sum.symm
      rw [counted] at countdown
      rw [current]
      omega
    · have within := slicedAfter.within
      have left := sliced.left
      rw [quantum] at within
      omega

/-- A ready process that a step takes out of `readyqueue` is dispatched. -/
theorem ReadyTurn.dispatched (turn : ReadyTurn s s') (before : t ∈ s.queue .readyqueue)
    (left : t ∉ s'.queue .readyqueue) : s'.mode = .switched ∧ s'.current = t := by
  obtain ⟨front, back, _, moved⟩ := turn
  have inLine : t ∈ front ++ s.queue .readyqueue ++ back :=
    List.mem_append_left _ (List.mem_append_right _ before)
  rcases moved with ⟨_, queue⟩ | ⟨mode, queue⟩ | empty
  · rw [← queue] at inLine
    exact absurd inLine left
  · rw [← queue, List.mem_cons] at inLine
    exact ⟨mode, (inLine.resolve_right left).symm⟩
  · rw [empty] at before
    cases before

/-- In every run, a ready process is dispatched by the time the clock has ticked as often
as the slices of those in front of it allow; every process that is woken meanwhile adds a
quantum. -/
theorem ready_dispatched (reachable : Reachable image s) (ready : t ∈ s.queue .readyqueue)
    {events : List Event} {last : Kernel} (run : Library.runEvents step s events = some last)
    (enough : (s.remaining s.current).toNat +
        defaultQuantum.toNat * (ahead t (s.queue .readyqueue)).length +
        Library.total step (fun s _ s' => defaultQuantum.toNat * woken s s') s events ≤
      events.count .clock) :
    ∃ before after middle, events = before ++ after ∧
      Library.runEvents step s before = some middle ∧ middle.mode = .switched ∧
      middle.current = t := by
  have cost := Library.total_events tick run
  rw [sum_ticks] at cost
  obtain ⟨before, event, after, middle, next, split, reached, lasts, taken, whole, left⟩ :=
    (wait_pays image t).leaves reachable ready run (by rw [cost]; exact enough)
  have reachableMiddle : Reachable image middle :=
    Library.Reach.of_runEvents reachable (fun _ _ _ => trivial) reached
  have orderly := orderly_of_reachable reachableMiddle
  have turn := (turn_of_step orderly taken).ready (orderly.step taken)
  obtain ⟨mode, current⟩ := turn.dispatched (lasts.last reached) left
  refine ⟨before ++ [event], after, next, ?_, ?_, mode, current⟩
  · rw [split, List.append_assoc]
    rfl
  · exact whole

/-- The first process makes another one, and its quantum ends. -/
theorem ready_dispatched_forked :
    let s := Library.lastState step (boot sampleImage) [.syscall .fork]
    ∃ before after middle, List.replicate 10 Event.clock = before ++ after ∧
      Library.runEvents step s before = some middle ∧ middle.mode = .switched ∧
      middle.current = 2 := by
  intro s
  have ready : 2 ∈ s.queue .readyqueue := by decide +kernel
  have finished : (Library.runEvents step s (List.replicate 10 Event.clock)).isSome = true := by
    decide +kernel
  obtain ⟨last, run⟩ := Option.isSome_iff_exists.mp finished
  have reachable : Reachable sampleImage s := Library.Reach.lastState fun _ _ _ => trivial
  have enough : (s.remaining s.current).toNat +
      defaultQuantum.toNat * (ahead 2 (s.queue .readyqueue)).length +
      Library.total step (fun s _ s' => defaultQuantum.toNat * woken s s') s
        (List.replicate 10 Event.clock) ≤ (List.replicate 10 Event.clock).count .clock := by
    decide +kernel
  exact ready_dispatched reachable ready run enough

end Kernel

end Zeos
