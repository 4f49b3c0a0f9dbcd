import Zeos.Sems.Verdicts

/-!
# Signals that are wasted

A signal takes a waiter off the queue, but the waiter looks at the slot only when
it runs again.  If the semaphore is destroyed by then, the wait fails and the
signal has reached nobody.
-/

namespace Zeos

namespace Kernel

variable {s s' : Kernel} {event : Event} {n : SemId} {t : TaskId} {image : BootImage}

/-- What the observer of signals knows: the number of calls of `sem_init`, and the
semaphore whose signal took the process off its queue, with whether it was
destroyed since. -/
structure SignalRecord where
  inits : Nat := 0
  pending : Option (SemId × Bool) := none

/-- The observer of the signals for the process `t`.  A record ends when `t` goes
on. -/
def watchSignal (t : TaskId) (s : Kernel) (event : Event) (s' : Kernel)
    (record : SignalRecord) : SignalRecord where
  inits := record.inits + initsIn event
  pending :=
    match takenOff t s s' with
    | some n => if verdictOf n event = .granted n then some (n, false) else none
    | none =>
        if s.current = t then none
        else record.pending.map fun signalled =>
          (signalled.1, signalled.2 || decide ((s'.semaphores signalled.1).ownerPID < 0))

/-- What the observer relies on. -/
structure Signalled (t : TaskId) (s : Kernel) (record : SignalRecord) : Prop where
  ids : record.inits < 2 ^ 31 → IdsBelow s record.inits
  waiting : ∀ n, t ∈ s.queue (.semaphore n) →
    s.context t = .semWait n (s.semaphores n).semID
  returning : ∀ n destroyed, record.pending = some (n, destroyed) →
    Returning t s ∧ ∃ mySemID, s.context t = .semWait n mySemID
  kept : ∀ n, record.pending = some (n, false) →
    0 ≤ (s.semaphores n).ownerPID ∧ s.context t = .semWait n (s.semaphores n).semID
  lost : ∀ n, record.pending = some (n, true) → record.inits < 2 ^ 31 →
    ∃ mySemID, s.context t = .semWait n mySemID ∧ Gone s n mySemID

variable {record : SignalRecord} {destroyed : Bool}

namespace Signalled

theorem turn (signalled : Signalled t s record) (orderly : s.Orderly)
    (turn : Turn s event s') : Signalled t s' (watchSignal t s event s' record) := by
  have ids : record.inits + initsIn event < 2 ^ 31 →
      IdsBelow s' (record.inits + initsIn event) ∧ s.globalSemID ≤ s'.globalSemID := by
    intro few
    obtain ⟨below, monotone, -⟩ := (signalled.ids (by omega)).turn orderly few turn
    exact ⟨below, monotone⟩
  -- a signal that was given before, to a process that has not gone on
  have old : takenOff t s s' = none → ∀ n destroyed,
      (watchSignal t s event s' record).pending = some (n, destroyed) →
        s.current ≠ t ∧ ∃ before, record.pending = some (n, before) ∧
          (before || decide ((s'.semaphores n).ownerPID < 0)) = destroyed := by
    intro stays n destroyed given
    simp only [watchSignal, stays] at given
    split_ifs at given with isCurrent
    obtain ⟨⟨m, before⟩, known, same⟩ := Option.map_eq_some_iff.mp given
    obtain ⟨rfl, combined⟩ := Prod.mk.inj same
    exact ⟨isCurrent, before, known, combined⟩
  have new : ∀ m, takenOff t s s' = some m → ∀ n destroyed,
      (watchSignal t s event s' record).pending = some (n, destroyed) →
        n = m ∧ destroyed = false ∧ t ∈ s.queue (.semaphore n) ∧
          t ∉ s'.queue (.semaphore n) ∧ verdictOf n event = .granted n := by
    intro m found n destroyed given
    have left := takenOff_some found
    simp only [watchSignal, found] at given
    split_ifs at given with granted
    obtain ⟨rfl, rfl⟩ := Prod.mk.inj (Option.some.inj given)
    exact ⟨rfl, rfl, left.1, left.2, granted⟩
  refine ⟨fun few => (ids few).1, fun n => waiting_kept orderly turn (signalled.waiting n),
    ?_, ?_, ?_⟩
  · intro n destroyed given
    cases found : takenOff t s s' with
    | none =>
        obtain ⟨notCurrent, before, known, -⟩ := old found n destroyed given
        obtain ⟨ready, mySemID, context⟩ := signalled.returning n before known
        obtain ⟨same, readyAfter⟩ := turn.returning orderly ready notCurrent
        exact ⟨readyAfter, mySemID, same.trans context⟩
    | some m =>
        obtain ⟨-, -, member, gone, -⟩ := new m found n destroyed given
        obtain ⟨same, returns⟩ := turn.leaves orderly member gone
        exact ⟨returns, _, same.trans (signalled.waiting n member)⟩
  · intro n given
    cases found : takenOff t s s' with
    | none =>
        obtain ⟨notCurrent, before, known, combined⟩ := old found n false given
        obtain ⟨rfl, stillUsed⟩ := Bool.or_eq_false_iff.mp combined
        have usedAfter : 0 ≤ (s'.semaphores n).ownerPID :=
          Int.not_lt.mp (of_decide_eq_false stillUsed)
        obtain ⟨used, context⟩ := signalled.kept n known
        have same := (turn.returning orderly (signalled.returning n false known).1
          notCurrent).1
        rw [same, semID_kept orderly turn used usedAfter]
        exact ⟨usedAfter, context⟩
    | some m =>
        obtain ⟨-, -, member, gone, granted⟩ := new m found n false given
        have used : 0 ≤ (s.semaphores n).ownerPID :=
          orderly.refines.active_of_mem (q := .semaphore n) member
        have context := (turn.leaves orderly member gone).1
        rcases takenOff_cases orderly turn member gone with ⟨-, same⟩ | ⟨isDestroyed, -⟩
        · rw [same, context]
          exact ⟨used, signalled.waiting n member⟩
        · rw [granted] at isDestroyed
          nomatch isDestroyed
  · intro n given few
    change record.inits + initsIn event < 2 ^ 31 at few
    cases found : takenOff t s s' with
    | none =>
        obtain ⟨notCurrent, before, known, combined⟩ := old found n true given
        have same := (turn.returning orderly (signalled.returning n before known).1
          notCurrent).1
        cases before with
        | true =>
            obtain ⟨mySemID, context, gone⟩ := signalled.lost n known (by omega)
            exact ⟨mySemID, same.trans context,
              gone.slot (signalled.ids (by omega)) few orderly turn⟩
        | false =>
            obtain ⟨used, context⟩ := signalled.kept n known
            have unused : (s'.semaphores n).ownerPID < 0 := by
              rw [Bool.false_or] at combined
              exact of_decide_eq_true combined
            have known := (signalled.ids (by omega)).used n used
            exact ⟨_, same.trans context, known.trans (ids few).2, Or.inl unused⟩
    | some m =>
        obtain ⟨-, isFalse, -⟩ := new m found n true given
        nomatch isFalse

theorem of_run (run : Library.Observe step (watchSignal t) (fun _ _ => True) (boot image) {}
    s record) : Signalled t s record := by
  refine Library.Reach.observe_invariant (Signalled t) ?_
    (fun _ plain => orderly_of_reachable plain) ?_ run
  · have next : (boot image).globalSemID = -1 := rfl
    have unused : ∀ n, ((boot image).semaphores n).ownerPID = -1 := fun _ => rfl
    refine ⟨fun _ => ⟨by rw [next], by rw [next]; decide, ?_⟩, ?_, by simp, by simp, by simp⟩
    · intro n used
      have free := unused n
      omega
    · intro n member
      have used : 0 ≤ ((boot image).semaphores n).ownerPID :=
        (boot_orderly image).refines.active_of_mem (q := .semaphore n) member
      have free := unused n
      omega
  · intro before event after seen orderly known _ taken
    exact known.turn orderly (turn_of_step orderly taken)

end Signalled

/-- A wait that a signal ended returns 0 if the semaphore has not been destroyed
when the process goes on, and otherwise, with fewer than `2 ^ 31` calls of
`sem_init`, -1. -/
theorem signal_kept
    (run : Library.Observe step (watchSignal t) (fun _ _ => True) (boot image) {} s record)
    (signalled : record.pending = some (n, destroyed)) (dispatched : s.current = t)
    (resumed : s.step .resume = some s') :
    s'.mode = .user ∧ (destroyed = false → s'.eax t = 0) ∧
      (destroyed = true → record.inits < 2 ^ 31 → s'.eax t = -1) := by
  have heard := Signalled.of_run run
  cases destroyed with
  | false =>
      obtain ⟨used, context⟩ := heard.kept n signalled
      obtain ⟨mode, result⟩ := resume_wait context dispatched resumed
      refine ⟨mode, fun _ => result.trans (if_neg ?_), fun isTrue => nomatch isTrue⟩
      rintro (unused | other)
      · omega
      · exact other rfl
  | true =>
      obtain ⟨-, mySemID, context⟩ := heard.returning n true signalled
      obtain ⟨mode, result⟩ := resume_wait context dispatched resumed
      refine ⟨mode, fun isFalse => absurd isFalse (by decide), fun _ few => ?_⟩
      obtain ⟨otherID, same, -, gone⟩ := heard.lost n signalled few
      rw [context] at same
      obtain ⟨-, rfl⟩ := Context.semWait.inj same
      refine result.trans (if_pos ?_)
      rcases gone with unused | used
      · exact Or.inl unused
      · exact Or.inr (by omega)

/-- A child waits for its parent's semaphore, and the parent goes on. -/
def childWaits : List Event :=
  [.syscall (.semInit 3 0), .syscall .fork, .syscall (.read 0 0x10A000 1), .resume,
    .syscall (.semWait 3), .resume, .keyboard 0x9E 0, .resume]

/-- The parent signals and then waits for a key. -/
theorem signal_kept_woken :
    let last := Library.lastState (Library.observed step (watchSignal 2))
      (boot sampleImage, {})
      (childWaits ++ [.syscall (.semSignal 3), .syscall (.read 0 0x10A000 1)])
    (last.1.step .resume).isSome = true ∧
      ∀ s', last.1.step .resume = some s' → s'.mode = .user ∧ s'.eax 2 = 0 := by
  intro last
  have pending : last.2.pending = some (3, false) := by decide +kernel
  have current : last.1.current = 2 := by decide +kernel
  have possible : (last.1.step .resume).isSome = true := by decide +kernel
  have run : Library.Observe step (watchSignal 2) (fun _ _ => True) (boot sampleImage) {}
      last.1 last.2 := Library.Reach.lastObserved fun _ _ _ => trivial
  refine ⟨possible, fun s' resumed => ?_⟩
  obtain ⟨mode, granted, -⟩ := signal_kept run pending current resumed
  exact ⟨mode, granted rfl⟩

/-- The parent destroys the semaphore after its signal: the wait returns -1. -/
theorem signal_wasted : ∃ s s' record,
    Library.Observe step (watchSignal 2) (fun _ _ => True) (boot sampleImage) {} s record ∧
      record.pending = some (3, true) ∧ s.current = 2 ∧ s.step .resume = some s' ∧
        s'.eax 2 = -1 := by
  let last := Library.lastState (Library.observed step (watchSignal 2))
    (boot sampleImage, {}) (childWaits ++ [.syscall (.semSignal 3),
      .syscall (.semDestroy 3), .syscall (.read 0 0x10A000 1)])
  have evaluated : last.2.pending = some (3, true) ∧ last.1.current = 2 ∧
      (last.1.step .resume).map (fun s' => s'.eax 2) = some (-1) := by
    decide +kernel
  obtain ⟨pending, current, result⟩ := evaluated
  obtain ⟨s', resumed, eax⟩ := Option.map_eq_some_iff.mp result
  exact ⟨last.1, s', last.2, Library.Reach.lastObserved fun _ _ _ => trivial, pending, current,
    resumed, eax⟩

end Kernel

end Zeos
