import Zeos.Sched.Reachable
import Zeos.Sems.Slots

/-!
# What a semaphore gives out

An observer of one semaphore counts signals and granted waits from its
`sem_init` on.  As long as the counter does not run out of the range of an
`int`, it is the initial value and the signals, less the grants.
-/

namespace Zeos

namespace Kernel

variable {s s' : Kernel} {event : Event} {n : SemId}

/-- What was counted since the last `sem_init` of a slot, which set the counter
to `c0`. -/
structure Tally where
  c0 : Int
  signals : Nat := 0
  granted : Nat := 0
  deriving DecidableEq

/-- The waits on `n` that a step grants: a wait that decrements the counter, and
the processes that a signal takes off the queue. -/
def grants (n : SemId) (s : Kernel) (event : Event) (s' : Kernel) : Nat :=
  match event with
  | .syscall (.semWait nSem) =>
      if semIndex nSem = some n ∧
          (s'.semaphores n).counter < (s.semaphores n).counter then 1
      else 0
  | .syscall (.semSignal nSem) =>
      if semIndex nSem = some n then
        (s.queue (.semaphore n)).length - (s'.queue (.semaphore n)).length
      else 0
  | _ => 0

/-- The signals to `n` in an event. -/
def signalsTo (n : SemId) : Event → Nat
  | .syscall (.semSignal nSem) => if semIndex nSem = some n then 1 else 0
  | _ => 0

/-- The value a `sem_init` gives to the counter. -/
def initialCounter : Event → Option Int
  | .syscall (.semInit _ value) => some (int32 value.toNat)
  | _ => none

/-- The observer of the slot `n`: it begins when the slot is taken, and ends
when it is free again. -/
def watchSem (n : SemId) (s : Kernel) (event : Event) (s' : Kernel)
    (tally : Option Tally) : Option Tally :=
  if (s'.semaphores n).ownerPID < 0 then
    none
  else if (s.semaphores n).ownerPID < 0 then
    (initialCounter event).map fun c0 => { c0 := c0 }
  else
    tally.map fun seen =>
      { seen with
        signals := seen.signals + signalsTo n event
        granted := seen.granted + grants n s event s' }

/-- The counter and the queue of `n` against the tally. -/
structure Conserved (n : SemId) (s : Kernel) (seen : Tally) : Prop where
  balance : (s.semaphores n).counter + seen.granted = seen.c0 + seen.signals
  waiting : s.queue (.semaphore n) ≠ [] → (s.semaphores n).counter ≤ 0
  bound : (seen.granted : Int) ≤ max seen.c0 0 + seen.signals

/-- The invariant behind it: the counter goes down only while it is
positive. -/
structure Balanced (n : SemId) (s : Kernel) (seen : Tally) : Prop where
  balance : (s.semaphores n).counter + seen.granted = seen.c0 + seen.signals
  waiting : s.queue (.semaphore n) ≠ [] → (s.semaphores n).counter ≤ 0
  initial : -2 ^ 31 ≤ seen.c0
  low : min seen.c0 0 ≤ (s.semaphores n).counter

theorem Balanced.conserved {seen : Tally} (balanced : Balanced n s seen) :
    Conserved n s seen where
  balance := balanced.balance
  waiting := balanced.waiting
  bound := by
    have balance := balanced.balance
    have low := balanced.low
    omega

/-- The observer of a used slot has a tally, and it fits while the initial
value and the signals stay in the range of an `int`. -/
def Tallied (n : SemId) (s : Kernel) (tally : Option Tally) : Prop :=
  0 ≤ (s.semaphores n).ownerPID → ∃ seen, tally = some seen ∧
    (seen.c0 + seen.signals < 2 ^ 31 → Balanced n s seen)

theorem watchSem_used {tally : Option Tally} {seen : Tally}
    (before : 0 ≤ (s.semaphores n).ownerPID)
    (after : 0 ≤ (s'.semaphores n).ownerPID) (known : tally = some seen) :
    watchSem n s event s' tally = some
      { seen with
        signals := seen.signals + signalsTo n event
        granted := seen.granted + grants n s event s' } := by
  unfold watchSem
  rw [if_neg (by omega), if_neg (by omega), known]
  rfl

theorem Tallied.step {tally : Option Tally} (tallied : Tallied n s tally)
    (turn : SlotTurn s n event s') :
    Tallied n s' (watchSem n s event s' tally) := by
  intro used
  cases turn with
  | untouched silent semaphore queue =>
      rw [semaphore] at used
      obtain ⟨seen, known, balanced⟩ := tallied used
      have noSignal : signalsTo n event = 0 := by
        unfold signalsTo
        split
        · next nSem =>
            apply if_neg
            intro slot
            have unused := silent nSem rfl slot
            omega
        · rfl
      have noGrant : grants n s event s' = 0 := by
        unfold grants
        rw [semaphore, queue]
        split <;> simp
      refine ⟨_, watchSem_used used (semaphore ▸ used) known, fun few => ?_⟩
      rw [noSignal, noGrant] at *
      obtain ⟨balance, waiting, initial, low⟩ := balanced few
      refine ⟨?_, ?_, initial, ?_⟩
      · rw [semaphore]
        exact balance
      · rw [semaphore, queue]
        exact waiting
      · rw [semaphore]
        exact low
  | @took nSem _ slot before positive semaphore queue =>
      obtain ⟨seen, known, balanced⟩ := tallied before
      have oneGrant : grants n s (.syscall (.semWait nSem)) s' = 1 := by
        apply if_pos
        refine ⟨slot, ?_⟩
        rw [semaphore]
        dsimp only
        omega
      refine ⟨_, watchSem_used before used known, fun few => ?_⟩
      rw [oneGrant]
      obtain ⟨balance, waiting, initial, low⟩ := balanced few
      refine ⟨?_, ?_, initial, ?_⟩
      · rw [semaphore]
        dsimp only [signalsTo]
        push_cast
        omega
      · intro nonempty
        rw [queue] at nonempty
        have short := waiting nonempty
        omega
      · rw [semaphore]
        dsimp only
        omega
  | @waited nSem _ slot before short semaphore queue _ =>
      obtain ⟨seen, known, balanced⟩ := tallied before
      have noGrant : grants n s (.syscall (.semWait nSem)) s' = 0 := by
        apply if_neg
        rw [semaphore]
        exact fun both => absurd both.2 (lt_irrefl _)
      refine ⟨_, watchSem_used before used known, fun few => ?_⟩
      rw [noGrant]
      obtain ⟨balance, _, initial, low⟩ := balanced few
      refine ⟨?_, ?_, initial, ?_⟩
      · rw [semaphore]
        exact balance
      · intro _
        rw [semaphore]
        exact short
      · rw [semaphore]
        exact low
  | @raised nSem _ slot before empty semaphore queue =>
      obtain ⟨seen, known, balanced⟩ := tallied before
      have oneSignal : signalsTo n (.syscall (.semSignal nSem)) = 1 := if_pos slot
      have noGrant : grants n s (.syscall (.semSignal nSem)) s' = 0 := by
        unfold grants
        simp [empty]
      refine ⟨_, watchSem_used before used known, fun few => ?_⟩
      rw [oneSignal, noGrant] at *
      dsimp only at few ⊢
      push_cast at few
      obtain ⟨balance, _, initial, low⟩ := balanced (by omega)
      have raised : (s'.semaphores n).counter = (s.semaphores n).counter + 1 := by
        rw [semaphore]
        exact int32_of_range (by omega) (by omega)
      refine ⟨?_, fun nonempty => absurd queue nonempty, initial, ?_⟩
      · rw [raised]
        push_cast
        omega
      · rw [raised]
        dsimp only
        omega
  | @woke nSem t _ slot before shape semaphore =>
      obtain ⟨seen, known, balanced⟩ := tallied before
      have oneSignal : signalsTo n (.syscall (.semSignal nSem)) = 1 := if_pos slot
      have oneGrant : grants n s (.syscall (.semSignal nSem)) s' = 1 := by
        refine (if_pos slot).trans ?_
        rw [shape, List.length_cons]
        omega
      refine ⟨_, watchSem_used before used known, fun few => ?_⟩
      rw [oneSignal, oneGrant] at *
      dsimp only at few ⊢
      push_cast at few
      obtain ⟨balance, waiting, initial, low⟩ := balanced (by omega)
      have short := waiting (by rw [shape]; exact List.cons_ne_nil t _)
      refine ⟨?_, ?_, initial, ?_⟩
      · rw [semaphore]
        push_cast
        omega
      · intro _
        rw [semaphore]
        exact short
      · rw [semaphore]
        exact low
  | @opened nSem value _ unused semaphore queue _ =>
      refine ⟨{ c0 := int32 value.toNat }, ?_, fun _ => ?_⟩
      · unfold watchSem
        rw [if_neg (by omega), if_pos unused]
        rfl
      · have range := int32_range value.toNat
        refine ⟨?_, fun nonempty => absurd queue nonempty, ?_, ?_⟩
        · rw [semaphore]
        · dsimp only
          exact range.1
        · rw [semaphore]
          exact min_le_left _ _
  | closed _ _ unused _ => omega

/-- From `sem_init` on, while the initial value and the signals stay in the
range of an `int`, the counter and the granted waits add up to the initial
value and the signals, nobody waits while the counter is positive, and no more
waits are granted than there were units to give. -/
theorem semaphore_conserved {image : BootImage} {tally : Option Tally}
    (run : Library.Observe step (watchSem n) (fun _ _ => True) (boot image) none
      s tally) (used : 0 ≤ (s.semaphores n).ownerPID) :
    ∃ seen, tally = some seen ∧
      (seen.c0 + seen.signals < 2 ^ 31 → Conserved n s seen) := by
  have tallied : Tallied n s tally := by
    refine Library.Reach.observe_invariant (Tallied n) ?_
      (fun _ plain => orderly_of_reachable plain) ?_ run
    · intro usedAtBoot
      have unused : ((boot image).semaphores n).ownerPID = -1 := rfl
      omega
    · intro before event after seen orderly known _ taken
      exact known.step ((turn_of_step orderly taken).slot orderly n)
  obtain ⟨seen, known, balanced⟩ := tallied used
  exact ⟨seen, known, fun few => (balanced few).conserved⟩

/-- One wait takes the unit, the next one blocks, and a signal wakes it. -/
theorem semaphore_conserved_waiting :
    let events : List Event := [.syscall (.semInit 3 1), .syscall .fork,
      .syscall (.semWait 3), .syscall (.semWait 3), .resume, .syscall (.semSignal 3)]
    ∃ s seen, Library.runEvents (Library.observed step (watchSem 3)) (boot sampleImage, none)
        events = some (s, some seen) ∧ seen.c0 = 1 ∧ seen.signals = 1 ∧ Conserved 3 s seen := by
  intro events
  obtain ⟨⟨s, record⟩, finished, seen⟩ := (Option.any_eq_true _ _).mp
    (show (Library.runEvents (Library.observed step (watchSem 3)) (boot sampleImage, none)
      events).any (fun last => decide (0 ≤ (last.1.semaphores 3).ownerPID ∧
        last.2.map (fun seen => (seen.c0, seen.signals)) = some (1, 1))) = true by
      decide +kernel)
  obtain ⟨used, counts⟩ := of_decide_eq_true seen
  obtain ⟨known, isKnown, conserved⟩ :=
    semaphore_conserved (.of_runEvents .start (fun _ _ _ => trivial) finished) used
  subst isKnown
  obtain ⟨initial, signals⟩ := Prod.mk.inj (Option.some.inj counts)
  exact ⟨s, known, finished, initial, signals, conserved (by rw [initial, signals]; decide)⟩

/-- A semaphore with the largest initial value and one signal: the counter
wraps around, although there was only one signal. -/
theorem counter_wraps :
    ∃ s seen, Library.Observe step (watchSem 3) (fun _ _ => True)
        (boot sampleImage) none s (some seen) ∧
      0 ≤ (s.semaphores 3).ownerPID ∧ seen.signals < 2 ^ 31 ∧
        ¬ Conserved 3 s seen := by
  let last := Library.lastState (Library.observed step (watchSem 3))
    (boot sampleImage, none)
    [.syscall (.semInit 3 0x7FFFFFFF), .syscall (.semSignal 3)]
  have run : Library.Observe step (watchSem 3) (fun _ _ => True)
      (boot sampleImage) none last.1 last.2 :=
    Library.Reach.lastObserved fun _ _ _ => trivial
  have known : last.2 = some ⟨0x7FFFFFFF, 1, 0⟩ := by decide +kernel
  rw [known] at run
  refine ⟨_, _, run, by decide +kernel, by decide, fun conserved => ?_⟩
  have wrapped : (last.1.semaphores 3).counter = -2 ^ 31 := by decide +kernel
  have balance := conserved.balance
  rw [wrapped] at balance
  exact absurd balance (by decide)

end Kernel

end Zeos
