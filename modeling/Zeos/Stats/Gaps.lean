import Zeos.Sched.Quantum

/-!
# Ticks between two readings

The counters of a process and the time since its first stamp differ by the ticks
that passed between the two calls of `get_ticks` in the accounting functions that
charged it.
-/

namespace Zeos

namespace Kernel

variable {s s' : Kernel} {event : Event} {t u : TaskId} {image : BootImage}

/-- What the accounting functions lose of the time of a process in one step.  The
process that ran is charged first, the one that is dispatched last; the reading of
`init_stats` comes between the two charges of the parent. -/
def lostIn (s s' : Kernel) (u : TaskId) : UInt32 :=
  if (s'.clockReads - s.clockReads) % 2 = 1 then
    if u = s.current then gap s.clock s.clockReads + gap s.clock (s.clockReads + 3) else 0
  else if s'.mode = .switched then
    (if u = s.current then
        gaps s.clock s.clockReads ((s'.clockReads - s.clockReads) / 2 - 1)
      else 0) +
      if u = s'.current then gap s.clock (s'.clockReads - 2) else 0
  else if u = s.current then
    gaps s.clock s.clockReads ((s'.clockReads - s.clockReads) / 2)
  else 0

/-- The time stamp that `init_stats` gave each process, and what was lost of its
time since. -/
structure GapRecord where
  start : TaskId → UInt32
  lost : TaskId → UInt32

/-- The observer of the readings. -/
def watchGaps (s : Kernel) (_ : Event) (s' : Kernel) (record : GapRecord) : GapRecord where
  start u :=
    if s.live u = false ∧ s'.live u = true then (s'.stats u).elapsedTotalTicks
    else record.start u
  lost u :=
    if s.live u = false ∧ s'.live u = true then 0 else record.lost u + s.lostIn s' u

/-- What the observer knows after boot. -/
def bootGaps (image : BootImage) : GapRecord where
  start u := ((boot image).stats u).elapsedTotalTicks
  lost _ := 0

/-- The counters of every process lack what was lost. -/
def Telescopes (s : Kernel) (record : GapRecord) : Prop :=
  ∀ u, s.live u = true → s.balance u = record.start u + record.lost u

theorem Accrues.charged {n : Nat} (accrues : s.Accrues s' n) (alive : s.live u = true) :
    s'.balance u = s.balance u +
      if u = s.current then gaps s.clock s.clockReads n else 0 := by
  by_cases own : u = s.current
  · subst own
    rw [if_pos rfl]
    exact accrues.own
  · rw [if_neg own, add_zero]
    exact accrues.others u own alive

/-- The process that ran was charged `n` times before the next one was dispatched. -/
theorem HandsOver.lost {n : Nat} {middle : Kernel} (handsOver : middle.HandsOver s')
    (clock : middle.clock = s.clock) (reads : middle.clockReads = s.clockReads + 2 * n)
    (charged : middle.balance u = s.balance u +
      if u = s.current then gaps s.clock s.clockReads n else 0)
    (mode : s'.mode = .switched) : s'.balance u = s.balance u + s.lostIn s' u := by
  have all := handsOver.reads
  have balance := handsOver.balance u
  rw [charged, clock, add_assoc] at balance
  unfold lostIn
  rw [if_neg (by omega), if_pos mode,
    show (s'.clockReads - s.clockReads) / 2 - 1 = n by omega,
    show s'.clockReads - 2 = middle.clockReads by omega]
  exact balance

/-- What one step charges and loses. -/
theorem SliceTurn.balance (turn : SliceTurn s event s') (alive : s'.live u = true) :
    (s.live u = true ∧ s'.balance u = s.balance u + s.lostIn s' u) ∨
      (s.live u = false ∧ (s'.stats u).total = 0) := by
  cases turn with
  | @goesOn _ n _ _ accrues live mode =>
      rw [live] at alive
      refine Or.inl ⟨alive, ?_⟩
      have reads := accrues.reads
      unfold lostIn
      rw [if_neg (by omega), if_neg (by rw [mode]; decide),
        show (s'.clockReads - s.clockReads) / 2 = n by omega]
      exact accrues.charged alive
  | ticks ticks mode =>
      rw [ticks.live] at alive
      refine Or.inl ⟨alive, ?_⟩
      unfold lostIn
      rw [ticks.reads, ticks.balance, if_neg (by omega), if_neg (by rw [mode]; decide),
        Nat.sub_self]
      split_ifs <;> exact (add_zero _).symm
  | preempted _ accrues handsOver live mode =>
      rw [live] at alive
      have charged := accrues.charged alive
      rw [updateSchedDataRr_balance] at charged
      exact Or.inl ⟨alive, handsOver.lost accrues.clock accrues.reads charged mode⟩
  | yields _ accrues handsOver live mode =>
      have before := live u alive
      exact Or.inl ⟨before, handsOver.lost accrues.clock accrues.reads
        (accrues.charged before) mode⟩
  | @starts _ child _ starts mode =>
      by_cases isChild : u = child
      · subst isChild
        exact Or.inr ⟨starts.unborn, starts.blank⟩
      · rw [starts.live, Function.update_of_ne isChild] at alive
        refine Or.inl ⟨alive, ?_⟩
        have reads := starts.reads
        unfold lostIn
        rw [if_pos (by omega)]
        by_cases own : u = s.current
        · subst own
          rw [if_pos rfl]
          exact starts.own
        · rw [if_neg own, add_zero]
          exact starts.others u own alive

theorem Telescopes.turn {record : GapRecord} (telescopes : Telescopes s record)
    (turn : SliceTurn s event s') : Telescopes s' (watchGaps s event s' record) := by
  intro u alive
  unfold watchGaps
  dsimp only
  rcases turn.balance alive with ⟨before, balance⟩ | ⟨unborn, blank⟩
  · have old : ¬ (s.live u = false ∧ s'.live u = true) := by simp [before]
    rw [if_neg old, if_neg old, balance, telescopes u before, add_assoc]
  · rw [if_pos ⟨unborn, alive⟩, if_pos ⟨unborn, alive⟩, add_zero]
    unfold Kernel.balance
    rw [blank, sub_zero]

theorem boot_telescopes (image : BootImage) : Telescopes (boot image) (bootGaps image) := by
  have idle : ((boot image).stats 0).total = 0 := rfl
  have first : ((boot image).stats 1).total = 0 := rfl
  intro u alive
  change ((boot image).stats u).elapsedTotalTicks - ((boot image).stats u).total =
    ((boot image).stats u).elapsedTotalTicks + 0
  rcases boot_live alive with rfl | rfl
  · rw [idle, sub_zero, add_zero]
  · rw [first, sub_zero, add_zero]

/-- The four counters of a process add up to the time since its first stamp if and
only if no ticks, modulo `2 ^ 32`, were lost between the two readings of the charges
of that process. -/
theorem ticks_accounted {record : GapRecord}
    (run : Library.Observe step watchGaps (fun _ _ => True) (boot image) (bootGaps image) s
      record)
    (alive : s.live t = true) :
    (s.stats t).total = (s.stats t).elapsedTotalTicks - record.start t ↔
      record.lost t = 0 := by
  have telescopes : Telescopes s record := by
    refine Library.Reach.observe_invariant Telescopes (boot_telescopes image)
      (fun _ plain => orderly_of_reachable plain) ?_ run
    intro before event after record orderly known _ taken
    exact known.turn (slice_of_step orderly taken)
  have balance : (s.stats t).elapsedTotalTicks - (s.stats t).total =
    record.start t + record.lost t := telescopes t alive
  have stamp : (s.stats t).elapsedTotalTicks =
      record.start t + record.lost t + (s.stats t).total := sub_eq_iff_eq_add.mp balance
  have since : (s.stats t).elapsedTotalTicks - record.start t =
      record.lost t + (s.stats t).total := by
    rw [stamp]
    abel
  rw [since]
  exact right_eq_add

/-- On a machine whose clock stands still nothing is lost. -/
theorem ticks_accounted_still :
    let last := Library.lastState (Library.observed step watchGaps)
      (boot sampleImage, bootGaps sampleImage) [.syscall .fork, .clock, .syscall .getpid]
    last.1.live 2 = true ∧
      (last.1.stats 2).total = (last.1.stats 2).elapsedTotalTicks - last.2.start 2 := by
  intro last
  have alive : last.1.live 2 = true := by decide +kernel
  have run : Library.Observe step watchGaps (fun _ _ => True) (boot sampleImage)
      (bootGaps sampleImage) last.1 last.2 := Library.Reach.lastObserved fun _ _ _ => trivial
  exact ⟨alive, (ticks_accounted run alive).mpr (by decide +kernel)⟩

/-- A machine whose clock goes on at each reading. -/
def tickingImage : BootImage := { sampleImage with clock := fun k => UInt32.ofNat k }

/-- One call of `getpid`: the two charges lose a tick each. -/
theorem ticks_lost : ∃ s record,
    Library.Observe step watchGaps (fun _ _ => True) (boot tickingImage)
        (bootGaps tickingImage) s record ∧
      s.live 1 = true ∧
      (s.stats 1).total ≠ (s.stats 1).elapsedTotalTicks - record.start 1 := by
  let last := Library.lastState (Library.observed step watchGaps)
    (boot tickingImage, bootGaps tickingImage) [.syscall .getpid]
  have evaluated : last.1.live 1 = true ∧
      (last.1.stats 1).total ≠ (last.1.stats 1).elapsedTotalTicks - last.2.start 1 := by
    decide +kernel
  exact ⟨last.1, last.2, Library.Reach.lastObserved fun _ _ _ => trivial, evaluated⟩

end Kernel

end Zeos
