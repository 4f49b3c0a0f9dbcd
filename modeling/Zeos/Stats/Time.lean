import Zeos.Stats.Accounts

/-!
# Time is charged to the account it was spent in

An observer of a run measures for each process how long it did what, with one
reading of the clock for each kernel entry.  The tick counters agree with the
observer up to the last time the process was charged, in every run in which no
process is late when its account ends.
-/

namespace Zeos

/-- The counters of a process agree with the time an observer measured. -/
structure Meter.Kept (m : Meter) (spent accounted : Account → Nat)
    (doing : Option Account) (time : UInt32) : Prop where
  counted : ∀ a, (m.ticks a).toNat = accounted a
  bounded : ∀ a, accounted a ≤ m.stamp.toNat
  past : m.stamp ≤ time
  owed : ∀ a, spent a =
    accounted a + if doing = some a then time.toNat - m.stamp.toNat else 0

namespace Meter.Kept

variable {m : Meter} {spent accounted : Account → Nat}
  {doing doing' : Option Account} {time now : UInt32}

theorem zero (now : UInt32) (doing : Option Account) :
    (Meter.zero now).Kept (fun _ => 0) (fun _ => 0) doing now where
  counted _ := rfl
  bounded _ := Nat.zero_le _
  past := UInt32.le_refl now
  owed a := by
    change 0 = 0 + if doing = some a then now.toNat - now.toNat else 0
    rw [Nat.sub_self, ite_self]

/-- The time until `now` is spent, and the meter is not charged. -/
theorem wait (kept : m.Kept spent accounted doing time) (forward : time ≤ now)
    (settled : m.stamp = now ∨ doing' = doing) :
    m.Kept (fun a => spent a +
        if doing = some a then now.toNat - time.toNat else 0)
      (fun a => if m.stamp = now then spent a +
        (if doing = some a then now.toNat - time.toNat else 0) else accounted a)
      doing' now := by
  have before : m.stamp.toNat ≤ time.toNat := UInt32.le_iff_toNat_le.mp kept.past
  have after : time.toNat ≤ now.toNat := UInt32.le_iff_toNat_le.mp forward
  by_cases stamped : m.stamp = now
  · have same : m.stamp.toNat = now.toNat := congrArg UInt32.toNat stamped
    have unspent : ∀ a, spent a +
        (if doing = some a then now.toNat - time.toNat else 0) = accounted a := by
      intro a
      have owed := kept.owed a
      split_ifs at owed ⊢ <;> omega
    simp only [if_pos stamped, unspent]
    refine ⟨kept.counted, kept.bounded, UInt32.le_trans kept.past forward, fun a => ?_⟩
    split_ifs <;> omega
  · have sameDoing : doing' = doing := settled.resolve_left stamped
    simp only [if_neg stamped]
    refine ⟨kept.counted, kept.bounded, UInt32.le_trans kept.past forward, fun a => ?_⟩
    have owed := kept.owed a
    rw [sameDoing]
    split_ifs at owed ⊢ <;> omega

/-- The time since the stamp is charged to what the process did. -/
theorem charge {a : Account} (kept : m.Kept spent accounted doing time)
    (forward : time ≤ now) (settled : m.stamp = now ∨ doing = some a) :
    (m.charge a now).Kept (fun a => spent a +
        if doing = some a then now.toNat - time.toNat else 0)
      (fun a => spent a + if doing = some a then now.toNat - time.toNat else 0)
      doing' now := by
  have before : m.stamp.toNat ≤ time.toNat := UInt32.le_iff_toNat_le.mp kept.past
  have after : time.toNat ≤ now.toNat := UInt32.le_iff_toNat_le.mp forward
  have passed : (now - m.stamp).toNat = now.toNat - m.stamp.toNat :=
    UInt32.toNat_sub_of_le _ _ (UInt32.le_trans kept.past forward)
  have total : ∀ b, spent b +
      (if doing = some b then now.toNat - time.toNat else 0) =
        accounted b + if b = a then now.toNat - m.stamp.toNat else 0 := by
    intro b
    have owed := kept.owed b
    rcases settled with stamped | isDoing
    · have same : m.stamp.toNat = now.toNat := congrArg UInt32.toNat stamped
      split_ifs at owed ⊢ <;> omega
    · have doingIff : doing = some b ↔ b = a := by
        rw [isDoing, Option.some_inj, eq_comm]
      simp only [doingIff] at owed ⊢
      split_ifs at owed ⊢ <;> omega
  simp only [total]
  refine ⟨fun b => ?_, fun b => ?_, UInt32.le_refl now, fun b => ?_⟩
  · unfold Meter.charge
    dsimp only
    have counted := kept.counted b
    have bounded := kept.bounded b
    have small := now.toNat_lt
    by_cases same : b = a
    · subst same
      rw [if_pos rfl, Function.update_self, UInt32.toNat_add, passed, counted]
      omega
    · rw [if_neg same, Function.update_of_ne same]
      exact counted
  · have bounded := kept.bounded b
    rw [Meter.charge_stamp]
    split_ifs <;> omega
  · rw [Meter.charge_stamp, Nat.sub_self, ite_self, Nat.add_zero]

end Meter.Kept

namespace Kernel

variable {s s' : Kernel} {v : View} {t u : TaskId} {event : Event} {now : UInt32}

/-- The time since a process was created, by what it did: all of it, and what
had passed when the process was last charged. -/
structure Ledger where
  spent : TaskId → Account → Nat
  accounted : TaskId → Account → Nat

/-- The kernel entry reads one time from the clock, which is not before the
last one, and the same while the kernel goes on after a switch. -/
def OnTime (s s' : Kernel) (time now : UInt32) : Prop :=
  time ≤ now ∧ (s.mode = .switched → now = time) ∧ s.ReadsAt s' now

instance (s s' : Kernel) (time now : UInt32) :
    Decidable (s.OnTime s' time now) := by
  unfold OnTime ReadsAt
  infer_instance

/-- A step at a time of day, after the time of the last step. -/
def timedStep (before : Kernel × UInt32) (entry : Event × UInt32) :
    Option (Kernel × UInt32) :=
  (before.1.step entry.1).bind fun after =>
    if before.1.OnTime after before.2 entry.2 then some (after, entry.2) else none

/-- The observer of all processes.  A process begins with nothing spent. -/
def watchTime (before : Kernel × UInt32) (_ : Event × UInt32)
    (after : Kernel × UInt32) (ledger : Ledger) : Ledger :=
  let elapsed := after.2.toNat - before.2.toNat
  let spent t a :=
    if before.1.live t then
      ledger.spent t a + if before.1.account t = some a then elapsed else 0
    else 0
  { spent := spent
    accounted t a :=
      if (after.1.meter t).stamp = after.2 then spent t a
      else ledger.accounted t a }

/-- No process is late at this step, or its account ends with no time
passed. -/
def Punctual (t : TaskId) (before : Kernel × UInt32) (entry : Event × UInt32) :
    Prop :=
  before.1.Late t entry.1 →
    (before.1.stats t).elapsedTotalTicks = entry.2

instance (t : TaskId) (before : Kernel × UInt32) (entry : Event × UInt32) :
    Decidable (Punctual t before entry) :=
  inferInstanceAs (Decidable (_ → _))

/-- A timed run is a run. -/
theorem reachable_of_timed {image : BootImage} {time : UInt32}
    {last : Kernel × UInt32}
    (run : Library.Reach timedStep (fun _ _ => True) (boot image, time) last) :
    Reachable image last.1 := by
  induction run with
  | start => exact .start
  | step _ _ taken inductionHypothesis =>
      obtain ⟨after, stepped, finished⟩ := Option.bind_eq_some_iff.mp taken
      split_ifs at finished
      cases finished
      exact .step inductionHypothesis trivial stepped

/-- The invariant of a process: its meter is kept, and so is that of a process
that was just switched to. -/
structure TimeKept (t : TaskId) (state : Kernel × UInt32) (ledger : Ledger) :
    Prop where
  fresh : state.1.mode = .switched →
    (state.1.meter state.1.current).stamp = state.2
  kept : state.1.live t = true →
    (state.1.meter t).Kept (ledger.spent t) (ledger.accounted t)
      (state.1.account t) state.2

theorem boot_timeKept {image : BootImage} (forward : image.clock 0 ≤ image.clock 1)
    (t : TaskId) :
    TimeKept t (boot image, image.clock 1) ⟨fun _ _ => 0, fun _ _ => 0⟩ := by
  refine ⟨nofun, fun alive => ?_⟩
  have view := (boot_refines image).view
  have idle : (boot image).meter 0 = .zero (image.clock 0) := by
    apply Meter.ext
    · funext a
      cases a <;> rfl
    · rfl
  have first : (boot image).meter 1 = .zero (image.clock 1) := by
    apply Meter.ext
    · funext a
      cases a <;> rfl
    · rfl
  rcases boot_live alive with rfl | rfl
  · have waits : (boot image).account 0 = none := by
      have queues : (boot image).queue = bootView.queue :=
        congrArg View.queue view
      have current : (boot image).current = 1 := congrArg View.current view
      have notCurrent : 0 ≠ (boot image).current := by
        rw [current]
        decide
      have notReady : 0 ∉ (boot image).queue .readyqueue := by
        rw [queues]
        decide
      have notWaits : ¬ (boot image).Waits 0 := by
        unfold Waits
        rw [queues]
        decide
      unfold account
      rw [if_neg notCurrent, if_neg notReady, if_neg notWaits]
    rw [idle, waits]
    exact ⟨fun _ => rfl, fun _ => Nat.zero_le _, forward, fun _ => rfl⟩
  · rw [first]
    exact .zero _ _

/-- The process that a step switched to was charged in it. -/
theorem stamped_of_switched (after : s'.Orderly)
    (meters : s.MetersAfter event s' now) (handled : s.handle event = some s')
    (cause : s'.mode = .switched → s.Switches event)
    (fresh : s.mode = .switched → (s.meter s.current).stamp = now)
    (mode : s'.mode = .switched) : (s'.meter s'.current).stamp = now := by
  rcases meters s'.current after.settled.currentLive with
    ⟨_, started⟩ | ⟨_, settled⟩
  · rw [started]
    rfl
  · rw [settled]
    by_cases isCurrent : s'.current = s.current
    · have bill : s.billed event s' s'.current = entryBill event s' :=
        if_pos isCurrent
      rw [bill]
      have switches := cause mode
      cases event with
      | clock =>
          rw [entryBill, if_pos mode]
          rfl
      | keyboard scancode beyond =>
          rw [entryBill, if_pos mode]
          rfl
      | syscall call => rfl
      | badSyscall => exact absurd switches Bool.false_ne_true
      | resume =>
          unfold handle at handled
          dsimp only at handled
          split_ifs at handled with switched
          rw [isCurrent]
          exact fresh switched
    · have bill : s.billed event s' s'.current = some .ready :=
        (if_neg isCurrent).trans (if_pos rfl)
      rw [bill]
      rfl

theorem TimeKept.step {before after : Kernel × UInt32} {entry : Event × UInt32}
    {ledger : Ledger} (kept : TimeKept t before ledger)
    (orderly : before.1.Orderly) (punctual : Punctual t before entry)
    (taken : timedStep before entry = some after) :
    TimeKept t after (watchTime before entry after ledger) := by
  obtain ⟨s, time⟩ := before
  obtain ⟨event, now⟩ := entry
  obtain ⟨s', stepped, finished⟩ := Option.bind_eq_some_iff.mp taken
  split_ifs at finished with onTime
  cases finished
  obtain ⟨forward, still, reads⟩ := onTime
  have handled := handle_of_step stepped
  have orderlyAfter := orderly.step stepped
  have cause := switches_of_handle orderly handled
  obtain ⟨v, stage⟩ := (turn_of_step orderly stepped).stage orderly cause
  have fresh : s.mode = .switched → (s.meter s.current).stamp = now := fun mode =>
    (kept.fresh mode).trans (still mode).symm
  have meters := handle_meters orderly fresh handled reads
  refine ⟨fun mode => ?_, fun alive => ?_⟩
  · exact stamped_of_switched orderlyAfter meters handled cause fresh mode
  · change s'.live t = true at alive
    rcases meters t alive with ⟨unborn, started⟩ | ⟨was, settled⟩
    · have spent : (watchTime (s, time) (event, now) (s', now) ledger).spent t =
          fun _ => 0 := by
        funext a
        exact if_neg fun born => absurd (born.symm.trans unborn) (by decide)
      have accounted : (watchTime (s, time) (event, now) (s', now)
          ledger).accounted t = fun _ => 0 := by
        funext a
        have stamped : (s'.meter t).stamp = now := by
          rw [started]
          rfl
        exact (if_pos stamped).trans (congrFun spent a)
      change (s'.meter t).Kept _ _ _ now
      rw [started, spent, accounted]
      exact .zero _ _
    · have spent : (watchTime (s, time) (event, now) (s', now) ledger).spent t =
          fun a => ledger.spent t a +
            if s.account t = some a then now.toNat - time.toNat else 0 := by
        funext a
        exact if_pos was
      have accounted : (watchTime (s, time) (event, now) (s', now)
          ledger).accounted t = fun a => if (s'.meter t).stamp = now then
            ledger.spent t a +
              (if s.account t = some a then now.toNat - time.toNat else 0)
            else ledger.accounted t a := by
        funext a
        exact congrArg (fun x => if (s'.meter t).stamp = now then x
          else ledger.accounted t a) (congrFun spent a)
      have before := kept.kept was
      have billed := settles handled stage cause was fresh punctual
      unfold Settles at billed
      change (s'.meter t).Kept _ _ _ now
      rw [settled, spent, accounted, settled]
      cases bill : s.billed event s' t with
      | none =>
          rw [bill] at billed
          exact before.wait forward billed
      | some a =>
          rw [bill] at billed
          have stamped : ((s.meter t).settle now (some a)).stamp = now := rfl
          simp only [if_pos stamped]
          exact before.charge forward billed

/-- The counters of a process, and what an observer accounted for. -/
structure TimeCharged (s : Kernel) (t : TaskId) (ledger : Ledger) : Prop where
  userTicks : (s.stats t).userTicks.toNat = ledger.accounted t .user
  systemTicks : (s.stats t).systemTicks.toNat = ledger.accounted t .system
  blockedTicks : (s.stats t).blockedTicks.toNat = ledger.accounted t .blocked
  readyTicks : (s.stats t).readyTicks.toNat = ledger.accounted t .ready

/-- In a run in which a process is never late its counters are the times it
spent up to its last charge. -/
theorem time_charged {image : BootImage} {last : Kernel × UInt32}
    {ledger : Ledger} (forward : image.clock 0 ≤ image.clock 1)
    (run : Library.Observe timedStep watchTime (Punctual t)
      (boot image, image.clock 1) ⟨fun _ _ => 0, fun _ _ => 0⟩ last ledger)
    (alive : last.1.live t = true) : last.1.TimeCharged t ledger := by
  have kept : TimeKept t last ledger := by
    refine Library.Reach.observe_invariant (TimeKept t) (boot_timeKept forward t)
      (fun _ plain => orderly_of_reachable (reachable_of_timed plain)) ?_ run
    intro before entry after ledger orderly kept punctual taken
    exact kept.step orderly punctual taken
  have counted := (kept.kept alive).counted
  exact ⟨counted .user, counted .system, counted .blocked, counted .ready⟩

/-- A child waits two ticks for its first quantum and uses three ticks of
it. -/
theorem time_charged_child :
    let image : BootImage := { sampleImage with
      clock := fun k => ([0, 0, 5, 5, 5, 5, 7, 7, 7, 7, 7, 9, 9, 9, 9, 9, 9, 9, 9,
        9, 9] : List UInt32).getD k 12 }
    let last := Library.lastState
      (Library.guarded (Library.observed timedStep watchTime)
        fun before => Punctual 2 before.1)
      ((boot image, image.clock 1), ⟨fun _ _ => 0, fun _ _ => 0⟩)
      ([(.syscall .getpid, 5), (.syscall .fork, 7), (.syscall .getpid, 9)] ++
        List.replicate 10 (.clock, 9) ++ [(.resume, 9), (.syscall .getpid, 12)])
    last.1.1.TimeCharged 2 last.2 ∧ last.2.accounted 2 .ready = 2 ∧
      last.2.accounted 2 .user = 3 := by
  intro image last
  have run : Library.Observe timedStep watchTime (Punctual 2)
      (boot image, image.clock 1) ⟨fun _ _ => 0, fun _ _ => 0⟩ last.1 last.2 :=
    Library.Reach.guardedObserved
  exact ⟨time_charged (by decide) run (by decide +kernel), by decide +kernel,
    by decide +kernel⟩

/-- The user time of a process whose quantum is over counts as system time. -/
theorem preempted_time_is_system :
    ∃ last ledger, Library.Observe timedStep watchTime (fun _ _ => True)
        (boot { sampleImage with clock := fun k => if k < 7 then 0 else 5 }, 0)
        ⟨fun _ _ => 0, fun _ _ => 0⟩ last ledger ∧
      last.1.mode = .user ∧ last.1.live 1 = true ∧
      ¬ last.1.TimeCharged 1 ledger := by
  let last := Library.lastState (Library.observed timedStep watchTime)
    ((boot { sampleImage with clock := fun k => if k < 7 then 0 else 5 }, 0),
      ⟨fun _ _ => 0, fun _ _ => 0⟩)
    ((.syscall .fork, 0) :: List.replicate 10 (.clock, 5) ++ [(.resume, 5)])
  have run : Library.Observe timedStep watchTime (fun _ _ => True)
      (boot { sampleImage with clock := fun k => if k < 7 then 0 else 5 }, 0)
      ⟨fun _ _ => 0, fun _ _ => 0⟩ last.1 last.2 :=
    Library.Reach.lastObserved fun _ _ _ => trivial
  have charged : (last.1.1.stats 1).userTicks.toNat = 0 := by decide +kernel
  have spent : last.2.accounted 1 .user = 5 := by decide +kernel
  refine ⟨last.1, last.2, run, by decide +kernel, by decide +kernel, fun right => ?_⟩
  have counted := right.userTicks
  rw [charged, spent] at counted
  cases counted

end Kernel

end Zeos
