import Zeos.Sched.Overtaking
import Zeos.Stats.Charges

/-!
# What a process spends its time with

`account` reads off a state what a process does until the next event.  The
kernel charges the right account whenever a process changes it, except that a
process that leaves a waiting queue is charged ready time for its wait, that an
interrupt charges system time to the user code it interrupts when it switches
away, and that the idle process is charged ready time for the time others run.
-/

namespace Zeos

namespace Kernel

variable {s s' : Kernel} {v : View} {t u : TaskId} {event : Event} {now : UInt32}

/-- What a process does until the next event; the idle process runs in the
kernel. -/
def account (s : Kernel) (t : TaskId) : Option Account :=
  if t = s.current then
    if s.mode = .user ∧ t ≠ s.idleTask then some .user else some .system
  else if t ∈ s.queue .readyqueue then some .ready
  else if s.Waits t then some .blocked
  else none

/-! ## Events that change the account -/

/-- The key makes `keyboard_routine` look for a reader to wake. -/
def Pressed (s : Kernel) (scancode beyond : UInt8) : Prop :=
  scancode &&& 0x80 ≠ 0 ∧
    wakesReader (s.keyStored (charOfScancode scancode beyond)) = true

instance (s : Kernel) (scancode beyond : UInt8) :
    Decidable (s.Pressed scancode beyond) := by
  unfold Pressed
  infer_instance

/-- The event moves the process from where it waits to `readyqueue`. -/
def Wakes (s : Kernel) (t : TaskId) : Event → Bool
  | .keyboard scancode beyond =>
      decide (s.Pressed scancode beyond ∧
        (s.queue .keyboardqueue).head? = some t)
  | .syscall (.semSignal nSem) =>
      decide (∃ n, semIndex nSem = some n ∧ 0 ≤ (s.semaphores n).ownerPID ∧
        (s.queue (.semaphore n)).head? = some t)
  | .syscall (.semDestroy nSem) =>
      decide (∃ n, semIndex nSem = some n ∧ s.Owned n ∧
        t ∈ s.queue (.semaphore n))
  | .syscall .exit => decide (∃ n, s.Owned n ∧ t ∈ s.queue (.semaphore n))
  | _ => false

/-- The process that goes on needs more characters. -/
def Unsatisfied (s : Kernel) : Bool :=
  match s.context s.current with
  | .readKeyboard _ n stored =>
      decide (((deliver n stored s.kbd).1.length : Int) < n)
  | _ => false

/-- The event takes the processor from the process that runs. -/
def Switches (s : Kernel) : Event → Bool
  | .clock =>
      decide ((s.stats s.current).remainingTicks = 1 ∧ s.queue .readyqueue ≠ [])
  | .keyboard scancode beyond =>
      decide (s.Pressed scancode beyond ∧ s.queue .keyboardqueue ≠ [])
  | .syscall (.read fd buf count) => decide (ReadAccepted fd buf count)
  | .syscall (.semWait nSem) =>
      decide (∃ n, semIndex nSem = some n ∧ 0 ≤ (s.semaphores n).ownerPID ∧
        (s.semaphores n).counter ≤ 0)
  | .syscall .exit => true
  | .resume => s.Unsatisfied
  | _ => false

/-- An interrupt that is no call. -/
def Interrupts : Event → Bool
  | .clock => true
  | .keyboard _ _ => true
  | _ => false

/-- The event ends a time of the process that no account is charged for, or
the wrong one. -/
def Late (s : Kernel) (t : TaskId) (event : Event) : Prop :=
  s.Wakes t event ∨
    (t = s.current ∧ t ≠ s.idleTask ∧ Interrupts event ∧ s.Switches event) ∨
    (t = s.idleTask ∧ s.queue .readyqueue = [] ∧ s.Switches event ∧
      ∀ u, ¬ s.Wakes u event)

instance (s : Kernel) (t : TaskId) (event : Event) :
    Decidable (s.Late t event) := by
  unfold Late
  infer_instance

theorem clock_switches (orderly : s.Orderly) (user : s.mode = .user)
    (mode : s.clockRoutine.mode = .switched) : s.Switches .clock := by
  have emptyIff := orderly.refines.listEmpty_iff (q := .readyqueue) trivial
  unfold clockRoutine at mode
  rcases schedule_meters { s with zeosTicks := int32 (s.zeosTicks + 1) } with
    ⟨stats, same, _⟩ | ⟨exhausted, ready, _⟩
  · rw [same] at mode
    exact absurd (user.symm.trans mode) (by decide)
  · refine decide_eq_true ⟨exhausted, fun empty => ?_⟩
    exact absurd ((emptyIff.mpr empty).symm.trans ready) (by decide)

theorem keyboard_switches (orderly : s.Orderly) (user : s.mode = .user)
    {scancode beyond : UInt8}
    (mode : (s.keyboardRoutine scancode beyond).mode = .switched) :
    s.Switches (.keyboard scancode beyond) := by
  have emptyIff := orderly.refines.listEmpty_iff (q := .keyboardqueue) trivial
  revert mode
  unfold keyboardRoutine
  split_ifs with make
  · dsimp only
    split_ifs with wakes
    · exact fun _ => decide_eq_true
        ⟨⟨make, wakes.1⟩, fun empty => wakes.2 (emptyIff.mpr empty)⟩
    · exact fun switched => absurd (user.symm.trans switched) (by decide)
  · exact fun switched => absurd (user.symm.trans switched) (by decide)

theorem read_switches (orderly : s.Orderly) {fd count : Int32} {buf : UInt32}
    (mode : (s.systemCall (.read fd buf count)).mode = .switched) :
    s.Switches (.syscall (.read fd buf count)) := by
  change (complete (s.userToSysStats.sysRead fd buf count)).mode = .switched at mode
  rcases sysRead_cases orderly.userToSysStats.cbIsEmpty fd buf count with
    ⟨_, result, failed⟩ | ⟨accepted, _⟩
  · rw [failed] at mode
    cases mode
  · exact decide_eq_true accepted

theorem semWait_switches {nSem : Int32}
    (mode : (s.systemCall (.semWait nSem)).mode = .switched) :
    s.Switches (.syscall (.semWait nSem)) := by
  revert mode
  change (complete (s.userToSysStats.sysSemWait nSem)).mode = .switched → _
  unfold sysSemWait
  split
  · exact nofun
  · next n slot =>
      split_ifs with unused blocked
      · exact nofun
      · have used : 0 ≤ (s.semaphores n).ownerPID := by
          have notUnused : ¬ (s.semaphores n).ownerPID < 0 := unused
          omega
        exact fun _ => decide_eq_true ⟨n, slot, used, blocked⟩
      · exact nofun

theorem resume_switches (mode : s.resume.mode = .switched) : s.Unsatisfied := by
  revert mode
  unfold resume
  split
  · exact nofun
  · exact nofun
  · exact nofun
  · exact nofun
  · next reading =>
      rw [readLoop_eq]
      dsimp only
      split_ifs with more
      · intro _
        unfold Unsatisfied
        rw [reading]
        exact decide_eq_true more
      · exact nofun
  · exact nofun

/-- Every switch has its cause. -/
theorem switches_of_handle (orderly : s.Orderly)
    (handled : s.handle event = some s') (mode : s'.mode = .switched) :
    s.Switches event := by
  have ran : ∀ {s' : Kernel}, s'.mode = .user → s'.mode = .switched → False :=
    fun user switched => absurd (user.symm.trans switched) (by decide)
  unfold handle at handled
  split at handled
  · split_ifs at handled with user
    cases handled
    exact clock_switches orderly user mode
  · split_ifs at handled with user
    cases handled
    exact keyboard_switches orderly user mode
  · next call =>
      split_ifs at handled with able
      cases handled
      cases call with
      | exit => rfl
      | read fd buf count => exact read_switches orderly mode
      | semWait nSem => exact semWait_switches mode
      | _ => exact (ran rfl mode).elim
  · split_ifs at handled with able
    cases handled
    exact (ran able.1 mode).elim
  · split_ifs at handled with switched
    cases handled
    exact resume_switches mode

/-! ## Where a step leaves the other processes -/

/-- A view between `s` and the dispatch at the end of a step. -/
structure Stage (s : Kernel) (event : Event) (s' : Kernel) (v : View) :
    Prop where
  ends : (s'.mode = .user ∧ s'.current = s.current ∧ s'.view = v) ∨
    (s'.mode = .switched ∧ ∃ context, s'.view = v.dispatch context)
  idle : v.idle = s.idleTask
  members : ∀ u, s.live u = true → u ≠ s.current →
    (∀ q, u ∈ v.queue q ↔ u ∈ s.queue q) ∨ s.Wakes u event
  empty : s'.mode = .switched → v.queue .readyqueue = [] →
    s.queue .readyqueue = [] ∧ ∀ u, ¬ s.Wakes u event

theorem mem_place_other {q r : Queue} {tasks : List TaskId} {st : State}
    (permutation : tasks.Perm (t :: v.queue q)) (other : u ≠ t) :
    u ∈ (v.place t q tasks st).queue r ↔ u ∈ v.queue r := by
  by_cases same : r = q
  · subst same
    rw [View.place_queue_self, permutation.mem_iff, List.mem_cons]
    exact or_iff_right other
  · exact View.mem_place_of_ne same

theorem mem_dispatch_other {r : Queue} {context : Context} (other : u ≠ v.next) :
    u ∈ (v.dispatch context).queue r ↔ u ∈ v.queue r := by
  by_cases isReady : r = .readyqueue
  · subst isReady
    have tail : (v.dispatch context).queue .readyqueue =
        (v.queue .readyqueue).tail := by
      simp [View.dispatch]
    rw [tail]
    rcases v.next_cases with ⟨empty, _⟩ | ⟨rest, shape⟩
    · rw [empty]
      rfl
    · rw [shape, List.tail_cons, List.mem_cons]
      exact (or_iff_right other).symm
  · exact View.mem_dispatch_of_ne isReady

/-- A step that leaves the queues alone. -/
theorem Stage.stays (view : s'.view = s.view) (mode : s'.mode = .user) :
    s.Stage event s' s.view where
  ends := Or.inl ⟨mode, congrArg View.current view, view⟩
  idle := rfl
  members _ _ _ := Or.inl fun _ => Iff.rfl
  empty switched := absurd (mode.symm.trans switched) (by decide)

/-- The process that runs is put in a queue. -/
theorem Stage.queued {q : Queue} {tasks : List TaskId} {st : State}
    {context : Context}
    (view : s'.view = (s.view.place s.current q tasks st).dispatch context)
    (permutation : tasks.Perm (s.current :: s.queue q))
    (mode : s'.mode = .switched)
    (nobody : q = .readyqueue ∨ ∀ u, ¬ s.Wakes u event) :
    s.Stage event s' (s.view.place s.current q tasks st) where
  ends := Or.inr ⟨mode, context, view⟩
  idle := rfl
  members _ _ other := Or.inl fun _ => mem_place_other permutation other
  empty _ none := by
    have unqueued : q ≠ .readyqueue := by
      rintro rfl
      rw [View.place_queue_self] at none
      exact absurd (none ▸ permutation).length_eq (by simp)
    rw [place_ready unqueued] at none
    exact ⟨none, nobody.resolve_left unqueued⟩

/-- A process stays where it is unless its semaphore is destroyed. -/
theorem released_members {closed : SemId → Prop} {v' : View}
    (released : Released closed v v') (u : TaskId) :
    (∀ q, u ∈ v'.queue q ↔ u ∈ v.queue q) ∨
      ∃ n, closed n ∧ u ∈ v.queue (.semaphore n) := by
  by_cases woken : ∃ n, closed n ∧ u ∈ v.queue (.semaphore n)
  · exact Or.inr woken
  · refine Or.inl fun q => ?_
    by_cases isReady : q = .readyqueue
    · subst isReady
      obtain ⟨tasks, ready, members⟩ := released.woken
      rw [ready, List.mem_append]
      exact or_iff_right fun member => woken ((members u).mp member)
    · by_cases isClosed : ∃ n, closed n ∧ q = .semaphore n
      · obtain ⟨n, closes, rfl⟩ := isClosed
        rw [released.emptied n closes]
        exact iff_of_false List.not_mem_nil fun member => woken ⟨n, closes, member⟩
      · rw [released.others q isReady fun n closes same => isClosed ⟨n, closes, same⟩]

theorem Turn.stage (turn : Turn s event s') (orderly : s.Orderly)
    (cause : s'.mode = .switched → s.Switches event) :
    ∃ v, s.Stage event s' v := by
  have parked := orderly.settled.toParked
  have appended : ∀ q, (s.queue q ++ [s.current]).Perm (s.current :: s.queue q) :=
    fun q => List.perm_append_singleton _ _
  cases turn with
  | stays _ view _ mode => exact ⟨_, .stays view mode⟩
  | preempted _ view _ mode =>
      exact ⟨_, .queued view (appended _) mode (Or.inl rfl)⟩
  | @served _ _ w rest _ shape view _ mode =>
      have member : w ∈ s.view.queue .keyboardqueue := by
        change w ∈ s.queue .keyboardqueue
        rw [shape]
        exact List.mem_cons_self
      refine ⟨s.view.wake w .keyboardqueue, Or.inr ⟨mode, _, view⟩, rfl, ?_, ?_⟩
      · intro u _ _
        by_cases isWoken : u = w
        · subst isWoken
          exact Or.inr (decide_eq_true
            ⟨(of_decide_eq_true (cause mode)).1, by rw [shape]; rfl⟩)
        · refine Or.inl fun q => ?_
          rw [View.mem_wake parked member (Or.inl rfl)]
          exact (or_iff_right fun both => isWoken both.1).trans
            (and_iff_right isWoken)
      · intro _ none
        rw [View.wake_queue_ready] at none
        cases none
  | asked _ _ view _ mode =>
      exact ⟨_, .queued view (appended _) mode (Or.inr fun _ => Bool.false_ne_true)⟩
  | again _ _ _ view _ mode =>
      exact ⟨_, .queued view (List.Perm.refl _) mode (Or.inr fun _ => Bool.false_ne_true)⟩
  | took _ _ _ view _ _ mode => exact ⟨_, .stays view mode⟩
  | waited _ _ _ _ view _ mode =>
      exact ⟨_, .queued view (appended _) mode (Or.inr fun _ => Bool.false_ne_true)⟩
  | raised _ _ _ view _ _ mode => exact ⟨_, .stays view mode⟩
  | @woke _ n w rest _ slot _ used shape view _ mode =>
      have member : w ∈ s.view.queue (.semaphore n) := by
        change w ∈ s.queue (.semaphore n)
        rw [shape]
        exact List.mem_cons_self
      refine ⟨s.view.wake w (.semaphore n),
        Or.inl ⟨mode, congrArg View.current view, view⟩, rfl, ?_, ?_⟩
      · intro u _ _
        by_cases isWoken : u = w
        · subst isWoken
          exact Or.inr (decide_eq_true ⟨n, slot, used, by rw [shape]; rfl⟩)
        · refine Or.inl fun q => ?_
          rw [View.mem_wake parked member (Or.inr ⟨n, rfl⟩)]
          exact (or_iff_right fun both => isWoken both.1).trans
            (and_iff_right isWoken)
      · intro switched
        exact absurd (mode.symm.trans switched) (by decide)
  | opened _ _ view _ _ mode => exact ⟨_, .stays view mode⟩
  | @destroyed _ n _ slot _ used owner released _ _ mode =>
      refine ⟨s'.view, Or.inl ⟨mode, released.current, rfl⟩, released.idle, ?_, ?_⟩
      · intro u _ _
        rcases released_members released u with same | ⟨m, isDestroyed, waiting⟩
        · exact Or.inl same
        · subst isDestroyed
          exact Or.inr (decide_eq_true ⟨m, slot, ⟨used, owner.symm⟩, waiting⟩)
      · intro switched
        exact absurd (mode.symm.trans switched) (by decide)
  | @exited v _ _ released view _ _ _ _ mode =>
      refine ⟨v.retire, Or.inr ⟨mode, _, view⟩, released.idle, ?_, ?_⟩
      · intro u _ other
        rcases released_members released u with same | woken
        · refine Or.inl fun q => ?_
          rw [View.mem_retire, released.current]
          exact (or_iff_right fun both => other both.1).trans (same q)
        · exact Or.inr (decide_eq_true woken)
      · intro _ none
        obtain ⟨tasks, ready, members⟩ := released.woken
        have kept : v.retire.queue .readyqueue = v.queue .readyqueue := by
          simp [View.retire, View.place]
        rw [kept, ready, List.append_eq_nil_iff] at none
        refine ⟨none.2, fun u woken => ?_⟩
        have member := (members u).mpr (of_decide_eq_true woken)
        rw [none.1] at member
        cases member
  | @created _ child _ _ _ member view _ _ _ _ mode =>
      refine ⟨_, Or.inl ⟨mode, congrArg View.current view, view⟩, rfl, ?_, ?_⟩
      · intro u alive _
        have notChild : u ≠ child := by
          rintro rfl
          have dead : s.live u = false := (parked.free u).mp member
          exact absurd (alive.symm.trans dead) (by decide)
        refine Or.inl fun q => ?_
        rw [View.mem_create parked member]
        exact (or_iff_right fun both => notChild both.1).trans
          (and_iff_right notChild)
      · intro switched
        exact absurd (mode.symm.trans switched) (by decide)
  | @recycled child _ _ _ _ member view _ _ _ _ mode =>
      refine ⟨_, Or.inl ⟨mode, congrArg View.current view, view⟩, rfl, ?_, ?_⟩
      · exact fun u _ _ => Or.inl fun q => View.mem_recycle member
      · intro switched
        exact absurd (mode.symm.trans switched) (by decide)

/-! ## The bill and the account -/

theorem Stage.sameIdle (stage : s.Stage event s' v) : s'.idleTask = s.idleTask := by
  rw [← stage.idle]
  rcases stage.ends with ⟨_, _, view⟩ | ⟨_, context, view⟩
  · exact congrArg View.idle view
  · exact congrArg View.idle view

/-- The process is in the same queues, or it was woken. -/
theorem Stage.stands (stage : s.Stage event s' v) (alive : s.live u = true)
    (notCurrent : u ≠ s.current) (notNext : u ≠ s'.current) :
    (∀ q, u ∈ s'.queue q ↔ u ∈ s.queue q) ∨ s.Wakes u event := by
  rcases stage.members u alive notCurrent with same | woken
  · left
    rcases stage.ends with ⟨_, _, view⟩ | ⟨_, context, view⟩
    · have queue : s'.queue = v.queue := congrArg View.queue view
      rw [queue]
      exact same
    · have queue : s'.queue = (v.dispatch context).queue :=
        congrArg View.queue view
      have isNext : s'.current = v.next := congrArg View.current view
      intro q
      rw [queue, mem_dispatch_other (isNext ▸ notNext)]
      exact same q
  · exact Or.inr woken

/-- The next process was ready, was woken, or is the idle process for want of
another. -/
theorem Stage.next (stage : s.Stage event s' v) (alive : s.live s'.current = true)
    (other : s'.current ≠ s.current) :
    s'.mode = .switched ∧ (s'.current ∈ s.queue .readyqueue ∨
      s.Wakes s'.current event ∨ (s'.current = s.idleTask ∧
        s.queue .readyqueue = [] ∧ ∀ u, ¬ s.Wakes u event)) := by
  rcases stage.ends with ⟨_, same, _⟩ | ⟨mode, context, view⟩
  · exact absurd same other
  · refine ⟨mode, ?_⟩
    have isNext : s'.current = v.next := congrArg View.current view
    rcases v.next_cases with ⟨empty, isIdle⟩ | ⟨rest, shape⟩
    · exact Or.inr (Or.inr ⟨(isNext.trans isIdle).trans stage.idle,
        stage.empty mode empty⟩)
    · rcases stage.members _ alive other with same | woken
      · refine Or.inl ((same .readyqueue).mp ?_)
        rw [shape, isNext]
        exact List.mem_cons_self
      · exact Or.inr (Or.inl woken)

theorem account_of_queues (notCurrent : u ≠ s.current) (notNext : u ≠ s'.current)
    (same : ∀ q, u ∈ s'.queue q ↔ u ∈ s.queue q) : s'.account u = s.account u := by
  have waits : s'.Waits u ↔ s.Waits u :=
    or_congr (same .keyboardqueue) (exists_congr fun n => same (.semaphore n))
  unfold account
  rw [if_neg notCurrent, if_neg notNext]
  simp only [same, waits]

/-- What the process is billed for is what it did, or it was charged just
before. -/
def Settles (s : Kernel) (event : Event) (s' : Kernel) (t : TaskId)
    (now : UInt32) : Prop :=
  (s.meter t).stamp = now ∨
    match s.billed event s' t with
    | some a => s.account t = some a
    | none => s'.account t = s.account t

/-- The process that runs. -/
theorem settles_current (handled : s.handle event = some s')
    (stage : s.Stage event s' v)
    (cause : s'.mode = .switched → s.Switches event)
    (fresh : s.mode = .switched → (s.meter s.current).stamp = now)
    (punctual : s.Late s.current event → (s.meter s.current).stamp = now) :
    s.Settles event s' s.current now := by
  have billed : s.billed event s' s.current = entryBill event s' := if_pos rfl
  have running : s.mode = .user → s'.mode = .user →
      s'.account s.current = s.account s.current := by
    intro user user'
    rcases stage.ends with ⟨_, same, _⟩ | ⟨switched, _⟩
    · unfold account
      rw [if_pos same.symm, if_pos rfl, stage.sameIdle, user, user']
    · exact absurd (user'.symm.trans switched) (by decide)
  have interrupted : s.mode = .user → Interrupts event →
      entryBill event s' = (if s'.mode = .switched then some .system else none) →
      s.Settles event s' s.current now := by
    intro user interrupts bill
    unfold Settles
    rw [billed, bill]
    cases mode : s'.mode with
    | user => exact Or.inr (running user mode)
    | switched =>
        by_cases isIdle : s.current = s.idleTask
        · right
          rw [if_pos rfl]
          unfold account
          rw [if_pos rfl, if_neg fun both => both.2 isIdle]
        · exact Or.inl (punctual
            (Or.inr (Or.inl ⟨rfl, isIdle, interrupts, cause mode⟩)))
  unfold handle at handled
  split at handled
  · split_ifs at handled with user
    exact interrupted user rfl rfl
  · split_ifs at handled with user
    exact interrupted user rfl rfl
  · split_ifs at handled with able
    right
    rw [billed]
    unfold account
    exact (if_pos rfl).trans (if_pos able)
  · split_ifs at handled with able
    cases handled
    right
    rw [billed]
    exact running able.1 able.1
  · split_ifs at handled with switched
    exact Or.inl (fresh switched)

/-- Every step charges what a process did when it does something else, unless
it is late. -/
theorem settles (handled : s.handle event = some s') (stage : s.Stage event s' v)
    (cause : s'.mode = .switched → s.Switches event)
    (alive : s.live t = true)
    (fresh : s.mode = .switched → (s.meter s.current).stamp = now)
    (punctual : s.Late t event → (s.meter t).stamp = now) :
    s.Settles event s' t now := by
  by_cases isCurrent : t = s.current
  · subst isCurrent
    exact settles_current handled stage cause fresh punctual
  · unfold Settles billed
    rw [if_neg isCurrent]
    by_cases isNext : t = s'.current
    · subst isNext
      rw [if_pos rfl]
      obtain ⟨mode, was⟩ := stage.next alive isCurrent
      rcases was with ready | woken | ⟨isIdle, none⟩
      · right
        unfold account
        rw [if_neg isCurrent, if_pos ready]
      · exact Or.inl (punctual (Or.inl woken))
      · exact Or.inl (punctual
          (Or.inr (Or.inr ⟨isIdle, none.1, cause mode, none.2⟩)))
    · rw [if_neg isNext]
      rcases stage.stands alive isCurrent isNext with same | woken
      · exact Or.inr (account_of_queues isCurrent isNext same)
      · exact Or.inl (punctual (Or.inl woken))

end Kernel

end Zeos
