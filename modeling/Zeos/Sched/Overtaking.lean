import Zeos.Sched.Reachable
import Zeos.Sched.Turns

/-!
# Overtaking in the ready queue

The scheduler takes the first process of `readyqueue`.  Preemption, `sys_fork`
and `sys_clone` link at the back, so a process is passed by each other one at
most once; but `unblock` links at the front, and a process that was woken runs
before all that are ready.  Between the moment a process is linked and its
dispatch every other process runs at most once more than it is woken.
-/

namespace Zeos

/-- The elements of a line in front of `t`. -/
def ahead {α : Type} [DecidableEq α] (t : α) (line : List α) : List α :=
  line.takeWhile fun u => decide (u ≠ t)

section Lines

variable {α : Type} [DecidableEq α] {t u : α} {line : List α}

theorem ahead_append (member : t ∈ line) (back : List α) :
    ahead t (line ++ back) = ahead t line := by
  induction line with
  | nil => cases member
  | cons first rest inductionHypothesis =>
      unfold ahead at inductionHypothesis ⊢
      by_cases isFirst : first = t
      · simp [isFirst]
      · have later : t ∈ rest :=
          (List.mem_cons.mp member).resolve_left (Ne.symm isFirst)
        simp only [List.cons_append, List.takeWhile_cons, isFirst, ne_eq,
          not_false_eq_true, decide_true, if_true]
        rw [inductionHypothesis later]

theorem ahead_front {front : List α} (absent : t ∉ front) (line : List α) :
    ahead t (front ++ line) = front ++ ahead t line := by
  induction front with
  | nil => rfl
  | cons first rest inductionHypothesis =>
      rw [List.mem_cons, not_or] at absent
      have other : first ≠ t := Ne.symm absent.1
      have later := inductionHypothesis absent.2
      unfold ahead at later ⊢
      simp only [List.cons_append, List.takeWhile_cons, other, ne_eq,
        not_false_eq_true, decide_true, if_true]
      rw [later]

theorem mem_of_mem_ahead (member : u ∈ ahead t line) : u ∈ line :=
  (List.takeWhile_prefix _).subset member

end Lines

namespace Kernel

variable {s s' : Kernel} {event : Event} {t u : TaskId}

/-- The process waits for the keyboard or a semaphore. -/
def Waits (s : Kernel) (u : TaskId) : Prop :=
  u ∈ s.queue .keyboardqueue ∨ ∃ n, u ∈ s.queue (.semaphore n)

instance (s : Kernel) (u : TaskId) : Decidable (s.Waits u) := by
  unfold Waits
  infer_instance

/-- Whether a step ends with the dispatch of the process. -/
def dispatches (s' : Kernel) (u : TaskId) : Nat :=
  if s'.mode = .switched ∧ s'.current = u then 1 else 0

/-- Whether a step wakes the process up. -/
def wakeUps (s s' : Kernel) (u : TaskId) : Nat :=
  if s.Waits u ∧ ¬ s'.Waits u then 1 else 0

/-- How often each process was dispatched, and woken up. -/
structure Lap where
  runs : TaskId → Nat
  wakes : TaskId → Nat

/-- The observer of a process: it counts from the step that links `t` in
`readyqueue` until `t` leaves it.  The counts of a PCB begin anew with each
process that it is given to. -/
def watchReady (t : TaskId) (s : Kernel) (_ : Event) (s' : Kernel)
    (lap : Option Lap) : Option Lap :=
  if t ∈ s'.queue .readyqueue then
    if t ∈ s.queue .readyqueue then
      lap.map fun lap =>
        { runs u := if s'.live u then lap.runs u + dispatches s' u else 0
          wakes u := if s'.live u then lap.wakes u + wakeUps s s' u else 0 }
    else
      some { runs := dispatches s', wakes _ := 0 }
  else
    none

/-! ## What a step does to the ready queue -/

/-- Processes that are woken join at the front, others at the back, and the
first one may be dispatched. -/
def ReadyTurn (s s' : Kernel) : Prop :=
  ∃ front back, (∀ u ∈ front, s.Waits u ∧ ¬ s'.Waits u) ∧
    ((s'.mode = .user ∧
        s'.queue .readyqueue = front ++ s.queue .readyqueue ++ back) ∨
      (s'.mode = .switched ∧
        s'.current :: s'.queue .readyqueue =
          front ++ s.queue .readyqueue ++ back) ∨
      s.queue .readyqueue = [])

theorem not_waits (settled : s.view.Settled)
    (active : u ∈ s.queue .readyqueue ∨ u = s.current) : ¬ s.Waits u := by
  have nowhere : ∀ q, q ≠ .readyqueue → u ∉ s.queue q := by
    intro q notReady member
    rcases active with ready | rfl
    · exact notReady (settled.exclusive u q .readyqueue member ready)
    · exact settled.currentLoose q member
  rintro (reading | ⟨n, waiting⟩)
  · exact nowhere .keyboardqueue (by simp) reading
  · exact nowhere (.semaphore n) (by simp) waiting

/-- A dispatch takes the first process of the ready queue. -/
theorem dispatched_first {v : View} {context : Context}
    (view : s'.view = v.dispatch context) (some : v.queue .readyqueue ≠ []) :
    s'.current :: s'.queue .readyqueue = v.queue .readyqueue := by
  have current : s'.current = v.next := congrArg View.current view
  have queue : s'.queue .readyqueue = (v.queue .readyqueue).tail := by
    have queues := congrFun (congrArg View.queue view) Queue.readyqueue
    exact queues.trans (by simp [View.dispatch])
  rcases v.next_cases with ⟨empty, _⟩ | ⟨rest, shape⟩
  · exact absurd empty some
  · rw [current, queue, shape]
    rfl

/-- The running process goes to some queue, and the next one runs. -/
theorem ReadyTurn.switch {q : Queue} {tasks : List TaskId} {st : State}
    {context : Context}
    (view : s'.view = (s.view.place s.current q tasks st).dispatch context)
    (mode : s'.mode = .switched)
    (ready : ∃ back, (s.view.place s.current q tasks st).queue .readyqueue =
      s.queue .readyqueue ++ back) : ReadyTurn s s' := by
  obtain ⟨back, ready⟩ := ready
  refine ⟨[], back, by simp, ?_⟩
  by_cases empty : s.queue .readyqueue = []
  · exact Or.inr (Or.inr empty)
  · have first := dispatched_first view (by rw [ready]; simp [empty])
    rw [ready] at first
    exact Or.inr (Or.inl ⟨mode, first⟩)

theorem place_ready {v : View} {q : Queue} {tasks : List TaskId} {st : State}
    (other : q ≠ .readyqueue) :
    (v.place t q tasks st).queue .readyqueue = v.queue .readyqueue := by
  simp [View.place, Ne.symm other]

theorem Turn.ready (turn : Turn s event s') (after : s'.Orderly) :
    ReadyTurn s s' := by
  have queueOf : ∀ {v : View}, s'.view = v →
      s'.queue .readyqueue = v.queue .readyqueue := fun view =>
    congrFun (congrArg View.queue view) _
  have kept : s'.mode = .user →
      s'.queue .readyqueue = s.queue .readyqueue → ReadyTurn s s' := by
    intro mode same
    exact ⟨[], [], by simp, Or.inl ⟨mode, by simp [same]⟩⟩
  cases turn with
  | stays _ view _ mode => exact kept mode (queueOf view)
  | preempted _ view _ mode =>
      exact .switch view mode ⟨[s.current], View.place_queue_self⟩
  | @served _ _ w rest _ shape view _ mode =>
      have ready : (s.view.wake w .keyboardqueue).queue .readyqueue =
          w :: s.queue .readyqueue := by
        rw [View.wake_queue_ready]
        rfl
      have first := dispatched_first view (by rw [ready]; simp)
      rw [ready] at first
      have isCurrent : s'.current = w := (List.cons.inj first).1
      refine ⟨[w], [], ?_, Or.inr (Or.inl ⟨mode, by simpa using first⟩)⟩
      intro u member
      rw [List.mem_singleton.mp member]
      refine ⟨Or.inl ?_, not_waits after.settled (Or.inr isCurrent.symm)⟩
      rw [shape]
      exact List.mem_cons_self
  | asked _ _ view _ mode =>
      exact .switch view mode
        ⟨[], (place_ready (by simp)).trans (List.append_nil _).symm⟩
  | again _ _ _ view _ mode =>
      exact .switch view mode
        ⟨[], (place_ready (by simp)).trans (List.append_nil _).symm⟩
  | took _ _ _ view _ _ mode => exact kept mode (queueOf view)
  | waited _ _ _ _ view _ mode =>
      exact .switch view mode
        ⟨[], (place_ready (by simp)).trans (List.append_nil _).symm⟩
  | raised _ _ _ view _ _ mode => exact kept mode (queueOf view)
  | @woke _ n w rest _ _ _ _ shape view _ mode =>
      have ready : s'.queue .readyqueue = w :: s.queue .readyqueue := by
        rw [queueOf view, View.wake_queue_ready]
        rfl
      refine ⟨[w], [], ?_, Or.inl ⟨mode, by simp [ready]⟩⟩
      intro u member
      rw [List.mem_singleton.mp member]
      refine ⟨Or.inr ⟨n, ?_⟩, not_waits after.settled (Or.inl ?_)⟩
      · rw [shape]
        exact List.mem_cons_self
      · rw [ready]
        exact List.mem_cons_self
  | opened _ _ view _ _ mode => exact kept mode (queueOf view)
  | destroyed _ _ _ _ released _ _ mode =>
      obtain ⟨tasks, ready, members⟩ := released.woken
      have queue : s'.queue .readyqueue = tasks ++ s.queue .readyqueue := ready
      refine ⟨tasks, [], ?_, Or.inl ⟨mode, by simp [queue]⟩⟩
      intro u member
      obtain ⟨n, _, waiting⟩ := (members u).mp member
      refine ⟨Or.inr ⟨n, waiting⟩, not_waits after.settled (Or.inl ?_)⟩
      rw [queue]
      exact List.mem_append_left _ member
  | @exited v _ _ released view _ _ _ _ mode =>
      obtain ⟨tasks, ready, members⟩ := released.woken
      have queue : v.retire.queue .readyqueue =
          tasks ++ s.queue .readyqueue := by
        have same : v.retire.queue .readyqueue = v.queue .readyqueue := by
          simp [View.retire, View.place]
        exact same.trans ready
      by_cases empty : s.queue .readyqueue = []
      · exact ⟨[], [], by simp, Or.inr (Or.inr empty)⟩
      · have first := dispatched_first view (by rw [queue]; simp [empty])
        rw [queue] at first
        refine ⟨tasks, [], ?_, Or.inr (Or.inl ⟨mode, by simpa using first⟩)⟩
        intro u member
        obtain ⟨n, _, waiting⟩ := (members u).mp member
        refine ⟨Or.inr ⟨n, waiting⟩, not_waits after.settled ?_⟩
        have inFirst : u ∈ s'.current :: s'.queue .readyqueue := by
          rw [first]
          exact List.mem_append_left _ member
        exact (List.mem_cons.mp inFirst).symm
  | @created _ child _ _ _ _ view _ _ _ _ mode =>
      have created : (s.view.create child .retFromFork).queue .readyqueue =
          s.view.queue .readyqueue ++ [child] := by
        simp [View.create]
      have ready : s'.queue .readyqueue = s.queue .readyqueue ++ [child] :=
        (queueOf view).trans created
      exact ⟨[], [child], by simp, Or.inl ⟨mode, by simp [ready]⟩⟩
  | @recycled child st context _ _ _ view _ _ _ _ mode =>
      have same : (s.view.recycle child st context).queue .readyqueue =
          s.view.queue .readyqueue := by
        simp [View.recycle]
      exact kept mode ((queueOf view).trans same)

/-! ## Runs -/

/-- While `t` is ready, a process that is still in front of it may be dispatched
once more. -/
def Fair (t : TaskId) (s : Kernel) (lap : Lap) : Prop :=
  ∀ u, u ≠ t → lap.runs u +
    (if u ∈ ahead t (s.queue .readyqueue) then 1 else 0) ≤ 1 + lap.wakes u

/-- The observer of a ready process has counts, and they are fair. -/
def Followed (t : TaskId) (s : Kernel) (record : Option Lap) : Prop :=
  t ∈ s.queue .readyqueue → ∃ lap, record = some lap ∧ Fair t s lap

/-- At most one of the dispatched and the ready process is `u`. -/
theorem dispatches_add_ready (settled : s.view.Settled) (t u : TaskId) :
    dispatches s u + (if u ∈ ahead t (s.queue .readyqueue) then 1 else 0) ≤
      1 := by
  unfold dispatches
  by_cases isCurrent : s.current = u
  · have absent : u ∉ ahead t (s.queue .readyqueue) := by
      intro member
      rw [← isCurrent] at member
      exact settled.currentLoose .readyqueue (mem_of_mem_ahead member)
    rw [if_neg absent]
    split_ifs <;> omega
  · rw [if_neg fun both => isCurrent both.2]
    split_ifs <;> omega

/-- What a step counts for `u` is matched by the places it moves up. -/
theorem ReadyTurn.passes (turn : ReadyTurn s s') (settled : s.view.Settled)
    (after : s'.view.Settled) (before : t ∈ s.queue .readyqueue)
    (still : t ∈ s'.queue .readyqueue) (u : TaskId) :
    dispatches s' u + (if u ∈ ahead t (s'.queue .readyqueue) then 1 else 0) ≤
      wakeUps s s' u + if u ∈ ahead t (s.queue .readyqueue) then 1 else 0 := by
  obtain ⟨front, back, woken, moved⟩ := turn
  have absent : t ∉ front := fun inFront =>
    not_waits settled (Or.inl before) (woken t inFront).1
  have line : ahead t (front ++ s.queue .readyqueue ++ back) =
      front ++ ahead t (s.queue .readyqueue) := by
    rw [List.append_assoc, ahead_front absent, ahead_append before]
  have counted : (if u ∈ front ++ ahead t (s.queue .readyqueue) then 1 else 0) ≤
      wakeUps s s' u + if u ∈ ahead t (s.queue .readyqueue) then 1 else 0 := by
    by_cases inFront : u ∈ front
    · have one : wakeUps s s' u = 1 := if_pos (woken u inFront)
      split_ifs <;> omega
    · simp [inFront]
  rcases moved with ⟨mode, queue⟩ | ⟨_, queue⟩ | empty
  · have none : dispatches s' u = 0 := by
      apply if_neg
      rw [mode]
      exact fun both => absurd both.1 (by decide)
    rw [queue, line, none]
    omega
  · have notFirst : t ∉ [s'.current] := by
      intro isFirst
      rw [List.mem_singleton.mp isFirst] at still
      exact after.currentLoose .readyqueue still
    have moved : s'.current :: ahead t (s'.queue .readyqueue) =
        front ++ ahead t (s.queue .readyqueue) := by
      rw [← line, ← queue]
      exact (ahead_front notFirst _).symm
    rw [← moved] at counted
    by_cases isCurrent : u = s'.current
    · have once := dispatches_add_ready after t u
      rw [if_pos (by rw [isCurrent]; exact List.mem_cons_self)] at counted
      omega
    · have none : dispatches s' u = 0 :=
        if_neg fun both => isCurrent both.2.symm
      rw [none]
      simp only [List.mem_cons, isCurrent, false_or] at counted
      omega
  · rw [empty] at before
    cases before

theorem Followed.turn {record : Option Lap} (followed : Followed t s record)
    (settled : s.view.Settled) (after : s'.view.Settled)
    (turn : ReadyTurn s s') :
    Followed t s' (watchReady t s event s' record) := by
  intro still
  by_cases before : t ∈ s.queue .readyqueue
  · obtain ⟨lap, known, fair⟩ := followed before
    refine ⟨{ runs u := if s'.live u then lap.runs u + dispatches s' u else 0
              wakes u := if s'.live u then lap.wakes u + wakeUps s s' u else 0 },
      ?_, ?_⟩
    · unfold watchReady
      rw [if_pos still, if_pos before, known]
      rfl
    · intro u other
      have passes := turn.passes settled after before still u
      have earlier := fair u other
      dsimp only
      split_ifs at passes earlier ⊢ <;> omega
  · refine ⟨{ runs := dispatches s', wakes _ := 0 }, ?_, ?_⟩
    · unfold watchReady
      rw [if_pos still, if_neg before]
    · intro u _
      exact dispatches_add_ready after t u

/-- While a process is in `readyqueue`, every other process is dispatched at
most once more than it is woken up. -/
theorem bounded_overtaking {image : BootImage} {record : Option Lap}
    (run : Library.Observe step (watchReady t) (fun _ _ => True) (boot image)
      none s record) (ready : t ∈ s.queue .readyqueue) :
    ∃ lap, record = some lap ∧ ∀ u, u ≠ t → lap.runs u ≤ 1 + lap.wakes u := by
  have followed : Followed t s record := by
    refine Library.Reach.observe_invariant (Followed t) ?_
      (fun _ plain => orderly_of_reachable plain) ?_ run
    · intro atBoot
      have queue : (boot image).queue .readyqueue = [] :=
        congrFun (congrArg View.queue (boot_refines image).view) Queue.readyqueue
      rw [queue] at atBoot
      cases atBoot
    · intro before event after known orderly followed _ taken
      have orderlyAfter := orderly.step taken
      exact followed.turn orderly.settled orderlyAfter.settled
        ((turn_of_step orderly taken).ready orderlyAfter)
  obtain ⟨lap, known, fair⟩ := followed ready
  refine ⟨lap, known, fun u other => ?_⟩
  have bound := fair u other
  omega

theorem bounded_overtaking_preempted :
    let events : List Event := [.syscall .fork, .syscall .fork, .clock]
    ∃ s lap, Library.runEvents (Library.observed step (watchReady 2)) (boot sampleImage, none)
        events = some (s, some lap) ∧ ∀ u, u ≠ 2 → lap.runs u ≤ 1 + lap.wakes u := by
  intro events
  obtain ⟨⟨s, record⟩, finished, seen⟩ := (Option.any_eq_true _ _).mp
    (show (Library.runEvents (Library.observed step (watchReady 2)) (boot sampleImage, none)
      events).any (fun last => decide (2 ∈ last.1.queue .readyqueue)) = true by decide +kernel)
  obtain ⟨lap, known, fair⟩ := bounded_overtaking
    (.of_runEvents .start (fun _ _ _ => trivial) finished) (of_decide_eq_true seen)
  subst known
  exact ⟨s, lap, finished, fair⟩

/-- Two processes that wake each other in turn run as often as they like while
a third one is ready. -/
theorem overtaken_twice :
    ∃ s lap, Library.Observe step (watchReady 3) (fun _ _ => True)
        (boot sampleImage) none s (some lap) ∧
      3 ∈ s.queue .readyqueue ∧ 1 < lap.runs 1 := by
  let last := Library.lastState (Library.observed step (watchReady 3))
    (boot sampleImage, none)
    [.syscall (.semInit 3 0), .syscall .fork, .syscall (.semWait 3), .resume,
      .syscall .fork, .syscall (.semSignal 3), .syscall (.semWait 3), .resume,
      .syscall (.semSignal 3), .syscall (.semWait 3), .resume,
      .syscall (.semSignal 3), .syscall (.semWait 3)]
  have run : Library.Observe step (watchReady 3) (fun _ _ => True)
      (boot sampleImage) none last.1 last.2 :=
    Library.Reach.lastObserved fun _ _ _ => trivial
  have counted : last.2.map (fun lap => lap.runs 1) = some 2 := by
    decide +kernel
  obtain ⟨lap, known, twice⟩ := Option.map_eq_some_iff.mp counted
  rw [known] at run
  refine ⟨_, lap, run, by decide +kernel, ?_⟩
  rw [twice]
  decide

end Kernel

end Zeos
