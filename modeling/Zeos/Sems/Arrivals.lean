import Zeos.Sched.Overtaking
import Zeos.Sems.Slots

/-!
# The order in which waiters resume

A semaphore's queue is filled at the tail and emptied from the front, but `unblock`
links at the head of `readyqueue`.  Of two waiters the first one resumes first as
long as it is dispatched before the second one is taken off the queue; two waiters
that are both taken off change places.
-/

namespace Zeos

/-- A process that runs first, before those behind it. -/
theorem View.sublist_dispatch (v : View) :
    List.Sublist (v.queue .readyqueue) (v.next :: (v.queue .readyqueue).tail) := by
  rcases v.next_cases with ⟨empty, -⟩ | ⟨rest, shape⟩
  · rw [empty]
    exact List.nil_sublist _
  · rw [shape]
    exact List.Sublist.refl _

namespace Kernel

variable {s s' : Kernel} {event : Event} {t u : TaskId} {n : SemId} {image : BootImage}

/-- The processes that will run, the next one first; the dispatched process is the
first of them until it goes on. -/
def line (s : Kernel) : List TaskId :=
  if s.mode = .switched then s.current :: s.queue .readyqueue else s.queue .readyqueue

/-- Both are blocked on one semaphore, and `t` came first. -/
def Together (t u : TaskId) (s : Kernel) : Prop :=
  ∃ n, List.Sublist [t, u] (s.queue (.semaphore n))

instance (t u : TaskId) (s : Kernel) : Decidable (Together t u s) := by
  unfold Together
  infer_instance

/-- The process is blocked on a semaphore. -/
def OnSemaphore (u : TaskId) (s : Kernel) : Prop :=
  ∃ n, u ∈ s.queue (.semaphore n)

instance (u : TaskId) (s : Kernel) : Decidable (OnSemaphore u s) := by
  unfold OnSemaphore
  infer_instance

/-- The observer of two processes.  From the moment when both are blocked on one
semaphore, `t` before `u`, until one of them is dispatched and goes on, it knows
whether `u` was taken off the queue. -/
def watchPair (t u : TaskId) (s : Kernel) (_ : Event) (s' : Kernel)
    (record : Option Bool) : Option Bool :=
  if Together t u s' then some false
  else if s.current = t ∨ s.current = u then none
  else record.map fun released => released || decide (¬ OnSemaphore u s')

/-! ## What a step does to the waiters of one semaphore -/

/-- Processes leave the queue at its front and join it at its end; those that leave
it are in line, the last one first, before those that were ready. -/
def LineTurn (s : Kernel) (n : SemId) (s' : Kernel) : Prop :=
  ∃ woken kept joined, s.queue (.semaphore n) = woken ++ kept ∧
    s'.queue (.semaphore n) = kept ++ joined ∧
    List.Sublist (woken.reverse ++ s.queue .readyqueue) s'.line

/-- Nobody leaves the queue. -/
theorem LineTurn.stayed {joined : List TaskId}
    (queue : s'.queue (.semaphore n) = s.queue (.semaphore n) ++ joined)
    (ready : List.Sublist (s.queue .readyqueue) s'.line) : LineTurn s n s' :=
  ⟨[], s.queue (.semaphore n), joined, rfl, queue, ready⟩

theorem line_returned (mode : s'.mode = .user) : s'.line = s'.queue .readyqueue :=
  if_neg (by rw [mode]; decide)

/-- After a dispatch the line holds what was ready before it. -/
theorem line_dispatched {v : View} {context : Context} (view : s'.view = v.dispatch context)
    (mode : s'.mode = .switched) : List.Sublist (v.queue .readyqueue) s'.line := by
  have current : s'.current = v.next := congrArg View.current view
  have queue : s'.queue .readyqueue = (v.queue .readyqueue).tail :=
    (congrFun (congrArg View.queue view) Queue.readyqueue).trans (by simp [View.dispatch])
  unfold line
  rw [if_pos mode, current, queue]
  exact v.sublist_dispatch

theorem ReadyTurn.line (turn : ReadyTurn s s') :
    List.Sublist (s.queue .readyqueue) s'.line := by
  obtain ⟨front, back, -, moved⟩ := turn
  have inside : List.Sublist (s.queue .readyqueue)
      (front ++ s.queue .readyqueue ++ back) :=
    (List.sublist_append_right _ _).trans (List.sublist_append_left _ _)
  unfold Kernel.line
  rcases moved with ⟨mode, queue⟩ | ⟨mode, queue⟩ | empty
  · rw [if_neg (by rw [mode]; decide), queue]
    exact inside
  · rw [if_pos mode, queue]
    exact inside
  · rw [empty]
    exact List.nil_sublist _

/-- Every step is such a turn for each semaphore. -/
theorem Turn.line (turn : Turn s event s') (after : s'.Orderly) (n : SemId) :
    LineTurn s n s' := by
  have ready := (turn.ready after).line
  have stayed : s'.queue (.semaphore n) = s.queue (.semaphore n) → LineTurn s n s' :=
    fun same => .stayed (same.trans (List.append_nil _).symm) ready
  have queueOf : ∀ {v : View}, s'.view = v →
      s'.queue (.semaphore n) = v.queue (.semaphore n) := fun view =>
    congrFun (congrArg View.queue view) _
  cases turn with
  | stays _ view _ _ => exact stayed (queueOf view)
  | preempted _ view _ _ =>
      apply stayed
      rw [queueOf view, View.yield_semaphore, if_neg (by simp)]
      rfl
  | served _ view _ _ => exact stayed ((queueOf view).trans View.serve_semaphore)
  | asked _ _ view _ _ =>
      apply stayed
      rw [queueOf view, View.arrive, View.yield_semaphore, if_neg (by simp)]
      rfl
  | again _ _ _ view _ _ => exact stayed ((queueOf view).trans View.comeBack_semaphore)
  | took _ _ _ view _ _ _ => exact stayed (queueOf view)
  | @waited _ m _ _ _ _ _ view _ _ =>
      have queue := queueOf view
      rw [View.yield_semaphore] at queue
      split_ifs at queue
      · exact .stayed queue ready
      · exact stayed queue
  | raised _ _ _ view _ _ _ => exact stayed (queueOf view)
  | @woke nSem m w rest _ _ _ _ shape view _ mode =>
      by_cases same : n = m
      · subst same
        have before : s.view.queue (.semaphore n) = w :: rest := shape
        have left : s'.queue (.semaphore n) = rest := by
          rw [queueOf view, View.wake_semaphore, if_pos rfl, before, List.erase_cons_head]
        have front : s'.queue .readyqueue = w :: s.queue .readyqueue := by
          rw [show s'.queue .readyqueue = (s.view.wake w (.semaphore n)).queue .readyqueue
            from congrFun (congrArg View.queue view) _, View.wake_queue_ready]
          rfl
        refine ⟨[w], rest, [], shape, by rw [left, List.append_nil], ?_⟩
        rw [line_returned mode, front]
        exact List.Sublist.refl _
      · apply stayed
        rw [queueOf view, View.wake_semaphore, if_neg same]
        rfl
  | opened _ _ view _ _ _ => exact stayed (queueOf view)
  | @destroyed _ m _ _ _ _ _ released _ _ mode =>
      by_cases same : n = m
      · refine ⟨s.queue (.semaphore n), [], [], (List.append_nil _).symm,
          released.emptied n same, ?_⟩
        rw [line_returned mode]
        exact released.reversed n same
      · apply stayed
        apply released.others _ (by simp)
        rintro k rfl isSame
        cases isSame
        exact same rfl
  | @exited v _ _ released view _ _ _ _ mode =>
      have queue : s'.queue (.semaphore n) = v.queue (.semaphore n) := by
        have dispatched := queueOf view
        rw [View.dispatch_semaphore, View.retire_semaphore] at dispatched
        exact dispatched
      have retired : v.retire.queue .readyqueue = v.queue .readyqueue := by
        simp [View.retire, View.place]
      by_cases owned : s.Owned n
      · refine ⟨s.queue (.semaphore n), [], [], (List.append_nil _).symm,
          queue.trans (released.emptied n owned), ?_⟩
        have order := line_dispatched view mode
        rw [retired] at order
        exact (released.reversed n owned).trans order
      · apply stayed
        rw [queue, released.others _ (by simp)]
        · rfl
        · rintro k isOwned isSame
          cases isSame
          exact owned isOwned
  | created _ _ _ view _ _ _ _ _ =>
      exact stayed ((queueOf view).trans View.create_semaphore)
  | recycled _ _ view _ _ _ _ _ =>
      exact stayed ((queueOf view).trans View.recycle_semaphore)

/-! ## Every run -/

/-- Where the two processes are, for the observer. -/
def Paired (t u : TaskId) (s : Kernel) : Option Bool → Prop
  | none => True
  | some false => Together t u s ∨ (t ∈ s.line ∧ OnSemaphore u s)
  | some true => List.Sublist [u, t] s.line

/-- Who is in line and does not run is ready. -/
theorem ready_of_line {waiting : List TaskId} (line : List.Sublist waiting s.line)
    (away : s.current ∉ waiting) : List.Sublist waiting (s.queue .readyqueue) := by
  unfold Kernel.line at line
  split_ifs at line
  · rcases List.sublist_cons_iff.mp line with behind | ⟨rest, shape, -⟩
    · exact behind
    · rw [shape] at away
      exact absurd List.mem_cons_self away
  · exact line

/-- The two were blocked on one semaphore before the step. -/
theorem LineTurn.together (turn : LineTurn s n s')
    (both : List.Sublist [t, u] (s.queue (.semaphore n))) :
    Together t u s' ∨ (t ∈ s'.line ∧ OnSemaphore u s') ∨ List.Sublist [u, t] s'.line := by
  obtain ⟨woken, kept, joined, before, after, line⟩ := turn
  have inLine : List.Sublist woken.reverse s'.line :=
    (List.sublist_append_left _ _).trans line
  have inQueue : List.Sublist kept (s'.queue (.semaphore n)) := by
    rw [after]
    exact List.sublist_append_left _ _
  rw [before] at both
  obtain ⟨first, second, shape, left, stay⟩ := List.sublist_append_iff.mp both
  match first, shape with
  | [], shape =>
      rw [List.nil_append] at shape
      rw [← shape] at stay
      exact Or.inl ⟨n, stay.trans inQueue⟩
  | [w], shape =>
      obtain ⟨rfl, rfl⟩ : t = w ∧ second = [u] := by simpa [eq_comm] using shape
      refine Or.inr (Or.inl ⟨?_, n, ?_⟩)
      · exact inLine.subset (List.mem_reverse.mpr (left.subset List.mem_cons_self))
      · exact inQueue.subset (stay.subset List.mem_cons_self)
  | [w, x], shape =>
      obtain ⟨rfl, rfl, -⟩ : t = w ∧ u = x ∧ second = [] := by
        simpa [eq_comm] using shape
      exact Or.inr (Or.inr (left.reverse.trans inLine))
  | w :: x :: y :: rest, shape => simp at shape

/-- The first of the two is in line, and the second one was blocked. -/
theorem LineTurn.behind (turn : LineTurn s n s') (first : t ∈ s.queue .readyqueue)
    (second : u ∈ s.queue (.semaphore n)) :
    OnSemaphore u s' ∨ List.Sublist [u, t] s'.line := by
  obtain ⟨woken, kept, joined, before, after, line⟩ := turn
  rw [before, List.mem_append] at second
  rcases second with left | stays
  · have woken : List.Sublist [u] woken.reverse :=
      List.singleton_sublist.mpr (List.mem_reverse.mpr left)
    have ready : List.Sublist [t] (s.queue .readyqueue) := List.singleton_sublist.mpr first
    exact Or.inr ((woken.append ready).trans line)
  · refine Or.inl ⟨n, ?_⟩
    rw [after]
    exact List.mem_append_left _ stays

theorem Paired.turn {record : Option Bool} (paired : Paired t u s record)
    (after : s'.Orderly) (turn : Turn s event s') :
    Paired t u s' (watchPair t u s event s' record) := by
  unfold watchPair
  split_ifs with together current
  · exact Or.inl together
  · trivial
  · obtain ⟨notFirst, notSecond⟩ := not_or.mp current
    match record, paired with
    | none, _ => trivial
    | some true, inLine =>
        have away : s.current ∉ [u, t] := by simp [notFirst, notSecond]
        exact (ready_of_line inLine away).trans (turn.ready after).line
    | some false, paired =>
        have outcome : (t ∈ s'.line ∧ OnSemaphore u s') ∨ List.Sublist [u, t] s'.line := by
          rcases paired with ⟨n, both⟩ | ⟨first, n, second⟩
          · exact ((turn.line after n).together both).resolve_left together
          · have away : s.current ∉ [t] := by simpa using notFirst
            have ready : t ∈ s.queue .readyqueue := List.singleton_sublist.mp
              (ready_of_line (List.singleton_sublist.mpr first) away)
            have still : t ∈ s'.line := (turn.ready after).line.subset ready
            rcases (turn.line after n).behind ready second with blocked | order
            · exact Or.inl ⟨still, blocked⟩
            · exact Or.inr order
        by_cases blocked : OnSemaphore u s'
        · have inLine : t ∈ s'.line := by
            rcases outcome with ⟨inLine, -⟩ | order
            · exact inLine
            · exact order.subset (by simp)
          have same : Option.map (fun released => released || decide (¬ OnSemaphore u s'))
              (some false) = some false := by simp [blocked]
          rw [same]
          exact Or.inr ⟨inLine, blocked⟩
        · have same : Option.map (fun released => released || decide (¬ OnSemaphore u s'))
              (some false) = some true := by simp [blocked]
          rw [same]
          exact outcome.resolve_left fun both => blocked both.2

/-- Of two processes that were blocked on one semaphore, `t` before `u`, the first
to be dispatched is `t` if `u` is still blocked then, and `u` if `u` was taken off
the queue before. -/
theorem waiters_in_order {released : Bool}
    (run : Library.Observe step (watchPair t u) (fun _ _ => True) (boot image) none s
      (some released))
    (dispatched : s.current = t ∨ s.current = u) : s.current = t ↔ released = false := by
  have paired : Paired t u s (some released) := by
    have nothing : Paired t u (boot image) none := trivial
    refine Library.Reach.observe_invariant (Paired t u) nothing
      (fun _ plain => orderly_of_reachable plain) ?_ run
    intro before event after record orderly known _ taken
    exact known.turn (orderly.step taken) (turn_of_step orderly taken)
  have orderly := orderly_of_reachable (Library.Reach.unobserved run)
  have loose := orderly.settled.currentLoose
  cases released with
  | false =>
      have notSecond : s.current ≠ u := by
        intro isSecond
        have blocked : OnSemaphore s.current s := by
          rw [isSecond]
          rcases paired with ⟨n, both⟩ | ⟨-, blocked⟩
          · exact ⟨n, both.subset (by simp)⟩
          · exact blocked
        obtain ⟨n, member⟩ := blocked
        exact loose (.semaphore n) member
      exact iff_of_true (dispatched.resolve_right notSecond) rfl
  | true =>
      refine iff_of_false ?_ (by decide)
      intro isFirst
      have ready : t ∈ s.queue .readyqueue := by
        have order : List.Sublist [u, t] s.line := paired
        unfold Kernel.line at order
        split_ifs at order
        · rcases List.sublist_cons_iff.mp order with behind | ⟨rest, shape, behind⟩
          · exact behind.subset (by simp)
          · obtain ⟨-, rfl⟩ := List.cons.inj shape
            exact behind.subset List.mem_cons_self
        · exact order.subset (by simp)
      rw [← isFirst] at ready
      exact loose .readyqueue ready

/-- Two children wait for their parent's semaphore, and the parent goes on. -/
def childrenWait : List Event :=
  [.syscall (.semInit 3 0), .syscall .fork, .syscall .fork,
    .syscall (.read 0 0x10A000 1), .resume, .syscall (.semWait 3), .resume,
    .syscall (.semWait 3), .resume, .keyboard 0x9E 0, .resume]

/-- The parent signals once and then waits for a key. -/
theorem waiters_in_order_signalled :
    let last := Library.lastState (Library.observed step (watchPair 2 3))
      (boot sampleImage, none)
      (childrenWait ++ [.syscall (.semSignal 3), .syscall (.read 0 0x10A000 1)])
    last.2 = some false ∧ last.1.current = 2 := by
  intro last
  have known : last.2 = some false := by decide +kernel
  have dispatched : last.1.current = 2 ∨ last.1.current = 3 := by decide +kernel
  have run : Library.Observe step (watchPair 2 3) (fun _ _ => True) (boot sampleImage) none
      last.1 last.2 := Library.Reach.lastObserved fun _ _ _ => trivial
  rw [known] at run
  exact ⟨known, (waiters_in_order run dispatched).mpr rfl⟩

/-- The parent makes some calls and then waits for a key. -/
def afterCalls (calls : List Event) : Kernel × Option Bool :=
  Library.lastState (Library.observed step (watchPair 2 3)) (boot sampleImage, none)
    (childrenWait ++ calls ++ [.syscall (.read 0 0x10A000 1)])

/-- After two signals, or when the parent destroys the semaphore, the child that
came last runs first. -/
theorem last_waiter_first :
    (Library.Observe step (watchPair 2 3) (fun _ _ => True) (boot sampleImage) none
        (afterCalls [.syscall (.semSignal 3), .syscall (.semSignal 3)]).1 (some true) ∧
      (afterCalls [.syscall (.semSignal 3), .syscall (.semSignal 3)]).1.current = 3) ∧
    (Library.Observe step (watchPair 2 3) (fun _ _ => True) (boot sampleImage) none
        (afterCalls [.syscall (.semDestroy 3)]).1 (some true) ∧
      (afterCalls [.syscall (.semDestroy 3)]).1.current = 3) := by
  have run : ∀ calls, Library.Observe step (watchPair 2 3) (fun _ _ => True)
      (boot sampleImage) none (afterCalls calls).1 (afterCalls calls).2 := fun _ =>
    Library.Reach.lastObserved fun _ _ _ => trivial
  have signalled := run [.syscall (.semSignal 3), .syscall (.semSignal 3)]
  have destroyed := run [.syscall (.semDestroy 3)]
  rw [show (afterCalls [.syscall (.semSignal 3), .syscall (.semSignal 3)]).2 = some true by
    decide +kernel] at signalled
  rw [show (afterCalls [.syscall (.semDestroy 3)]).2 = some true by decide +kernel]
    at destroyed
  exact ⟨⟨signalled, by decide +kernel⟩, destroyed, by decide +kernel⟩

end Kernel

end Zeos
