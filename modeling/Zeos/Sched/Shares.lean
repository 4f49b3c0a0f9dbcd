import Zeos.Library.Potentials
import Zeos.Sched.Quantum

/-!
# Shares of the processor

Two processes that stay runnable get the processor in turn, whatever the others do, and each
turn is a whole quantum.  So the ticks that they get never differ by more than a quantum.
-/

namespace Zeos

namespace Kernel

variable {s s' : Kernel} {event : Event} {image : BootImage} {a b t : TaskId}

/-- The process runs or is ready. -/
def Runnable (s : Kernel) (t : TaskId) : Prop := s.current = t ∨ t ∈ s.queue .readyqueue

instance (s : Kernel) (t : TaskId) : Decidable (s.Runnable t) :=
  inferInstanceAs (Decidable (_ ∨ _))

/-- A tick of the clock while the process runs. -/
def tickOf (t : TaskId) (s : Kernel) (event : Event) (_ : Kernel) : Nat :=
  if event = .clock ∧ s.current = t then 1 else 0

/-- The ticks that a process gets in a run. -/
def share (t : TaskId) (s : Kernel) (events : List Event) : Nat :=
  Library.total step (tickOf t) s events

/-- What `a` has had of a round in which `a` comes before `b`: nothing while it is still in
front of `b`, and a whole quantum when `b` is in front. -/
def lead (a b : TaskId) (s : Kernel) : Nat :=
  if s.current = a then defaultQuantum.toNat - (s.remaining a).toNat
  else if s.current = b then (s.remaining b).toNat
  else if b ∈ ahead a (s.queue .readyqueue) then defaultQuantum.toNat
  else 0

theorem Sliced.le_quantum (sliced : s.Sliced) :
    (s.remaining s.current).toNat ≤ defaultQuantum.toNat :=
  (Int.le_toNat (by decide)).mpr sliced.within

theorem lead_le (sliced : s.Sliced) (a b : TaskId) : lead a b s ≤ defaultQuantum.toNat := by
  have most := sliced.le_quantum
  unfold lead
  split_ifs with isA isB
  · exact Nat.sub_le _ _
  · rwa [← isB]
  · exact le_refl _
  · exact Nat.zero_le _

/-! ## Lines -/

theorem ahead_cons_self (t : TaskId) (line : List TaskId) : ahead t (t :: line) = [] := by
  simp [ahead]

theorem ahead_cons_of_ne {first : TaskId} (other : first ≠ t) (line : List TaskId) :
    ahead t (first :: line) = first :: ahead t line := by
  simp [ahead, other]

/-- Of two in a line one is in front of the other. -/
theorem mem_ahead_iff_not (different : a ≠ b) {line : List TaskId} (first : a ∈ line)
    (second : b ∈ line) : b ∈ ahead a line ↔ a ∉ ahead b line := by
  induction line with
  | nil => cases first
  | cons head rest inductionHypothesis =>
      by_cases isA : head = a
      · rw [isA, ahead_cons_self, ahead_cons_of_ne different]
        simp
      · by_cases isB : head = b
        · rw [isB, ahead_cons_self, ahead_cons_of_ne (Ne.symm different)]
          simp
        · have later := inductionHypothesis ((List.mem_cons.mp first).resolve_left (Ne.symm isA))
            ((List.mem_cons.mp second).resolve_left (Ne.symm isB))
          rw [ahead_cons_of_ne isA, ahead_cons_of_ne isB, List.mem_cons, List.mem_cons,
            or_iff_right (Ne.symm isB), or_iff_right (Ne.symm isA)]
          exact later

/-! ## Rounds -/

/-- In a round one process has what the other one has not had. -/
theorem lead_symm (sliced : s.Sliced) (different : a ≠ b) (first : s.Runnable a)
    (second : s.Runnable b) : lead a b s + lead b a s = defaultQuantum.toNat := by
  have most := sliced.le_quantum
  unfold lead
  by_cases isA : s.current = a
  · have notB : s.current ≠ b := fun isB => different (isA.symm.trans isB)
    rw [if_pos isA, if_neg notB, if_pos isA, ← isA]
    omega
  · by_cases isB : s.current = b
    · rw [if_neg isA, if_pos isB, if_pos isB, ← isB]
      omega
    · have order := mem_ahead_iff_not different (first.resolve_left isA) (second.resolve_left isB)
      rw [if_neg isA, if_neg isB, if_neg isB, if_neg isA]
      by_cases inFront : b ∈ ahead a (s.queue .readyqueue)
      · rw [if_pos inFront, if_neg (order.mp inFront), Nat.add_zero]
      · rw [if_neg inFront, if_pos (not_not.mp (order.not.mp inFront)), Nat.zero_add]

/-- A dispatch grants a whole quantum. -/
theorem SliceTurn.renewed (turn : SliceTurn s event s') (after : s'.Sliced)
    (live : s'.live s'.current = true) (mode : s'.mode = .switched) :
    (s'.remaining s'.current).toNat = defaultQuantum.toNat := by
  have granted : (s'.getQuantum s'.current).toNat = defaultQuantum.toNat := by
    rw [← getQuantum_toNat (after.granted s'.current live), Int.toNat_natCast]
  cases turn with
  | goesOn _ _ _ user =>
      rw [user] at mode
      cases mode
  | ticks _ user =>
      rw [user] at mode
      cases mode
  | preempted _ _ handsOver _ _ => rw [handsOver.renewed, granted]
  | yields _ _ handsOver _ _ => rw [handsOver.renewed, granted]
  | starts _ user =>
      rw [user] at mode
      cases mode

/-- A dispatch adds nobody to the ready queue. -/
theorem mem_of_dispatched {v : View} {context : Context} (view : s'.view = v.dispatch context)
    (member : t ∈ s'.queue .readyqueue) : t ∈ v.queue .readyqueue := by
  have queue : s'.queue .readyqueue = (v.queue .readyqueue).tail := by
    have queues := congrFun (congrArg View.queue view) Queue.readyqueue
    exact queues.trans (by simp [View.dispatch])
  rw [queue] at member
  exact List.mem_of_mem_tail member

/-- Only the clock takes the processor away from a process that stays ready, which then is
behind all the others. -/
theorem Turn.requeued (turn : Turn s event s') (orderly : s.Orderly)
    (mode : s'.mode = .switched) (still : s.current ∈ s'.queue .readyqueue) :
    event = .clock ∧
      s'.current :: s'.queue .readyqueue = s.queue .readyqueue ++ [s.current] := by
  have loose := orderly.settled.currentLoose
  have user : s'.mode = .user → event = .clock ∧
      s'.current :: s'.queue .readyqueue = s.queue .readyqueue ++ [s.current] := by
    intro user
    rw [mode] at user
    cases user
  have away : ∀ {q : Queue} {tasks : List TaskId} {st : State} {context : Context},
      s'.view = (s.view.place s.current q tasks st).dispatch context → q ≠ .readyqueue →
        event = .clock ∧
          s'.current :: s'.queue .readyqueue = s.queue .readyqueue ++ [s.current] := by
    intro q tasks st context view other
    have member := mem_of_dispatched view still
    rw [place_ready other] at member
    exact absurd member (loose .readyqueue)
  cases turn with
  | stays _ _ _ mode' => exact user mode'
  | preempted _ view _ _ =>
      have line : (s.view.place s.view.current .readyqueue
          (s.view.queue .readyqueue ++ [s.view.current]) .stReady).queue .readyqueue =
            s.queue .readyqueue ++ [s.current] := View.place_queue_self
      refine ⟨rfl, (dispatched_first view ?_).trans line⟩
      rw [line]
      simp
  | @served _ _ w rest _ shape view _ _ =>
      have ready : (s.view.wake w .keyboardqueue).queue .readyqueue =
          w :: s.queue .readyqueue := by
        rw [View.wake_queue_ready]
        rfl
      have member := mem_of_dispatched view still
      rw [ready, List.mem_cons] at member
      rcases member with isFirst | inReady
      · have waiting : s.current ∈ s.view.queue .keyboardqueue := by
          change s.current ∈ s.queue .keyboardqueue
          rw [shape, isFirst]
          exact List.mem_cons_self
        exact absurd waiting (loose .keyboardqueue)
      · exact absurd inReady (loose .readyqueue)
  | asked _ _ view _ _ => exact away view (by simp)
  | again _ _ _ view _ _ => exact away view (by simp)
  | took _ _ _ _ _ _ mode' => exact user mode'
  | waited _ _ _ _ view _ _ => exact away view (by simp)
  | raised _ _ _ _ _ _ mode' => exact user mode'
  | woke _ _ _ _ _ _ mode' => exact user mode'
  | opened _ _ _ _ _ mode' => exact user mode'
  | destroyed _ _ _ _ _ _ _ mode' => exact user mode'
  | @exited v _ _ released view _ _ _ _ _ =>
      obtain ⟨tasks, ready, members⟩ := released.woken
      have member := mem_of_dispatched view still
      have same : v.retire.queue .readyqueue = v.queue .readyqueue := by
        simp [View.retire, View.place]
      rw [same, ready, List.mem_append] at member
      rcases member with woken | inReady
      · obtain ⟨n, _, waiting⟩ := (members s.current).mp woken
        exact absurd waiting (loose (.semaphore n))
      · exact absurd inReady (loose .readyqueue)
  | created _ _ _ _ _ _ _ _ mode' => exact user mode'
  | recycled _ _ _ _ _ _ _ mode' => exact user mode'

/-- While `a` runs, its ticks are what it gains. -/
theorem lead_running (reachable : Reachable image s) (taken : s.step event = some s')
    (different : a ≠ b) (running : s.current = a) (second : s.Runnable b)
    (after : s'.Runnable a) :
    lead a b s' + tickOf b s event s' = lead a b s + tickOf a s event s' := by
  have orderly := orderly_of_reachable reachable
  have orderlyAfter := orderly.step taken
  have sliced := sliced_of_reachable reachable
  have slicedAfter := sliced_of_reachable (reachable.step trivial taken)
  have slice := slice_of_step orderly taken
  have turn := turn_of_step orderly taken
  have notB : s.current ≠ b := fun isB => different (running.symm.trans isB)
  have ready : b ∈ s.queue .readyqueue := second.resolve_left notB
  have busy : s.queue .readyqueue ≠ [] := List.ne_nil_of_mem ready
  have most := sliced.le_quantum
  have none : tickOf b s event s' = 0 := if_neg fun both => notB both.2
  have before : lead a b s = defaultQuantum.toNat - (s.remaining s.current).toNat := by
    unfold lead
    rw [if_pos running, running]
  rw [none, before]
  by_cases mode : s'.mode = .switched
  · have replaced := (turn.ready orderlyAfter).replaced orderly.settled busy mode
    have still : s.current ∈ s'.queue .readyqueue := by
      rw [running]
      exact after.resolve_left fun same => replaced (same.trans running.symm)
    obtain ⟨isClock, line⟩ := turn.requeued orderly mode still
    have tick : tickOf a s event s' = 1 := if_pos ⟨isClock, running⟩
    have last : s.remaining s.current = 1 := by
      cases slice with
      | goesOn notClock _ _ _ => exact absurd isClock notClock
      | ticks _ user =>
          rw [user] at mode
          cases mode
      | preempted last _ _ _ _ => exact last
      | yields notClock _ _ _ _ => exact absurd isClock notClock
      | starts _ user => cases isClock
    have whole : lead a b s' = defaultQuantum.toNat := by
      unfold lead
      rw [if_neg (running ▸ replaced)]
      by_cases isB : s'.current = b
      · rw [if_pos isB, ← isB]
        exact slice.renewed slicedAfter orderlyAfter.settled.currentLive mode
      · rw [if_neg isB]
        refine if_pos ?_
        -- everybody who was ready is in front of `a`, and the first of them runs
        have absent : a ∉ s.queue .readyqueue :=
          running ▸ orderly.settled.currentLoose .readyqueue
        have inFront : ahead a (s'.current :: s'.queue .readyqueue) = s.queue .readyqueue := by
          rw [line, running, ahead_front absent, ahead_cons_self, List.append_nil]
        rw [ahead_cons_of_ne (running ▸ replaced)] at inFront
        rw [← inFront, List.mem_cons] at ready
        exact ready.resolve_left (Ne.symm isB)
    rw [whole, tick, last]
    rfl
  · obtain ⟨current, countdown⟩ := slice.countdown sliced busy mode
    have tick : tickOf a s event s' = List.count Event.clock [event] := by
      unfold tickOf
      by_cases isClock : event = .clock
      · rw [if_pos ⟨isClock, running⟩, isClock]
        rfl
      · rw [if_neg fun both => isClock both.1, List.count_singleton,
          beq_eq_false_iff_ne.mpr isClock]
        rfl
    have later : lead a b s' = defaultQuantum.toNat - (s'.remaining s.current).toNat := by
      unfold lead
      rw [if_pos (current.trans running), running]
    rw [later, tick]
    omega

/-- While others run, neither gains. -/
theorem lead_waiting (reachable : Reachable image s) (taken : s.step event = some s')
    (notA : s.current ≠ a) (notB : s.current ≠ b)
    (first : a ∈ s.queue .readyqueue) (second : b ∈ s.queue .readyqueue) :
    lead a b s' = lead a b s := by
  have orderly := orderly_of_reachable reachable
  have orderlyAfter := orderly.step taken
  have slicedAfter := sliced_of_reachable (reachable.step trivial taken)
  have slice := slice_of_step orderly taken
  have busy : s.queue .readyqueue ≠ [] := List.ne_nil_of_mem first
  have before : lead a b s =
      if b ∈ ahead a (s.queue .readyqueue) then defaultQuantum.toNat else 0 := by
    unfold lead
    rw [if_neg notA, if_neg notB]
  rw [before]
  obtain ⟨front, back, woken, moved⟩ := (turn_of_step orderly taken).ready orderlyAfter
  have absent : ∀ {t : TaskId}, t ∈ s.queue .readyqueue → t ∉ front := by
    intro t ready inFront
    exact not_waits orderly.settled (Or.inl ready) (woken t inFront).1
  have line : ahead a (front ++ s.queue .readyqueue ++ back) =
      front ++ ahead a (s.queue .readyqueue) := by
    rw [List.append_assoc, ahead_front (absent first), ahead_append first]
  have order : b ∈ ahead a (front ++ s.queue .readyqueue ++ back) ↔
      b ∈ ahead a (s.queue .readyqueue) := by
    rw [line, List.mem_append, or_iff_right (absent second)]
  rcases moved with ⟨user, queue⟩ | ⟨mode, queue⟩ | empty
  · have current := (slice.countdown (sliced_of_reachable reachable) busy
      (by rw [user]; decide)).1
    unfold lead
    rw [current, if_neg notA, if_neg notB, queue]
    exact if_congr order rfl rfl
  · have whole := slice.renewed slicedAfter orderlyAfter.settled.currentLive mode
    rw [← queue] at order
    unfold lead
    by_cases isA : s'.current = a
    · rw [isA, ahead_cons_self] at order
      rw [if_pos isA, if_neg (order.not.mp List.not_mem_nil), ← isA, whole, Nat.sub_self]
    · rw [ahead_cons_of_ne isA, List.mem_cons] at order
      by_cases isB : s'.current = b
      · rw [if_neg isA, if_pos isB, if_pos (order.mp (Or.inl isB.symm)), ← isB, whole]
      · rw [or_iff_right (Ne.symm isB)] at order
        rw [if_neg isA, if_neg isB]
        exact if_congr order rfl rfl
  · exact absurd empty busy

/-- The ticks of the two processes are what one of them gains in the round. -/
theorem lead_step (reachable : Reachable image s) (taken : s.step event = some s')
    (different : a ≠ b) (before : s.Runnable a ∧ s.Runnable b)
    (after : s'.Runnable a ∧ s'.Runnable b) :
    lead a b s' + tickOf b s event s' = lead a b s + tickOf a s event s' := by
  by_cases isA : s.current = a
  · exact lead_running reachable taken different isA before.2 after.1
  by_cases isB : s.current = b
  · have gained := lead_running reachable taken (Ne.symm different) isB before.1 after.2
    have symm := lead_symm (sliced_of_reachable reachable) different before.1 before.2
    have symmAfter := lead_symm (sliced_of_reachable (reachable.step trivial taken)) different
      after.1 after.2
    omega
  · have noneA : tickOf a s event s' = 0 := if_neg fun both => isA both.2
    have noneB : tickOf b s event s' = 0 := if_neg fun both => isB both.2
    rw [noneA, noneB, lead_waiting reachable taken isA isB
      (before.1.resolve_left isA) (before.2.resolve_left isB)]

/-- In every run in which two processes stay runnable, the ticks that they get differ by what
one of them gains in the last round over the first, which is never more than a quantum. -/
theorem shares_fair (reachable : Reachable image s) (different : a ≠ b) {events : List Event}
    {last : Kernel} (run : Library.runEvents step s events = some last)
    (runnable : Library.Lasts step (fun s => s.Runnable a ∧ s.Runnable b) s events) :
    lead a b last + share b s events = lead a b s + share a s events ∧
      share a s events ≤ share b s events + defaultQuantum.toNat ∧
      share b s events ≤ share a s events + defaultQuantum.toNat := by
  have keeps : ∀ {s : Kernel} {event : Event} {s' : Kernel}, Reachable image s →
      s.step event = some s' → Reachable image s' := fun reached taken =>
    reached.step trivial taken
  have exactly : ∀ {s : Kernel} {event : Event} {s' : Kernel}, Reachable image s →
      s.Runnable a ∧ s.Runnable b → s.step event = some s' → s'.Runnable a ∧ s'.Runnable b →
        lead a b s' + tickOf b s event s' = lead a b s + tickOf a s event s' :=
    fun reached before taken after => lead_step reached taken different before after
  have balance : lead a b last + share b s events = lead a b s + share a s events :=
    Library.balances keeps exactly reachable runnable run
  have reachableLast : Reachable image last :=
    Library.Reach.of_runEvents reachable (fun _ _ _ => trivial) run
  have most := lead_le (sliced_of_reachable reachable) a b
  have mostLast := lead_le (sliced_of_reachable reachableLast) a b
  exact ⟨balance, by omega, by omega⟩

/-- A process and its child in two rounds, with a third process from the second one on. -/
theorem shares_fair_forked :
    let s := Library.lastState step (boot sampleImage) [.syscall .fork]
    let events : List Event := List.replicate 10 .clock ++ [.resume, .syscall .fork] ++
      List.replicate 10 .clock ++ [.resume] ++ List.replicate 3 .clock
    ∃ last, Library.runEvents step s events = some last ∧
      share 1 s events = 13 ∧ share 2 s events = 10 ∧
      lead 1 2 last + share 2 s events = lead 1 2 s + share 1 s events ∧
      share 1 s events ≤ share 2 s events + defaultQuantum.toNat ∧
      share 2 s events ≤ share 1 s events + defaultQuantum.toNat := by
  intro s events
  have finished : (Library.runEvents step s events).isSome = true := by decide +kernel
  obtain ⟨last, run⟩ := Option.isSome_iff_exists.mp finished
  have reachable : Reachable sampleImage s := Library.Reach.lastState fun _ _ _ => trivial
  have runnable : Library.Lasts step (fun s => s.Runnable 1 ∧ s.Runnable 2) s events := by
    decide +kernel
  exact ⟨last, run, by decide +kernel, by decide +kernel,
    shares_fair reachable (by decide) run runnable⟩

end Kernel

end Zeos
