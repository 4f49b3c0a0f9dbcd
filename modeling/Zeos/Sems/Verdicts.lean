import Zeos.Sched.Reachable
import Zeos.Sems.Slots

/-!
# How a wait ends

A process that was taken off a semaphore's queue learns only when it runs
again whether it was granted the semaphore or the semaphore was destroyed: it
compares the ID it saved with the one in the slot.  No ID is given twice while
the counter of IDs does not wrap around, so a slot that was used again never
looks like the old semaphore.
-/

namespace Zeos

namespace View

variable {v : View} {q r : Queue} {t child : TaskId} {st : State}
  {context : Context} {n : SemId}

/-- Who is in a queue when the next process is dispatched stays there or is
dispatched. -/
theorem dispatch_onward (context : Context) (member : t ∈ v.queue q) :
    t ∈ (v.dispatch context).queue q ∨ (v.dispatch context).current = t := by
  by_cases isReady : q = .readyqueue
  · subst isReady
    rcases v.next_cases with ⟨empty, _⟩ | ⟨rest, shape⟩
    · rw [empty] at member
      cases member
    · rw [shape] at member
      rcases List.mem_cons.mp member with same | later
      · exact Or.inr same.symm
      · left
        simp only [dispatch, Function.update_self, shape, List.tail_cons]
        exact later
  · exact Or.inl ((mem_dispatch_of_ne isReady).mpr member)

theorem dispatch_context (other : t ≠ v.current) :
    (v.dispatch context).context t = v.context t :=
  Function.update_of_ne other _ _

end View

namespace Kernel

variable {s s' : Kernel} {event : Event} {n : SemId} {t : TaskId} {q : Queue}

/-- The process is about to go on: it is ready, or it was just dispatched. -/
def Returning (t : TaskId) (s : Kernel) : Prop :=
  t ∈ s.queue .readyqueue ∨ (s.current = t ∧ s.mode = .switched)

/-- The queues of processes that are not waiting for the keyboard. -/
def Plain (q : Queue) : Prop := q = .readyqueue ∨ ∃ n, q = .semaphore n

theorem Plain.notFree (plain : Plain q) : q ≠ .freequeue := by
  rcases plain with isReady | ⟨n, isSemaphore⟩ <;> simp [*]

theorem Plain.notKeyboard (plain : Plain q) : q ≠ .keyboardqueue := by
  rcases plain with isReady | ⟨n, isSemaphore⟩ <;> simp [*]

theorem Plain.released {closed : SemId → Prop} {v v' : View} (plain : Plain q)
    (released : Released closed v v') (member : t ∈ v.queue q) :
    t ∈ v'.queue q ∨ t ∈ v'.queue .readyqueue := by
  obtain ⟨tasks, ready, members⟩ := released.woken
  rcases plain with rfl | ⟨m, rfl⟩
  · left
    rw [ready]
    exact List.mem_append_right tasks member
  · by_cases isClosed : closed m
    · right
      rw [ready]
      exact List.mem_append_left _ ((members t).mpr ⟨m, isClosed, member⟩)
    · left
      rw [released.others _ (by simp)]
      · exact member
      · rintro k isOther same
        cases same
        exact isClosed isOther

theorem dispatched_onward {v : View} {context : Context}
    (view : s'.view = v.dispatch context) (mode : s'.mode = .switched)
    (member : t ∈ v.queue q) : t ∈ s'.queue q ∨ Returning t s' := by
  rcases View.dispatch_onward context member with stays | runs
  · rw [← view] at stays
    exact Or.inl stays
  · rw [← view] at runs
    exact Or.inr (Or.inr ⟨runs, mode⟩)

/-- A process in `readyqueue` or in a semaphore's queue keeps its context in
every step, and it stays in its queue unless it is about to go on. -/
theorem Turn.onward (turn : Turn s event s') (orderly : s.Orderly)
    (plain : Plain q) (member : t ∈ s.queue q) :
    s'.context t = s.context t ∧ (t ∈ s'.queue q ∨ Returning t s') := by
  have settled := orderly.settled
  have notCurrent : t ≠ s.current := settled.away member
  have notFree : ∀ child ∈ s.queue .freequeue, t ≠ child := by
    rintro child free rfl
    exact plain.notFree (settled.exclusive t q .freequeue member free)
  have contextOf : ∀ {v : View}, s'.view = v → s'.context t = v.context t :=
    fun view => congrFun (congrArg View.context view) t
  have placed : ∀ {r : Queue} {tasks : List TaskId} {st : State}
      {context : Context}, tasks.Perm (s.current :: s.view.queue r) →
      s'.view = (s.view.place s.current r tasks st).dispatch context →
      s'.mode = .switched →
      s'.context t = s.context t ∧ (t ∈ s'.queue q ∨ Returning t s') := by
    intro r tasks st context permutation view mode
    exact ⟨(contextOf view).trans (View.dispatch_context notCurrent),
      dispatched_onward view mode (View.mem_place_of_mem permutation member)⟩
  have kept : ∀ {v : View}, s'.view = v → v.context = s.context →
      t ∈ v.queue q → s'.context t = s.context t ∧
        (t ∈ s'.queue q ∨ Returning t s') := by
    intro v view context inQueue
    refine ⟨(contextOf view).trans (congrFun context t), Or.inl ?_⟩
    rw [← view] at inQueue
    exact inQueue
  cases turn with
  | stays _ view _ _ => exact kept view rfl member
  | preempted _ view _ mode =>
      exact placed (List.perm_append_singleton _ _) view mode
  | @served _ _ u rest _ shape view _ mode =>
      have inKeyboard : u ∈ s.view.queue .keyboardqueue := by
        change u ∈ s.queue .keyboardqueue
        rw [shape]
        exact List.mem_cons_self
      have other : t ≠ u := by
        rintro rfl
        exact plain.notKeyboard (settled.exclusive t q _ member inKeyboard)
      have woken : t ∈ (s.view.wake u .keyboardqueue).queue q :=
        (View.mem_wake settled.toParked inKeyboard (Or.inl rfl)).mpr
          (Or.inr ⟨other, member⟩)
      exact ⟨(contextOf view).trans (View.dispatch_context notCurrent),
        dispatched_onward view mode woken⟩
  | asked _ _ view _ mode =>
      exact placed (List.perm_append_singleton _ _) view mode
  | again _ _ _ view _ mode => exact placed (List.Perm.refl _) view mode
  | took _ _ _ view _ _ _ => exact kept view rfl member
  | waited _ _ _ _ view _ mode =>
      exact placed (List.perm_append_singleton _ _) view mode
  | raised _ _ _ view _ _ _ => exact kept view rfl member
  | @woke _ m u rest _ _ _ _ shape view _ _ =>
      have waiting : u ∈ s.view.queue (.semaphore m) := by
        change u ∈ s.queue (.semaphore m)
        rw [shape]
        exact List.mem_cons_self
      have members : ∀ r, t ∈ (s.view.wake u (.semaphore m)).queue r ↔
          (t = u ∧ r = .readyqueue) ∨ (t ≠ u ∧ t ∈ s.view.queue r) := fun r =>
        View.mem_wake settled.toParked waiting (Or.inr ⟨m, rfl⟩)
      refine ⟨contextOf view, ?_⟩
      by_cases isFirst : t = u
      · right
        left
        have ready := (members .readyqueue).mpr (Or.inl ⟨isFirst, rfl⟩)
        rw [← view] at ready
        exact ready
      · left
        have stays := (members q).mpr (Or.inr ⟨isFirst, member⟩)
        rw [← view] at stays
        exact stays
  | opened _ _ view _ _ _ => exact kept view rfl member
  | destroyed _ _ _ _ gone _ _ _ =>
      refine ⟨congrFun gone.context t, ?_⟩
      rcases plain.released gone member with stays | ready
      · exact Or.inl stays
      · exact Or.inr (Or.inl ready)
  | @exited v _ _ gone view _ _ _ _ mode =>
      have current : t ≠ v.retire.current := by
        change t ≠ v.current
        rw [gone.current]
        exact notCurrent
      refine ⟨?_, ?_⟩
      · rw [contextOf view, View.dispatch_context current]
        exact congrFun gone.context t
      · rcases plain.released gone member with stays | ready
        · exact dispatched_onward view mode (View.mem_retire.mpr (Or.inr stays))
        · have inReady : t ∈ v.retire.queue .readyqueue :=
            View.mem_retire.mpr (Or.inr ready)
          rcases View.dispatch_onward .exited inReady with
            stays | runs
          · rw [← view] at stays
            exact Or.inr (Or.inl stays)
          · rw [← view] at runs
            exact Or.inr (Or.inr ⟨runs, mode⟩)
  | @created _ child _ _ _ free view _ _ _ _ _ =>
      have stays : t ∈ (s.view.create child .retFromFork).queue q :=
        (View.mem_create settled.toParked free).mpr
          (Or.inr ⟨notFree child free, member⟩)
      rw [← view] at stays
      exact ⟨(contextOf view).trans
        (Function.update_of_ne (notFree child free) _ _), Or.inl stays⟩
  | @recycled child st context _ _ free view _ _ _ _ _ =>
      have stays : t ∈ (s.view.recycle child st context).queue q :=
        (View.mem_recycle free).mpr member
      rw [← view] at stays
      exact ⟨(contextOf view).trans
        (Function.update_of_ne (notFree child free) _ _), Or.inl stays⟩

/-- A process that is about to go on keeps its context until it runs. -/
theorem Turn.returning (turn : Turn s event s') (orderly : s.Orderly)
    (returning : Returning t s) (notCurrent : s.current ≠ t) :
    s'.context t = s.context t ∧ Returning t s' := by
  rcases returning with ready | ⟨isCurrent, -⟩
  · obtain ⟨context, onward⟩ := turn.onward orderly (Or.inl rfl) ready
    exact ⟨context, onward.elim Or.inl id⟩
  · exact absurd isCurrent notCurrent

/-- A process that leaves a semaphore's queue is about to go on. -/
theorem Turn.leaves (turn : Turn s event s') (orderly : s.Orderly)
    (before : t ∈ s.queue (.semaphore n)) (after : t ∉ s'.queue (.semaphore n)) :
    s'.context t = s.context t ∧ Returning t s' := by
  obtain ⟨context, onward⟩ := turn.onward orderly (Or.inr ⟨n, rfl⟩) before
  exact ⟨context, onward.resolve_left after⟩

/-! ## The observer -/

/-- Why a process was taken off a semaphore's queue. -/
inductive Verdict where
  | destroyed
  | granted (n : SemId)
  deriving DecidableEq

/-- What the observer of a waiter knows: the number of calls of `sem_init`, and
the verdict on a wait that has not returned. -/
structure Docket where
  inits : Nat := 0
  verdict : Option Verdict := none

/-- The semaphore whose queue the process leaves in a step. -/
def takenOff (t : TaskId) (s s' : Kernel) : Option SemId :=
  (List.finRange 20).find? fun n =>
    t ∈ s.queue (.semaphore n) ∧ t ∉ s'.queue (.semaphore n)

theorem takenOff_some (found : takenOff t s s' = some n) :
    t ∈ s.queue (.semaphore n) ∧ t ∉ s'.queue (.semaphore n) := by
  simpa using List.find?_some found

/-- The calls of `sem_init` in an event. -/
def initsIn : Event → Nat
  | .syscall (.semInit _ _) => 1
  | _ => 0

/-- The verdict on a process that an event takes off the queue of `n`. -/
def verdictOf (n : SemId) : Event → Verdict
  | .syscall (.semSignal _) => .granted n
  | _ => .destroyed

/-- The observer of the process `t`.  A verdict is given when `t` is taken off a
queue; it ends when `t` goes on, and a grant also when the semaphore is
destroyed. -/
def watchWaiter (t : TaskId) (s : Kernel) (event : Event) (s' : Kernel)
    (docket : Docket) : Docket where
  inits := docket.inits + initsIn event
  verdict :=
    match takenOff t s s' with
    | some n => some (verdictOf n event)
    | none =>
        if s.current = t then none
        else docket.verdict.filter fun verdict =>
          match verdict with
          | .destroyed => true
          | .granted n => decide (0 ≤ (s'.semaphores n).ownerPID)

/-! ## IDs -/

/-- No ID in the table is above the counter, and the counter does not exceed
the calls of `sem_init`. -/
structure IdsBelow (s : Kernel) (inits : Nat) : Prop where
  lower : -1 ≤ s.globalSemID
  upper : s.globalSemID < inits
  used : ∀ n, 0 ≤ (s.semaphores n).ownerPID →
    (s.semaphores n).semID ≤ s.globalSemID

/-- The counter of IDs stays, or a `sem_init` increments it. -/
theorem Turn.globalSemID (turn : Turn s event s') :
    s'.globalSemID = s.globalSemID ∨
      (initsIn event = 1 ∧ s'.globalSemID = int32 (s.globalSemID + 1)) := by
  cases turn with
  | stays _ _ kept _ => exact Or.inl kept.globalSemID
  | preempted _ _ kept _ => exact Or.inl kept.globalSemID
  | served _ _ kept _ => exact Or.inl kept.globalSemID
  | asked _ _ _ kept _ => exact Or.inl kept.globalSemID
  | again _ _ _ _ kept _ => exact Or.inl kept.globalSemID
  | took _ _ _ _ _ same _ => exact Or.inl same
  | waited _ _ _ _ _ kept _ => exact Or.inl kept.globalSemID
  | raised _ _ _ _ _ same _ => exact Or.inl same
  | woke _ _ _ _ _ kept _ => exact Or.inl kept.globalSemID
  | opened _ _ _ _ next _ => exact Or.inr ⟨rfl, next⟩
  | destroyed _ _ _ _ _ _ same _ => exact Or.inl same
  | exited _ _ _ _ same _ _ _ => exact Or.inl same
  | created _ _ _ _ _ same _ _ _ => exact Or.inl same
  | recycled _ _ _ _ same _ _ _ => exact Or.inl same

theorem IdsBelow.turn {inits : Nat} (ids : IdsBelow s inits)
    (orderly : s.Orderly) (few : inits + initsIn event < 2 ^ 31)
    (turn : Turn s event s') :
    IdsBelow s' (inits + initsIn event) ∧ s.globalSemID ≤ s'.globalSemID ∧
      (s'.globalSemID = int32 (s.globalSemID + 1) →
        s.globalSemID < s'.globalSemID) := by
  obtain ⟨lower, upper, used⟩ := ids
  have next : int32 (s.globalSemID + 1) = s.globalSemID + 1 :=
    int32_of_range (by omega) (by omega)
  have monotone : s.globalSemID ≤ s'.globalSemID := by
    rcases turn.globalSemID with same | ⟨_, incremented⟩ <;> omega
  refine ⟨⟨by omega, ?_, ?_⟩, monotone, fun incremented => by omega⟩
  · rcases turn.globalSemID with same | ⟨counted, incremented⟩ <;> omega
  · intro n usedAfter
    rcases (turn.slot orderly n).semID with
      ⟨same, owner⟩ | ⟨_, new, incremented⟩ | ⟨_, unused⟩
    · rw [owner] at usedAfter
      rw [same]
      exact (used n usedAfter).trans monotone
    · rw [new, incremented]
    · omega

/-! ## Waiters -/

/-- The slot no longer holds the semaphore with this ID, and never will. -/
def Gone (s : Kernel) (n : SemId) (mySemID : Int) : Prop :=
  mySemID ≤ s.globalSemID ∧
    ((s.semaphores n).ownerPID < 0 ∨ mySemID < (s.semaphores n).semID)

/-- What the observer of `t` relies on. -/
structure Heard (t : TaskId) (s : Kernel) (docket : Docket) : Prop where
  ids : IdsBelow s docket.inits
  waiting : ∀ n, t ∈ s.queue (.semaphore n) →
    s.context t = .semWait n (s.semaphores n).semID
  destroyed : docket.verdict = some .destroyed → Returning t s ∧
    ∃ n mySemID, s.context t = .semWait n mySemID ∧ Gone s n mySemID
  granted : ∀ n, docket.verdict = some (.granted n) → Returning t s ∧
    0 ≤ (s.semaphores n).ownerPID ∧
      s.context t = .semWait n (s.semaphores n).semID

/-- A semaphore that is gone stays so. -/
theorem Gone.slot {inits : Nat} {mySemID : Int} (gone : Gone s n mySemID)
    (ids : IdsBelow s inits) (few : inits + initsIn event < 2 ^ 31)
    (orderly : s.Orderly) (turn : Turn s event s') : Gone s' n mySemID := by
  obtain ⟨_, monotone, strict⟩ := ids.turn orderly few turn
  obtain ⟨known, slot⟩ := gone
  refine ⟨known.trans monotone, ?_⟩
  rcases (turn.slot orderly n).semID with
    ⟨same, owner⟩ | ⟨_, new, incremented⟩ | ⟨_, unused⟩
  · rw [same, owner]
    exact slot
  · have later := strict incremented
    exact Or.inr (by omega)
  · exact Or.inl unused

/-- A used slot that stays used keeps its ID. -/
theorem semID_kept (orderly : s.Orderly) (turn : Turn s event s')
    (before : 0 ≤ (s.semaphores n).ownerPID)
    (after : 0 ≤ (s'.semaphores n).ownerPID) :
    (s'.semaphores n).semID = (s.semaphores n).semID := by
  rcases (turn.slot orderly n).semID with ⟨same, _⟩ | ⟨unused, _⟩ | ⟨_, unused⟩
  · exact same
  · omega
  · omega

/-- Who is in the queue of `n` after a step was there before, or went there
with the ID of the semaphore. -/
theorem waiting_kept (orderly : s.Orderly) (turn : Turn s event s')
    (waiting : t ∈ s.queue (.semaphore n) →
      s.context t = .semWait n (s.semaphores n).semID)
    (member : t ∈ s'.queue (.semaphore n)) :
    s'.context t = .semWait n (s'.semaphores n).semID := by
  have stayed : t ∈ s.queue (.semaphore n) →
      (s'.semaphores n).semID = (s.semaphores n).semID →
      s'.context t = .semWait n (s'.semaphores n).semID := by
    intro before same
    have kept := (turn.onward orderly (Or.inr ⟨n, rfl⟩) before).1
    rw [kept, same]
    exact waiting before
  cases turn.slot orderly n with
  | untouched _ semaphore queue =>
      rw [queue] at member
      exact stayed member (by rw [semaphore])
  | took _ _ _ semaphore queue =>
      rw [queue] at member
      exact stayed member (by rw [semaphore])
  | waited _ _ _ semaphore queue context =>
      rw [queue] at member
      rcases List.mem_append.mp member with before | isCurrent
      · exact stayed before (by rw [semaphore])
      · rw [List.mem_singleton.mp isCurrent, context, semaphore]
  | raised _ _ _ _ queue =>
      rw [queue] at member
      cases member
  | woke _ _ shape semaphore =>
      apply stayed _ (by rw [semaphore])
      rw [shape]
      exact List.mem_cons_of_mem _ member
  | opened _ _ queue _ =>
      rw [queue] at member
      cases member
  | closed _ _ _ queue =>
      rw [queue] at member
      cases member

/-- A process that leaves the queue of `n` was woken by a signal, or the
semaphore is destroyed. -/
theorem takenOff_cases (orderly : s.Orderly) (turn : Turn s event s')
    (before : t ∈ s.queue (.semaphore n))
    (after : t ∉ s'.queue (.semaphore n)) :
    (verdictOf n event = .granted n ∧ s'.semaphores n = s.semaphores n) ∨
      (verdictOf n event = .destroyed ∧ (s'.semaphores n).ownerPID < 0) := by
  have used : 0 ≤ (s.semaphores n).ownerPID :=
    orderly.refines.active_of_mem (q := .semaphore n) before
  cases turn.slot orderly n with
  | untouched _ _ queue => exact absurd (queue ▸ before) after
  | took _ _ _ _ queue => exact absurd (queue ▸ before) after
  | waited _ _ _ _ queue _ =>
      apply absurd _ after
      rw [queue]
      exact List.mem_append_left _ before
  | raised _ _ empty _ _ =>
      rw [empty] at before
      cases before
  | woke _ _ _ semaphore => exact Or.inl ⟨rfl, semaphore⟩
  | opened unused _ _ _ => omega
  | closed notSignal _ unused _ =>
      right
      refine ⟨?_, unused⟩
      unfold verdictOf
      split
      · exact absurd rfl (notSignal _)
      · rfl

theorem Heard.turn {docket : Docket} (heard : Heard t s docket)
    (orderly : s.Orderly) (few : docket.inits + initsIn event < 2 ^ 31)
    (turn : Turn s event s') :
    Heard t s' (watchWaiter t s event s' docket) := by
  obtain ⟨below, monotone, _⟩ := heard.ids.turn orderly few turn
  -- a verdict that was given before, to a process that has not gone on
  have old : takenOff t s s' = none → ∀ verdict,
      (watchWaiter t s event s' docket).verdict = some verdict →
        s.current ≠ t ∧ docket.verdict = some verdict ∧
          ∀ n, verdict = .granted n → 0 ≤ (s'.semaphores n).ownerPID := by
    intro stays verdict given
    simp only [watchWaiter, stays] at given
    split_ifs at given with isCurrent
    obtain ⟨known, holds⟩ := Option.filter_eq_some_iff.mp given
    refine ⟨isCurrent, known, ?_⟩
    rintro n rfl
    simpa using holds
  have new : ∀ n, takenOff t s s' = some n →
      t ∈ s.queue (.semaphore n) ∧ t ∉ s'.queue (.semaphore n) ∧
        (watchWaiter t s event s' docket).verdict = some (verdictOf n event) := by
    intro n found
    obtain ⟨before, after⟩ := takenOff_some found
    exact ⟨before, after, by simp only [watchWaiter, found]⟩
  have gone : ∀ n, t ∈ s.queue (.semaphore n) → t ∉ s'.queue (.semaphore n) →
      s'.context t = .semWait n (s.semaphores n).semID ∧ Returning t s' := by
    intro n before after
    obtain ⟨context, returns⟩ := turn.leaves orderly before after
    exact ⟨context.trans (heard.waiting n before), returns⟩
  refine ⟨below, fun n => waiting_kept orderly turn (heard.waiting n), ?_, ?_⟩
  · intro isDestroyed
    cases found : takenOff t s s' with
    | none =>
        obtain ⟨notCurrent, known, _⟩ := old found _ isDestroyed
        obtain ⟨ready, n, mySemID, context, isGone⟩ := heard.destroyed known
        obtain ⟨kept, readyAfter⟩ := turn.returning orderly ready notCurrent
        exact ⟨readyAfter, n, mySemID, kept.trans context,
          isGone.slot heard.ids few orderly turn⟩
    | some n =>
        obtain ⟨before, after, given⟩ := new n found
        rw [isDestroyed, Option.some_inj] at given
        obtain ⟨context, ready⟩ := gone n before after
        rcases takenOff_cases orderly turn before after with
          ⟨isGranted, _⟩ | ⟨_, unused⟩
        · rw [isGranted] at given
          cases given
        · have used : 0 ≤ (s.semaphores n).ownerPID :=
            orderly.refines.active_of_mem (q := .semaphore n) before
          exact ⟨ready, n, _, context,
            (heard.ids.used n used).trans monotone, Or.inl unused⟩
  · intro n isGranted
    cases found : takenOff t s s' with
    | none =>
        obtain ⟨notCurrent, known, stillUsed⟩ := old found _ isGranted
        obtain ⟨ready, used, context⟩ := heard.granted n known
        obtain ⟨kept, readyAfter⟩ := turn.returning orderly ready notCurrent
        have usedAfter := stillUsed n rfl
        refine ⟨readyAfter, usedAfter, ?_⟩
        rw [kept, semID_kept orderly turn used usedAfter]
        exact context
    | some m =>
        obtain ⟨before, after, given⟩ := new m found
        rw [isGranted, Option.some_inj] at given
        obtain ⟨context, ready⟩ := gone m before after
        rcases takenOff_cases orderly turn before after with
          ⟨isM, semaphore⟩ | ⟨isDestroyed, _⟩
        · rw [isM] at given
          cases given
          have used : 0 ≤ (s.semaphores n).ownerPID :=
            orderly.refines.active_of_mem (q := .semaphore n) before
          rw [semaphore]
          exact ⟨ready, used, context⟩
        · rw [isDestroyed] at given
          cases given

/-- A waiter that goes on needs no buffer. -/
theorem step_of_waiting {mySemID : Int} (context : s.context t = .semWait n mySemID)
    (dispatched : s.current = t) (resumed : s.advance .resume = some s') :
    s.step .resume = some s' := by
  have none : s.buffer .resume = none := by
    unfold buffer
    rw [dispatched, context]
  exact (if_pos (fits_of_none none)).trans resumed

/-- A waiter that goes on compares the ID it saved with the one in the slot. -/
theorem resume_wait {mySemID : Int} (context : s.context t = .semWait n mySemID)
    (dispatched : s.current = t) (taken : s.step .resume = some s') :
    s'.mode = .user ∧ s'.eax t = s.semWaitResult n mySemID := by
  have handled := handle_of_step taken
  rw [handle] at handled
  split_ifs at handled
  cases handled
  subst dispatched
  unfold resume
  rw [context]
  exact ⟨rfl, Function.update_self _ _ _⟩

/-- With fewer than `2 ^ 31` calls of `sem_init`, and buffers that fit, a process that
was taken off a semaphore's queue because the semaphore was destroyed returns -1, and
one that was woken by a signal returns 0 unless the semaphore was destroyed before it
goes on. -/
theorem wait_verdict {image : BootImage} {docket : Docket}
    (fitting : Library.Observe advance (watchWaiter t) BuffersFit (boot image) {} s docket)
    (few : docket.inits < 2 ^ 31) (dispatched : s.current = t)
    (resumed : s.advance .resume = some s') :
    (docket.verdict = some .destroyed → s'.mode = .user ∧ s'.eax t = -1) ∧
      ∀ n, docket.verdict = some (.granted n) →
        s'.mode = .user ∧ s'.eax t = 0 := by
  have run : Library.Observe step (watchWaiter t) (fun _ _ => True) (boot image) {} s docket :=
    observe_fitting_iff.mpr fitting
  have heard : docket.inits < 2 ^ 31 → Heard t s docket := by
    refine Library.Reach.observe_invariant
      (fun s docket => docket.inits < 2 ^ 31 → Heard t s docket) ?_
      (fun _ plain => orderly_of_reachable plain) ?_ run
    · intro _
      have next : (boot image).globalSemID = -1 := rfl
      refine ⟨⟨by rw [next], by rw [next]; decide, ?_⟩, ?_, by simp, by simp⟩
      · intro n used
        have unused : ((boot image).semaphores n).ownerPID = -1 := rfl
        omega
      · intro n member
        have used : 0 ≤ ((boot image).semaphores n).ownerPID :=
          (boot_orderly image).refines.active_of_mem (q := .semaphore n) member
        have unused : ((boot image).semaphores n).ownerPID = -1 := rfl
        omega
    · intro before event after seen orderly known _ taken fewer
      have counted : seen.inits + initsIn event < 2 ^ 31 := fewer
      exact (known (by omega)).turn orderly counted (turn_of_step orderly taken)
  constructor
  · intro isDestroyed
    obtain ⟨_, n, mySemID, context, _, gone⟩ := (heard few).destroyed isDestroyed
    obtain ⟨mode, result⟩ := resume_wait context dispatched
      (step_of_waiting context dispatched resumed)
    refine ⟨mode, result.trans (if_pos ?_)⟩
    rcases gone with unused | used
    · exact Or.inl unused
    · exact Or.inr (by omega)
  · intro n isGranted
    obtain ⟨_, used, context⟩ := (heard few).granted n isGranted
    obtain ⟨mode, result⟩ := resume_wait context dispatched
      (step_of_waiting context dispatched resumed)
    refine ⟨mode, result.trans (if_neg ?_)⟩
    rintro (unused | other)
    · omega
    · exact other rfl

/-- A child waits; its parent destroys the semaphore, uses the slot again and
exits. -/
theorem wait_verdict_reused :
    let events : List Event := [.syscall (.semInit 3 0), .syscall .fork,
      .syscall (.read 0 0x10A000 1), .resume, .syscall (.semWait 3), .resume,
      .keyboard 0x9E 0, .resume, .syscall (.semDestroy 3), .syscall (.semInit 3 5),
      .syscall .exit]
    ∃ s docket, Library.runEvents (Library.guarded (Library.observed advance (watchWaiter 2))
          fun before => BuffersFit before.1) (boot sampleImage, {}) events = some (s, docket) ∧
      docket.verdict = some .destroyed ∧ (s.advance .resume).isSome = true ∧
      ∀ s', s.advance .resume = some s' → s'.mode = .user ∧ s'.eax 2 = -1 := by
  intro events
  obtain ⟨⟨s, docket⟩, finished, seen⟩ := (Option.any_eq_true _ _).mp
    (show (Library.runEvents (Library.guarded (Library.observed advance (watchWaiter 2))
      fun before => BuffersFit before.1) (boot sampleImage, {}) events).any (fun last =>
        decide (last.2.verdict = some .destroyed ∧ last.2.inits < 2 ^ 31 ∧
          last.1.current = 2 ∧ (last.1.advance .resume).isSome = true)) = true by
      decide +kernel)
  obtain ⟨verdict, few, dispatched, possible⟩ := of_decide_eq_true seen
  exact ⟨s, docket, finished, verdict, possible, fun s' resumed =>
    (wait_verdict (Library.Reach.of_guarded finished) few dispatched resumed).1 verdict⟩

/-- Process 1 waits, and its thread destroys the semaphore.  Then the thread reads more
than its stack page has room for and blocks in the PCB of process 1: that is dispatched at
the next key, goes on in the thread's read, and does not return. -/
theorem verdict_overrun : ∃ s docket s',
    Library.Observe advance (watchWaiter 1) (fun _ _ => True) (boot sampleImage) {} s docket ∧
      docket.verdict = some .destroyed ∧ docket.inits < 2 ^ 31 ∧ s.current = 1 ∧
      s.advance .resume = some s' ∧ s'.mode ≠ .user := by
  obtain ⟨⟨s, docket⟩, finished, seen⟩ := (Option.any_eq_true _ _).mp
    (show (Library.runEvents (Library.observed advance (watchWaiter 1)) (boot sampleImage, {})
      ([.syscall (.clone 0x100000 0x110000)] ++ List.replicate 10 .clock ++
        [.resume, .syscall (.semInit 3 0)] ++ List.replicate 10 .clock ++
        [.resume, .syscall (.semWait 3), .resume, .syscall (.semDestroy 3),
          .syscall (.read 0 0x108000 5000), .resume, .keyboard 0x9E 0])).any (fun last =>
        decide (last.2.verdict = some .destroyed ∧ last.2.inits < 2 ^ 31 ∧
          last.1.current = 1) &&
            (last.1.advance .resume).any fun s' => decide (s'.mode ≠ .user)) = true by
      decide +kernel)
  obtain ⟨decided, asleep⟩ := Bool.and_eq_true_iff.mp seen
  obtain ⟨verdict, few, dispatched⟩ := of_decide_eq_true decided
  obtain ⟨s', resumed, mode⟩ := (Option.any_eq_true _ _).mp asleep
  exact ⟨s, docket, s', .of_runEvents .start (fun _ _ _ => trivial) finished, verdict, few,
    dispatched, resumed, of_decide_eq_true mode⟩

end Kernel

end Zeos
