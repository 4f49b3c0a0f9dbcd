import Zeos.Keyboard.Progress
import Zeos.Sched.Overtaking
import Zeos.Space.Exceptions

/-!
# Idle for ever

While idle runs, only the keyboard can make another process run.  If a reader waits, a few
keys do, whatever `leftToRead` is; if none waits, no event changes the processes and the queues
any more.
-/

namespace Zeos

open Keyboard

namespace Driver

variable {d : Driver} {input : Input}

/-- The first reader is owed no less than nothing, and no less than what the reader who has its
turn finds. -/
structure Solvent (d : Driver) : Prop where
  flag : d.kbd.cbIsEmpty = true
  left : 0 ≤ d.kbd.leftToRead
  active : ∀ r ∈ d.active, (d.kbd.charsInCirc : Int) ≤ d.kbd.leftToRead

theorem Solvent.key (solvent : d.Solvent) (quiet : d.active = none) (c : UInt8) :
    (d.key c).Solvent := by
  have flag := keyed_flag solvent.flag c
  have left : 0 ≤ (d.keyed c).leftToRead := by
    rw [keyed_leftToRead]
    exact solvent.left
  rcases d.key_cases c with ⟨first, rest, _, wakes, result⟩ | ⟨_, result⟩
  · rw [result]
    exact ⟨flag, left, fun _ _ => (wakesReader_iff flag).mp wakes⟩
  · rw [result]
    refine ⟨flag, left, fun r isActive => ?_⟩
    change r ∈ d.active at isActive
    rw [quiet] at isActive
    cases isActive

theorem Solvent.turn (solvent : d.Solvent) {r : Request} (active : d.active = some r) :
    (d.serve r).Solvent := by
  have enough := solvent.active r active
  have flag := Kernel.deliver_cbIsEmpty solvent.flag r.n r.stored
  have left : 0 ≤ (deliver r.n r.stored d.kbd).2.leftToRead := by
    have taken := (deliver_leftToRead r d.kbd).1
    have before := solvent.left
    split_ifs at taken with needy
    · omega
    · omega
  by_cases more : ((deliver r.n r.stored d.kbd).1.length : Int) < r.n
  · rw [serve_more more]
    exact ⟨flag, left, nofun⟩
  · rw [serve_enough (not_lt.mp more)]
    exact ⟨flag, left, nofun⟩

theorem Solvent.step (solvent : d.Solvent) (possible : d.Possible input) :
    (d.step input).Solvent := by
  cases input with
  | key c => exact solvent.key possible c
  | ask reader n =>
      obtain ⟨quiet, nonneg⟩ := possible
      refine ⟨solvent.flag, nonneg, fun r isActive => ?_⟩
      change r ∈ d.active at isActive
      rw [quiet] at isActive
      cases isActive
  | turn =>
      unfold Driver.step
      cases active : d.active with
      | none => exact solvent
      | some r => exact solvent.turn active
  | other => exact solvent

end Driver

namespace Kernel

variable {s s' : Kernel} {event : Event} {image : BootImage}

theorem solvent_of_reachable (reachable : Reachable image s) : s.driver.Solvent := by
  have preserved : ∀ d input, Driver.Solvent d → d.Possible input → True →
      (d.step input).Solvent := fun _ _ solvent possible _ => solvent.step possible
  exact driver_invariant ⟨rfl, le_refl _, nofun⟩ preserved reachable

/-! ## Nobody waits for the keyboard -/

theorem asleep_step (orderly : s.Orderly) (idle : s.current = s.idleTask)
    (nobody : s.queue .keyboardqueue = []) (taken : s.step event = some s') :
    s'.view = s.view := by
  cases turn_of_step orderly taken with
  | stays _ view _ _ => exact view
  | preempted busy _ _ _ => exact absurd idle busy
  | served shape _ _ _ =>
      rw [nobody] at shape
      cases shape
  | asked busy _ _ _ _ => exact absurd idle busy
  | again _ reading _ _ _ _ =>
      rw [idle] at reading
      exact absurd reading orderly.contexts.idle
  | took _ _ _ view _ _ _ => exact view
  | waited _ busy _ _ _ _ _ => exact absurd idle busy
  | raised _ _ _ view _ _ _ => exact view
  | woke _ busy _ _ _ _ _ => exact absurd idle busy
  | opened _ _ view _ _ _ => exact view
  | destroyed _ busy _ _ _ _ _ _ => exact absurd idle busy
  | exited busy _ _ _ _ _ _ _ => exact absurd idle busy
  | created _ busy _ _ _ _ _ _ _ => exact absurd idle busy
  | recycled busy _ _ _ _ _ _ _ => exact absurd idle busy

theorem asleep_run : ∀ {events : List Event} {s last : Kernel}, Reachable image s →
    s.current = s.idleTask → s.queue .keyboardqueue = [] →
      Library.runEvents step s events = some last → last.view = s.view
  | [], _, _, _, _, _, run => by
      cases run
      rfl
  | event :: events, s, last, reachable, idle, nobody, run => by
      obtain ⟨next, taken, rest⟩ := Option.bind_eq_some_iff.mp run
      have same := asleep_step (orderly_of_reachable reachable) idle nobody taken
      have idleNext : next.current = next.idleTask := by
        change next.view.current = next.view.idle
        rw [same]
        exact idle
      have nobodyNext : next.queue .keyboardqueue = [] :=
        (congrFun (congrArg View.queue same) .keyboardqueue).trans nobody
      exact (asleep_run (reachable.step trivial taken) idleNext nobodyNext rest).trans same

/-! ## A reader waits -/

/-- The release of a key with a character. -/
def letterKey : Event := .keyboard 0x9E 0

/-- A key wakes the first reader, or one more character is in the buffer. -/
theorem key_wakes_or (reachable : Reachable image s) (user : s.mode = .user)
    (waiting : s.queue .keyboardqueue ≠ []) :
    ∃ s', s.step letterKey = some s' ∧
      ((s.queue .keyboardqueue).head? = some s'.current ∨
        (s'.mode = .user ∧ s'.view = s.view ∧
          s'.kbd.charsInCirc = s.kbd.charsInCirc + 1)) := by
  have orderly := orderly_of_reachable reachable
  have handled : s.handle letterKey = some (s.keyboardRoutine 0x9E 0) := if_pos user
  have taken : s.step letterKey = some (s.keyboardRoutine 0x9E 0) :=
    step_of_handle rfl handled (by rw [keyboard_mm]; exact noFault_of_reachable reachable)
  refine ⟨_, taken, ?_⟩
  have left : 0 ≤ s.kbd.leftToRead := (solvent_of_reachable reachable).left
  have isKey : s.input letterKey = .key (charOfScancode 0x9E 0) := by
    unfold letterKey input
    exact if_pos (by decide)
  generalize s.keyboardRoutine 0x9E 0 = s' at handled
  cases handle_effect orderly handled with
  | quiet other _ _ _ _ _ _ =>
      rw [isKey] at other
      cases other
  | typed _ _ refines kbd asleep _ mode =>
      refine Or.inr ⟨mode, refines.view, ?_⟩
      have stored : s'.kbd = (s.kbd.putC (charOfScancode 0x9E 0)
          (!s.listEmpty .keyboardqueue)).2 := kbd.trans (if_neg (by decide))
      have flag : s'.kbd.cbIsEmpty = true := by
        rw [stored]
        exact putC_cbIsEmpty orderly.cbIsEmpty _ _
      have short := (Driver.wakesReader_iff flag).not.mp fun wakes => waiting (asleep wakes)
      have count : s'.kbd.charsInCirc =
          if s.kbd.charsInCirc + 1 = bufferSize then 0 else s.kbd.charsInCirc + 1 := by
        rw [stored]
        exact putC_charsInCirc orderly.cbIsEmpty _ _
      have kept : s'.kbd.leftToRead = s.kbd.leftToRead := by
        rw [stored]
        exact putC_leftToRead _ _ _
      -- the tenth character would make the count zero and wake the reader
      split_ifs at count with last
      · rw [count, kept] at short
        exact absurd left short
      · exact count
  | @served _ _ t rest _ _ _ shape refines _ _ _ _ =>
      refine Or.inl ?_
      have ready : (s.view.wake t .keyboardqueue).queue .readyqueue =
          t :: s.queue .readyqueue := by
        rw [View.wake_queue_ready]
        rfl
      have first := dispatched_first refines.view (by rw [ready]; simp)
      rw [ready] at first
      rw [shape, (List.cons.inj first).1]
      rfl

/-- As many keys as there is room for in the buffer wake the first reader. -/
theorem keys_wake : ∀ (room : Nat) {s : Kernel}, Reachable image s → s.mode = .user →
    s.queue .keyboardqueue ≠ [] → bufferSize ≤ s.kbd.charsInCirc + room →
      ∃ count ≤ room, ∃ last,
        Library.runEvents step s (List.replicate count letterKey) = some last ∧
          (s.queue .keyboardqueue).head? = some last.current
  | 0, s, _, _, _, full => absurd s.kbd.charsInCirc_lt (not_lt.mpr full)
  | room + 1, s, reachable, user, waiting, full => by
      obtain ⟨next, taken, woken | ⟨userNext, same, count⟩⟩ :=
        key_wakes_or reachable user waiting
      · refine ⟨1, by omega, next, ?_, woken⟩
        exact Option.bind_eq_some_iff.mpr ⟨next, taken, rfl⟩
      · have queue : next.queue .keyboardqueue = s.queue .keyboardqueue :=
          congrFun (congrArg View.queue same) .keyboardqueue
        obtain ⟨count, few, last, run, woken⟩ := keys_wake room
          (reachable.step trivial taken) userNext (by rwa [queue]) (by omega)
        rw [queue] at woken
        refine ⟨count + 1, by omega, last, ?_, woken⟩
        exact Option.bind_eq_some_iff.mpr ⟨next, taken, run⟩

/-- Idle goes on in user mode. -/
theorem idle_resumes (reachable : Reachable image s) (idle : s.current = s.idleTask)
    (switched : s.mode = .switched) :
    ∃ s', s.step .resume = some s' ∧ s'.mode = .user ∧ s'.view = s.view := by
  have orderly := orderly_of_reachable reachable
  have notReading : ¬ (s.context s.current).Reading := by
    rw [idle]
    exact orderly.contexts.idle
  have handled : s.handle .resume = some s.resume := if_pos switched
  have goes : s.resume.mode = .user ∧ s.resume.view = s.view ∧ s.resume.mm = s.mm ∧
      s.buffer .resume = none := by
    unfold resume buffer
    cases context : s.context s.current with
    | readKeyboard buf n stored =>
        rw [context] at notReading
        exact absurd trivial notReading
    | _ => exact ⟨rfl, rfl, rfl, rfl⟩
  refine ⟨s.resume, ?_, goes.1, goes.2.1⟩
  exact step_of_handle goes.2.2.2 handled
    (goes.2.2.1 ▸ noFault_of_reachable reachable)

/-- When idle runs, the system is dead if nobody waits for the keyboard: no event changes its
processes and queues any more.  Otherwise a few interrupts wake the first reader. -/
theorem idle_for_ever (reachable : Reachable image s) (idle : s.current = s.idleTask) :
    (s.queue .keyboardqueue = [] → ∀ events last,
        Library.runEvents step s events = some last → last.view = s.view) ∧
      (s.queue .keyboardqueue ≠ [] → ∃ events last, events.length ≤ bufferSize + 1 ∧
        Library.runEvents step s events = some last ∧
        (s.queue .keyboardqueue).head? = some last.current) := by
  refine ⟨fun nobody events last run => asleep_run reachable idle nobody run,
    fun waiting => ?_⟩
  by_cases user : s.mode = .user
  · obtain ⟨count, few, last, run, woken⟩ :=
      keys_wake bufferSize reachable user waiting (Nat.le_add_left _ _)
    refine ⟨_, last, ?_, run, woken⟩
    rw [List.length_replicate]
    omega
  · have switched : s.mode = .switched := by
      cases mode : s.mode with
      | user => exact absurd mode user
      | switched => rfl
    obtain ⟨next, taken, userNext, same⟩ := idle_resumes reachable idle switched
    have queue : next.queue .keyboardqueue = s.queue .keyboardqueue :=
      congrFun (congrArg View.queue same) .keyboardqueue
    obtain ⟨count, few, last, run, woken⟩ := keys_wake bufferSize
      (reachable.step trivial taken) userNext (by rwa [queue]) (Nat.le_add_left _ _)
    rw [queue] at woken
    refine ⟨.resume :: List.replicate count letterKey, last, ?_, ?_, woken⟩
    · rw [List.length_cons, List.length_replicate]
      omega
    · exact Option.bind_eq_some_iff.mpr ⟨next, taken, run⟩

/-- A process that waits for its own semaphore is never woken; one that reads is. -/
theorem idle_for_ever_waiting :
    let waiter := Library.lastState step (boot sampleImage)
      [.syscall (.semInit 3 0), .syscall (.semWait 3)]
    let reader := Library.lastState step (boot sampleImage) [.syscall (.read 0 0x10A000 1)]
    (∀ events last, Library.runEvents step waiter events = some last →
        last.view = waiter.view) ∧
      ∃ events last, events.length ≤ bufferSize + 1 ∧
        Library.runEvents step reader events = some last ∧
        (reader.queue .keyboardqueue).head? = some last.current := by
  intro waiter reader
  have waiterReached : Reachable sampleImage waiter := Library.Reach.lastState fun _ _ _ => trivial
  have readerReached : Reachable sampleImage reader := Library.Reach.lastState fun _ _ _ => trivial
  exact ⟨(idle_for_ever waiterReached (by decide +kernel)).1 (by decide +kernel),
    (idle_for_ever readerReached (by decide +kernel)).2 (by decide +kernel)⟩

end Kernel

end Zeos
