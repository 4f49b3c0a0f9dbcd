import Zeos.Keyboard.Driver
import Zeos.Sched.Calls

/-!
# What a step does

`Effect` is the inversion of one step: it says for each event which moves the
queues make and what happens to the keyboard buffer and to the read in
progress.  Every invariant of the scheduler and of the keyboard driver is
derived from it.
-/

namespace Zeos

namespace Kernel

variable {s s' : Kernel} {v : View} {event : Event}

/-- The effect of an event on the queues, the keyboard and the reads. -/
inductive Effect (s : Kernel) : Event → Kernel → Prop
  /-- The keyboard driver has no part in it. -/
  | quiet {event : Event} {s' : Kernel} :
      s.input event = .other →
      (s.mode = .switched → ¬ (s.context s.current).Reading) →
      s'.Refines s'.view →
      s.view.Moves s'.view →
      s'.kbd = s.kbd →
      s'.readLog = s.readLog →
      (s'.mode = .switched → ¬ (s'.context s'.current).Reading) →
      Effect s event s'
  /-- A key that wakes nobody. -/
  | typed {scancode beyond : UInt8} {s' : Kernel} :
      s.mode = .user →
      scancode &&& 0x80 ≠ 0 →
      s'.Refines s.view →
      s'.kbd = s.keyStored (charOfScancode scancode beyond) →
      (wakesReader s'.kbd = true → s.queue .keyboardqueue = []) →
      s'.readLog = s.readLog →
      s'.mode = .user →
      Effect s (.keyboard scancode beyond) s'
  /-- A key that wakes the first reader. -/
  | served {scancode beyond : UInt8} {t : TaskId} {rest : List TaskId}
      {s' : Kernel} :
      s.mode = .user →
      scancode &&& 0x80 ≠ 0 →
      s.queue .keyboardqueue = t :: rest →
      s'.Refines (s.view.serve t) →
      s'.kbd = s.keyStored (charOfScancode scancode beyond) →
      wakesReader s'.kbd = true →
      s'.readLog = s.readLog →
      s'.mode = .switched →
      Effect s (.keyboard scancode beyond) s'
  /-- A read that has to wait. -/
  | asked {fd count : Int32} {buf : UInt32} {s' : Kernel} :
      s.mode = .user →
      s.current ≠ s.idleTask →
      ReadAccepted fd buf count →
      s'.Refines (s.view.arrive (.readKeyboard buf count.toInt [])) →
      s'.kbd = { s.kbd with leftToRead := count.toInt } →
      s'.readLog = s.readLog →
      s'.mode = .switched →
      Effect s (.syscall (.read fd buf count)) s'
  /-- A reader that has all it asked for. -/
  | delivered {buf : UInt32} {n : Int} {stored : List UInt8} {s' : Kernel} :
      s.mode = .switched →
      s.context s.current = .readKeyboard buf n stored →
      n ≤ ((deliver n stored s.kbd).1.length : Int) →
      s'.Refines s.view →
      s'.kbd = (deliver n stored s.kbd).2 →
      s'.readLog =
        ⟨s.current, n, (deliver n stored s.kbd).1⟩ :: s.readLog →
      s'.mode = .user →
      Effect s .resume s'
  /-- A reader that has to wait for more. -/
  | again {buf : UInt32} {n : Int} {stored : List UInt8} {s' : Kernel} :
      s.mode = .switched →
      s.context s.current = .readKeyboard buf n stored →
      ((deliver n stored s.kbd).1.length : Int) < n →
      s'.Refines (s.view.comeBack
        (.readKeyboard buf n (deliver n stored s.kbd).1)) →
      s'.kbd = (deliver n stored s.kbd).2 →
      s'.readLog = s.readLog →
      s'.mode = .switched →
      Effect s .resume s'

/-- The scheduler and the keyboard driver are in order. -/
structure Orderly (s : Kernel) : Prop where
  refines : s.Refines s.view
  settled : s.view.Settled
  contexts : s.view.Contexts
  cbIsEmpty : s.kbd.cbIsEmpty = true

/-- A free PCB is no process. -/
theorem Orderly.dead (orderly : s.Orderly) {t : TaskId}
    (member : t ∈ s.queue .freequeue) : s.live t = false :=
  (orderly.settled.free t).mp member

/-! ## The reading loop -/

/-- The loop of `sys_read_keyboard`, in terms of `deliver`. -/
theorem readLoop_eq (s : Kernel) (buf : UInt32) (n : Int) (stored : List UInt8) :
    s.readLoop buf n stored =
      (let s' := { s with kbd := (deliver n stored s.kbd).2 }
      let stored' := (deliver n stored s.kbd).1
      if (stored'.length : Int) < n then
        (none, (((s'.listAdd s'.current .keyboardqueue).sysToReadyStats).modTask
          s'.current fun p => { p with execStatus := .stBlocked }).schedNextRr
            (.readKeyboard buf n stored'))
      else
        (some (s'.finishRead buf n stored').1,
          (s'.finishRead buf n stored').2)) := by
  unfold readLoop deliver
  by_cases more : (stored.length : Int) < n
  · simp only [if_pos more]
    rfl
  · simp only [if_neg more]

/-- A reader that goes back to the front of `keyboardqueue`. -/
theorem Refines.comeBack (refines : s.Refines v) (settled : v.Settled)
    (context : Context) :
    ((((s.listAdd s.current .keyboardqueue).sysToReadyStats).modTask s.current
        fun p => { p with execStatus := .stBlocked }).schedNextRr
          context).Refines (v.comeBack context) ∧
      ((((s.listAdd s.current .keyboardqueue).sysToReadyStats).modTask s.current
        fun p => { p with execStatus := .stBlocked }).schedNextRr
          context).mode = .switched := by
  have current : s.current = v.current := congrArg View.current refines.view
  have queued := refines.listAdd (q := .keyboardqueue) (t := s.current) trivial
    (current ▸ settled.currentLoose)
  have charged : ((s.listAdd s.current .keyboardqueue).sysToReadyStats).Refines
      _ := ⟨queued.threads, queued.view⟩
  have marked := charged.modTask s.current fun p =>
    { p with execStatus := .stBlocked }
  rw [current] at marked ⊢
  exact marked.schedNextRr context

/-! ## Events -/

theorem not_switched {P : Prop} (mode : s.mode = .user) :
    s.mode = .switched → P := by
  rw [mode]
  exact nofun

/-- A call that returns to its caller. -/
theorem Effect.returned (input : s.input event = .other) (other : s.mode = .switched →
    ¬ (s.context s.current).Reading) (quiet : s.Quiet s') (result : Int) :
    Effect s event (s'.sysReturn result) :=
  have refines : (s'.sysReturn result).Refines s'.view :=
    ⟨quiet.refines.threads, rfl⟩
  .quiet input other refines.self quiet.moves quiet.kbd quiet.readLog
    (not_switched rfl)

/-- An event that ends in a dispatch. -/
theorem Effect.dispatched (input : s.input event = .other)
    (mode : s.mode = .user) (refines : s'.Refines v)
    (moves : s.view.Moves v) (other : ¬ (v.context v.current).Reading)
    (kbd : s'.kbd = s.kbd) (readLog : s'.readLog = s.readLog) :
    Effect s event s' := by
  obtain ⟨threads, rfl⟩ := refines
  exact .quiet input (not_switched mode) ⟨threads, rfl⟩ moves kbd readLog
    fun _ => other

theorem Orderly.userToSysStats (orderly : s.Orderly) :
    s.userToSysStats.Orderly :=
  ⟨⟨orderly.refines.threads, rfl⟩, orderly.settled, orderly.contexts,
    orderly.cbIsEmpty⟩

/-- Entering the kernel only charges the user time. -/
theorem Orderly.enter (orderly : s.Orderly) : s.Quiet s.userToSysStats :=
  Quiet.of_view ⟨orderly.refines.threads, rfl⟩ rfl rfl

theorem clock_effect (orderly : s.Orderly) (mode : s.mode = .user) :
    Effect s .clock s.clockRoutine := by
  have ticked : ({ s with zeosTicks := int32 (s.zeosTicks + 1) } : Kernel).Refines
      s.view := ⟨orderly.refines.threads, rfl⟩
  have keeps := Keeps.schedule { s with zeosTicks := int32 (s.zeosTicks + 1) }
  rcases ticked.schedule orderly.settled with
    ⟨same, sameMode, _⟩ | ⟨busy, switched, _⟩
  · have moves : s.view.Moves s.clockRoutine.view := by
      unfold clockRoutine
      rw [same.view]
    have user : s.clockRoutine.mode = .user := sameMode.trans mode
    exact .quiet rfl (not_switched mode) same.self moves keeps.kbd keeps.readLog
      (not_switched user)
  · have status : StatusOf .readyqueue .stReady := Or.inl ⟨rfl, rfl⟩
    have fits : ContextOf .interrupted .readyqueue := rfl
    have contexts := orderly.contexts.yieldTo orderly.settled busy status fits
      (List.perm_append_singleton _ _)
    exact .dispatched rfl mode switched
      (.single (.yield busy (by decide) status fits))
      contexts.2 keeps.kbd keeps.readLog

theorem keyboard_effect (orderly : s.Orderly) (mode : s.mode = .user)
    (scancode beyond : UInt8) :
    Effect s (.keyboard scancode beyond) (s.keyboardRoutine scancode beyond) := by
  unfold keyboardRoutine
  split_ifs with make
  · have typed : ({ s with kbd := s.keyStored (charOfScancode scancode beyond) } :
        Kernel).Refines s.view := ⟨orderly.refines.threads, rfl⟩
    have emptyIff := typed.listEmpty_iff (q := .keyboardqueue) trivial
    dsimp only
    split_ifs with wakes
    · obtain ⟨wakesReader, notEmpty⟩ := wakes
      have waiting : s.queue .keyboardqueue ≠ [] := fun empty =>
        notEmpty (emptyIff.mpr empty)
      obtain ⟨t, rest, shape⟩ := List.exists_cons_of_ne_nil waiting
      rw [typed.listFirst shape]
      have member : t ∈ s.view.queue .keyboardqueue := by
        change t ∈ s.queue .keyboardqueue
        rw [shape]
        exact List.mem_cons_self
      have woken := typed.unblock orderly.settled.toParked member
      have ran := woken.schedNextRr .interrupted
      have keeps := (Keeps.unblock { s with
        kbd := s.keyStored (charOfScancode scancode beyond) } t).trans
          (Keeps.schedNextRr _ .interrupted)
      dsimp only
      refine .served mode make shape ran.1 keeps.kbd ?_ keeps.readLog ran.2
      rw [keeps.kbd]
      exact wakesReader
    · refine .typed mode make typed rfl (fun wakesReader => ?_) rfl mode
      by_contra waiting
      exact wakes ⟨wakesReader, fun empty => waiting (emptyIff.mp empty)⟩
  · exact .quiet (if_neg make) (not_switched mode) orderly.refines .refl rfl rfl
      (not_switched mode)

/-- `sys_read` fails at once, or waits for the keyboard. -/
theorem sysRead_cases (cbIsEmpty : s.kbd.cbIsEmpty = true) (fd : Int32)
    (buf : UInt32) (count : Int32) :
    (¬ ReadAccepted fd buf count ∧
        ∃ result, s.sysRead fd buf count = (some result, s)) ∨
      (ReadAccepted fd buf count ∧ s.sysRead fd buf count =
        (none, (({ s with kbd := { s.kbd with leftToRead := count.toInt } } :
          Kernel).block s.current .keyboardqueue).schedNextRr
            (.readKeyboard buf count.toInt []))) := by
  unfold sysRead
  dsimp only
  by_cases denied : ¬ accessOk .verifyWrite buf count.toUInt32
  · exact Or.inl ⟨fun accepted => denied accepted.1, _, if_pos denied⟩
  by_cases wrongFd : checkFd fd.toInt false < 0
  · exact Or.inl ⟨fun accepted => absurd accepted.2.1 (by omega), _,
      by rw [if_neg denied, if_pos wrongFd]⟩
  by_cases null : buf = 0
  · exact Or.inl ⟨fun accepted => accepted.2.2.1 null, _,
      by rw [if_neg denied, if_neg wrongFd, if_pos null]⟩
  by_cases negative : count.toInt < 0
  · exact Or.inl ⟨fun accepted => absurd accepted.2.2.2 (by omega), _,
      by rw [if_neg denied, if_neg wrongFd, if_neg null, if_pos negative]⟩
  · refine Or.inr ⟨⟨not_not.mp denied, by omega, null, by omega⟩, ?_⟩
    rw [if_neg denied, if_neg wrongFd, if_neg null, if_neg negative]
    unfold sysReadKeyboard
    exact if_pos (Or.inr cbIsEmpty)

theorem read_effect (orderly : s.Orderly) (mode : s.mode = .user)
    (busy : s.current ≠ s.idleTask) (fd : Int32) (buf : UInt32) (count : Int32) :
    Effect s (.syscall (.read fd buf count))
      (s.systemCall (.read fd buf count)) := by
  have entered := orderly.userToSysStats
  change Effect s _ (complete (s.userToSysStats.sysRead fd buf count))
  rcases sysRead_cases entered.cbIsEmpty fd buf count with
    ⟨rejected, result, failed⟩ | ⟨accepted, waits⟩
  · rw [failed]
    have other : s.input (.syscall (.read fd buf count)) = .other :=
      if_neg rejected
    exact .returned other (not_switched mode) orderly.enter result
  · rw [waits]
    have asking : ({ s.userToSysStats with
        kbd := { s.kbd with leftToRead := count.toInt } } : Kernel).Refines
          s.view := ⟨orderly.refines.threads, rfl⟩
    have ran := asking.blockAndSwitch (q := .keyboardqueue) orderly.settled trivial
      (.readKeyboard buf count.toInt [])
    have keeps := (Keeps.block { s.userToSysStats with
      kbd := { s.kbd with leftToRead := count.toInt } } s.current
        .keyboardqueue).trans
          (Keeps.schedNextRr _ (.readKeyboard buf count.toInt []))
    exact .asked mode busy accepted ran.1 keeps.kbd keeps.readLog ran.2

theorem semWait_effect (orderly : s.Orderly) (mode : s.mode = .user)
    (busy : s.current ≠ s.idleTask) (nSem : Int32) :
    Effect s (.syscall (.semWait nSem)) (s.systemCall (.semWait nSem)) := by
  have entered := orderly.userToSysStats
  have keeps := sysSemWait_keeps s.userToSysStats nSem
  change Effect s _ (complete (s.userToSysStats.sysSemWait nSem))
  rcases sysSemWait_cases entered.refines entered.settled nSem with
    ⟨result, answered, quiet⟩ | ⟨blocked, n, context, fits, refines, switched⟩
  · rw [← Prod.mk.eta (p := s.userToSysStats.sysSemWait nSem), answered]
    exact .returned rfl (not_switched mode) (orderly.enter.trans quiet) result
  · rw [← Prod.mk.eta (p := s.userToSysStats.sysSemWait nSem), blocked]
    have status : StatusOf (.semaphore n) .stBlocked :=
      Or.inr ⟨Or.inr ⟨n, rfl⟩, rfl⟩
    have contexts := orderly.contexts.yieldTo orderly.settled busy status fits
      (List.perm_append_singleton _ _)
    exact .dispatched rfl mode refines
      (.single (.yield busy (by simp) status fits)) contexts.2 keeps.kbd
      keeps.readLog

theorem exit_effect (orderly : s.Orderly) (mode : s.mode = .user)
    (busy : s.current ≠ s.idleTask) :
    Effect s (.syscall .exit) (s.systemCall .exit) := by
  have entered := orderly.userToSysStats
  obtain ⟨middle, quiet, refines, _, kbd, readLog⟩ :=
    sysExit_refines entered.refines entered.settled busy
  have moves : s.view.Moves middle.view := quiet.moves
  have middleBusy : middle.view.current ≠ middle.view.idle := quiet.busy busy
  have contexts := (orderly.contexts.moves orderly.settled moves).exit
    (orderly.settled.moves moves) middleBusy
  exact .dispatched rfl mode refines (moves.tail (.exit middleBusy)) contexts.2 kbd
    readLog

/-- The loop of `sys_write` only prints. -/
theorem writeChunks_cases (buffer : UInt32) (size : Nat) :
    ∀ (chunks : List Nat) (ret : Int) (s : Kernel), ∃ console fault,
      (chunks.foldl (writeChunk buffer size) (ret, s)).2 =
        { s with console := console, mm := { s.mm with fault := fault } }
  | [], _, s => ⟨s.console, s.mm.fault, rfl⟩
  | chunk :: chunks, ret, s => by
      rw [List.foldl_cons]
      unfold writeChunk
      dsimp only
      split
      · next values _ =>
          exact writeChunks_cases buffer size chunks _
            { s with console := s.console ++ values }
      · exact writeChunks_cases buffer size chunks ret
          { s with mm := { s.mm with fault := true } }

theorem sysWrite_cases (s : Kernel) (fd : Int32) (buffer : UInt32)
    (size : Int32) : ∃ console fault, (s.sysWrite fd buffer size).2 =
      { s with console := console, mm := { s.mm with fault := fault } } := by
  unfold sysWrite
  dsimp only
  split_ifs
  · exact ⟨s.console, s.mm.fault, rfl⟩
  · exact ⟨s.console, s.mm.fault, rfl⟩
  · exact ⟨s.console, s.mm.fault, rfl⟩
  · exact writeChunks_cases buffer _ _ 0 s

theorem sysWrite_quiet (refines : s.Refines s.view) (fd : Int32)
    (buffer : UInt32) (size : Int32) : s.Quiet (s.sysWrite fd buffer size).2 := by
  obtain ⟨console, fault, written⟩ := s.sysWrite_cases fd buffer size
  rw [written]
  exact Quiet.of_view ⟨refines.threads, rfl⟩ rfl rfl

/-- `sys_get_stats` changes statistics and user memory only. -/
theorem sysGetStats_cases (s : Kernel) (pid : Int32) (st : UInt32) :
    ∃ stats ram fault, (s.sysGetStats pid st).2 =
      { s with stats := stats, mm := { s.mm with ram := ram, fault := fault } } := by
  have nothing : ∃ stats ram fault, s =
      { s with stats := stats, mm := { s.mm with ram := ram, fault := fault } } :=
    ⟨s.stats, s.mm.ram, s.mm.fault, rfl⟩
  have copied : ∀ (s' : Kernel) (values : List UInt8), ∃ ram fault,
      s'.copyToUser values st =
        { s' with mm := { s'.mm with ram := ram, fault := fault } } := by
    intro s' values
    obtain ⟨ram, fault, same⟩ := Memory.copyToUser_cases s'.cr3 values st s'.mm
    exact ⟨ram, fault, by rw [copyToUser, same]⟩
  unfold sysGetStats
  by_cases negative : pid.toInt < 0
  · rw [if_pos negative]
    exact nothing
  by_cases null : st = 0
  · rw [if_neg negative, if_pos null]
    exact nothing
  by_cases denied : ¬ accessOk .verifyWrite st 28
  · rw [if_neg negative, if_neg null, if_pos denied]
    exact nothing
  rw [if_neg negative, if_neg null, if_neg denied]
  split_ifs with own
  · obtain ⟨ram, fault, same⟩ := copied s (s.stats s.current).bytes
    exact ⟨s.stats, ram, fault, same⟩
  · split
    · next i _ =>
        let marked := s.modStats i fun found =>
          { found with remainingTicks := (s.stats s.current).remainingTicks }
        obtain ⟨ram, fault, same⟩ := copied marked (marked.stats i).bytes
        exact ⟨marked.stats, ram, fault, same⟩
    · exact nothing

theorem sysSbrk_quiet (refines : s.Refines s.view) (increment : Int32) :
    s.Quiet (s.sysSbrk increment).2 := by
  have heapOnly := HeapOnly.sysSbrk increment s.currentTask s.mm
  have changed := refines.modTask_same s.current
    (fun _ => (Zeos.sysSbrk increment s.currentTask s.mm).2.1)
    heapOnly.execStatus
  exact Quiet.of_view ⟨changed.threads, changed.view⟩ rfl rfl

theorem sysGetStats_quiet (refines : s.Refines s.view) (pid : Int32)
    (st : UInt32) : s.Quiet (s.sysGetStats pid st).2 := by
  obtain ⟨stats, ram, fault, same⟩ := s.sysGetStats_cases pid st
  rw [same]
  exact Quiet.of_view ⟨refines.threads, rfl⟩ rfl rfl

theorem syscall_effect (orderly : s.Orderly) (mode : s.mode = .user)
    (busy : s.current ≠ s.idleTask) (call : Syscall) : Effect s (.syscall call) (s.systemCall call) := by
  have entered := orderly.userToSysStats
  have refines := entered.refines
  have settled := entered.settled
  have user := not_switched (s := s) (P := ¬ (s.context s.current).Reading) mode
  cases call with
  | exit => exact exit_effect orderly mode busy
  | fork =>
      exact .returned rfl user (orderly.enter.trans
        (sysFork_quiet refines settled busy)) _
  | read fd buf count => exact read_effect orderly mode busy fd buf count
  | write fd buffer size =>
      exact .returned rfl user (orderly.enter.trans
        (sysWrite_quiet refines fd buffer size)) _
  | gettime => exact .returned rfl user orderly.enter _
  | sbrk increment =>
      exact .returned rfl user (orderly.enter.trans
        (sysSbrk_quiet refines increment)) _
  | clone function stack =>
      exact .returned rfl user (orderly.enter.trans
        (sysClone_quiet refines settled busy function stack)) _
  | getpid => exact .returned rfl user orderly.enter _
  | semInit nSem value =>
      exact .returned rfl user (orderly.enter.trans
        (sysSemInit_quiet refines nSem value)) _
  | semWait nSem => exact semWait_effect orderly mode busy nSem
  | semSignal nSem =>
      exact .returned rfl user (orderly.enter.trans
        (sysSemSignal_quiet refines settled busy nSem).1) _
  | semDestroy nSem =>
      exact .returned rfl user (orderly.enter.trans
        (sysSemDestroy_quiet refines settled busy nSem).1) _
  | getStats pid st =>
      exact .returned rfl user (orderly.enter.trans
        (sysGetStats_quiet refines pid st)) _
  | niSyscall => exact .returned rfl user orderly.enter _

theorem reader_effect (orderly : s.Orderly) (mode : s.mode = .switched)
    {buf : UInt32} {n : Int} {stored : List UInt8}
    (reading : s.context s.current = .readKeyboard buf n stored) :
    Effect s .resume (complete (s.readLoop buf n stored)) := by
  have taken : ({ s with kbd := (deliver n stored s.kbd).2 } : Kernel).Refines
      s.view := ⟨orderly.refines.threads, rfl⟩
  rw [readLoop_eq]
  dsimp only
  split_ifs with more
  · have ran := taken.comeBack orderly.settled
      (.readKeyboard buf n (deliver n stored s.kbd).1)
    have keeps := (Keeps.modTask
      ((({ s with kbd := (deliver n stored s.kbd).2 } : Kernel).listAdd s.current
        .keyboardqueue).sysToReadyStats) s.current .stBlocked).trans
          (Keeps.schedNextRr _ (.readKeyboard buf n (deliver n stored s.kbd).1))
    exact .again mode reading more ran.1 keeps.kbd keeps.readLog ran.2
  · exact .delivered mode reading (by omega)
      ⟨orderly.refines.threads, rfl⟩ rfl rfl rfl

theorem request_eq_none {t : TaskId} {context : Context} :
    context.request t = none ↔ ¬ context.Reading := by
  cases context <;> simp [Context.request, Context.Reading]

/-- A process that is not inside `sys_read_keyboard` goes on. -/
theorem resume_other {context : Context} (saved : s.context s.current = context)
    (other : ¬ context.Reading) :
    s.input .resume = .other ∧
      (s.mode = .switched → ¬ (s.context s.current).Reading) := by
  subst saved
  refine ⟨?_, fun _ => other⟩
  have noRequest := (request_eq_none (t := s.current)).mpr other
  have inactive : s.driver.active = none := by
    unfold driver
    split_ifs
    · exact noRequest
    · rfl
  exact if_neg (by rw [inactive]; exact nofun)

theorem resume_effect (orderly : s.Orderly) (mode : s.mode = .switched) :
    Effect s .resume s.resume := by
  have same : s.Quiet s := Quiet.refl orderly.refines
  unfold resume
  split
  · next context =>
      have other := resume_other context (by simp [Context.Reading])
      exact .quiet other.1 other.2 ⟨orderly.refines.threads, rfl⟩ .refl rfl rfl
        (not_switched rfl)
  · next context =>
      have other := resume_other context (by simp [Context.Reading])
      exact .quiet other.1 other.2 ⟨orderly.refines.threads, rfl⟩ .refl rfl rfl
        (not_switched rfl)
  · next context =>
      have other := resume_other context (by simp [Context.Reading])
      exact .returned other.1 other.2 same _
  · next context =>
      have other := resume_other context (by simp [Context.Reading])
      exact .returned other.1 other.2 same _
  · next reading => exact reader_effect orderly mode reading
  · next context =>
      have other := resume_other context (by simp [Context.Reading])
      exact .returned other.1 other.2 same _

/-- The inversion of one reaction of the kernel. -/
theorem handle_effect (orderly : s.Orderly)
    (handled : s.handle event = some s') : Effect s event s' := by
  cases event with
  | clock =>
      by_cases mode : s.mode = .user
      · rw [handle, if_pos mode] at handled
        cases handled
        exact clock_effect orderly mode
      · rw [handle, if_neg mode] at handled
        cases handled
  | keyboard scancode beyond =>
      by_cases mode : s.mode = .user
      · rw [handle, if_pos mode] at handled
        cases handled
        exact keyboard_effect orderly mode scancode beyond
      · rw [handle, if_neg mode] at handled
        cases handled
  | syscall call =>
      by_cases able : s.mode = .user ∧ s.current ≠ s.idleTask
      · rw [handle, if_pos able] at handled
        cases handled
        exact syscall_effect orderly able.1 able.2 call
      · rw [handle, if_neg able] at handled
        cases handled
  | badSyscall =>
      by_cases able : s.mode = .user ∧ s.current ≠ s.idleTask
      · rw [handle, if_pos able] at handled
        cases handled
        exact .quiet rfl (not_switched able.1) ⟨orderly.refines.threads, rfl⟩ .refl
          rfl rfl (not_switched able.1)
      · rw [handle, if_neg able] at handled
        cases handled
  | resume =>
      by_cases mode : s.mode = .switched
      · rw [handle, if_pos mode] at handled
        cases handled
        exact resume_effect orderly mode
      · rw [handle, if_neg mode] at handled
        cases handled

end Kernel

end Zeos
