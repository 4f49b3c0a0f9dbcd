import Zeos.Sched.Boot

/-!
# The scheduler in every reachable state

`Orderly` holds after boot and is kept by every step, so the queues are
exclusive in every reachable state.  No process is lost in a run in which no
key wakes a reader while another process runs; a key that does so makes the
kernel forget the running process.
-/

namespace Zeos

namespace Kernel

variable {s s' : Kernel} {event : Event}

theorem boot_orderly (image : BootImage) : (boot image).Orderly := by
  have refines := boot_refines image
  have queues : ∀ q, q ≠ .freequeue → bootView.queue q = [] := by
    intro q notFree
    simp [bootView, notFree]
  have members : ∀ t q, t ∈ bootView.queue q → q = .freequeue := by
    intro t q member
    by_contra notFree
    rw [queues q notFree] at member
    cases member
  have waitingNotFree : ∀ q, Waiting q → q ≠ .freequeue := by
    rintro q (isKeyboard | ⟨n, isSemaphore⟩) <;> simp [*]
  refine ⟨refines.self, ?_, ?_, ?_⟩
  · rw [refines.view]
    refine
      { nodup := ?_, exclusive := ?_, unused := rfl, idleLive := rfl,
        idleLoose := ?_, free := by decide, ready := by decide, blocked := ?_,
        currentLive := rfl, currentRun := rfl, currentLoose := ?_,
        idleAlone := by decide }
    · intro q
      by_cases isFree : q = .freequeue
      · subst isFree
        decide
      · rw [queues q isFree]
        exact List.nodup_nil
    · intro t q r inFirst inSecond
      rw [members t q inFirst, members t r inSecond]
    · intro q member
      rw [members _ q member] at member
      revert member
      decide
    · intro t _ _
      refine iff_of_false (by simp [bootView]) ?_
      rintro ⟨q, waiting, member⟩
      exact waitingNotFree q waiting (members t q member)
    · intro q member
      rw [members _ q member] at member
      revert member
      decide
  · rw [refines.view]
    refine ⟨by simp [queues], ?_, by simp [bootView, Context.Reading]⟩
    intro q _ notFree t member
    exact absurd (members t q member) notFree
  · rfl

theorem keyStored_cbIsEmpty (cbIsEmpty : s.kbd.cbIsEmpty = true) (c : UInt8) :
    (s.keyStored c).cbIsEmpty = true := by
  unfold keyStored
  split_ifs
  · exact cbIsEmpty
  · exact Keyboard.putC_cbIsEmpty cbIsEmpty c _

theorem deliver_cbIsEmpty {kbd : Keyboard} (cbIsEmpty : kbd.cbIsEmpty = true)
    (n : Int) (stored : List UInt8) :
    (deliver n stored kbd).2.cbIsEmpty = true := by
  unfold deliver
  split_ifs
  · exact (Keyboard.drain_spec bufferSize kbd
      (Nat.le_of_lt kbd.charsInCirc_lt)).2.2.2.2.2 cbIsEmpty
  · exact cbIsEmpty

/-- Whoever is inside the loop of `sys_read_keyboard` is not the idle process. -/
theorem Orderly.reader_busy (orderly : s.Orderly) {buf : UInt32} {n : Int}
    {stored : List UInt8}
    (reading : s.context s.current = .readKeyboard buf n stored) :
    s.view.current ≠ s.view.idle := by
  intro resting
  apply orderly.contexts.idle
  rw [← resting]
  change (s.context s.current).Reading
  rw [reading]
  trivial

theorem Orderly.effect (orderly : s.Orderly) (effect : Effect s event s') :
    s'.Orderly := by
  obtain ⟨_, settled, contexts, cbIsEmpty⟩ := orderly
  cases effect with
  | quiet _ _ refines moves kbd _ _ =>
      exact ⟨refines, settled.moves moves, contexts.moves settled moves,
        kbd ▸ cbIsEmpty⟩
  | typed _ _ refines kbd _ _ _ =>
      refine ⟨refines.self, ?_, ?_, ?_⟩
      · rw [refines.view]
        exact settled
      · rw [refines.view]
        exact contexts
      · rw [kbd]
        exact keyStored_cbIsEmpty cbIsEmpty _
  | served _ _ shape refines kbd _ _ _ =>
      have member : _ ∈ s.view.queue .keyboardqueue :=
        (congrArg _ shape).mpr List.mem_cons_self
      refine ⟨refines.self, ?_, ?_, ?_⟩
      · rw [refines.view]
        exact settled.serve member
      · rw [refines.view]
        exact contexts.serve settled _
      · rw [kbd]
        exact keyStored_cbIsEmpty cbIsEmpty _
  | asked _ busy _ refines kbd _ _ =>
      refine ⟨refines.self, ?_, ?_, ?_⟩
      · rw [refines.view]
        exact settled.arrive busy _
      · rw [refines.view]
        exact (contexts.arrive settled busy
          (Context.reading_readKeyboard _ _ _)).1
      · rw [kbd]
        exact cbIsEmpty
  | delivered _ _ _ refines kbd _ _ =>
      refine ⟨refines.self, ?_, ?_, ?_⟩
      · rw [refines.view]
        exact settled
      · rw [refines.view]
        exact contexts
      · rw [kbd]
        exact deliver_cbIsEmpty cbIsEmpty _ _
  | again _ reading _ refines kbd _ _ =>
      have busy := Orderly.reader_busy ⟨‹_›, settled, contexts, cbIsEmpty⟩ reading
      refine ⟨refines.self, ?_, ?_, ?_⟩
      · rw [refines.view]
        exact settled.comeBack busy _
      · rw [refines.view]
        exact (contexts.comeBack settled busy
          (Context.reading_readKeyboard _ _ _)).1
      · rw [kbd]
        exact deliver_cbIsEmpty cbIsEmpty _ _

theorem Orderly.step (orderly : s.Orderly) (taken : s.step event = some s') :
    s'.Orderly :=
  orderly.effect (handle_effect orderly (handle_of_step taken))

/-- The scheduler and the keyboard driver are in order in every run. -/
theorem orderly_of_reachable {image : BootImage} (run : Reachable image s) :
    s.Orderly :=
  run.invariant (boot_orderly image) fun _ _ _ orderly _ taken =>
    orderly.step taken

/-! ## Queue exclusivity -/

/-- Every PCB is where its owner's state says, and nowhere else. -/
structure QueueExclusivity (s : Kernel) : Prop where
  /-- The queues are well-formed circular lists. -/
  wellFormed : ∀ q, Active s.semaphores q →
    s.links.Ring (.head q) ((s.queue q).map Node.pcb)
  exclusive : ∀ t q r, t ∈ s.queue q → t ∈ s.queue r → q = r
  running : ∀ q, s.current ∉ s.queue q
  /-- The `list` field of a PCB is set only while it is in a queue. -/
  linked : ∀ t, s.linked t = true ↔ ∃ q, Active s.semaphores q ∧ t ∈ s.queue q
  free : ∀ t, t ∈ s.queue .freequeue ↔ s.live t = false
  idle : s.live s.idleTask = true
  ready : ∀ t, s.live t = true → t ≠ s.idleTask →
    ((s.task t).execStatus = .stReady ↔ t ∈ s.queue .readyqueue)
  blocked : ∀ t, s.live t = true → t ≠ s.idleTask →
    ((s.task t).execStatus = .stBlocked ↔
      t ∈ s.queue .keyboardqueue ∨
        ∃ n, 0 ≤ (s.semaphores n).ownerPID ∧ t ∈ s.queue (.semaphore n))

theorem Orderly.linked_iff (orderly : s.Orderly) (t : TaskId) :
    s.linked t = true ↔ ∃ q, Active s.semaphores q ∧ t ∈ s.queue q := by
  constructor
  · intro linked
    by_contra nowhere
    have loose : s.view.Loose t := fun q member =>
      nowhere ⟨q, orderly.refines.active_of_mem member, member⟩
    rw [orderly.refines.unlinked loose] at linked
    cases linked
  · rintro ⟨q, active, member⟩
    have ring := orderly.refines.threads.family.ring q active
    obtain ⟨front, back, shape⟩ := List.append_of_mem
      (List.mem_map_of_mem (f := Node.pcb) member)
    have pointers := (shape ▸ ring).neighbours
    simp [Kernel.linked, pointers.1]

theorem Orderly.queueExclusivity (orderly : s.Orderly) : QueueExclusivity s where
  wellFormed := orderly.refines.threads.family.ring
  exclusive := orderly.settled.exclusive
  running := orderly.settled.currentLoose
  linked := orderly.linked_iff
  free := orderly.settled.free
  idle := orderly.settled.idleLive
  ready := orderly.settled.ready
  blocked t live notIdle := by
    refine (orderly.settled.blocked t live notIdle).trans ⟨?_, ?_⟩
    · rintro ⟨q, isKeyboard | ⟨n, isSemaphore⟩, member⟩
      · exact Or.inl (isKeyboard ▸ member)
      · subst isSemaphore
        exact Or.inr ⟨n, orderly.refines.active_of_mem member, member⟩
    · rintro (member | ⟨n, _, member⟩)
      · exact ⟨.keyboardqueue, Or.inl rfl, member⟩
      · exact ⟨.semaphore n, Or.inr ⟨n, rfl⟩, member⟩

/-- In every run of the kernel in which the buffers fit, the queues are exclusive,
and no reaction to an event whose buffer fits, also one that ends in an exception,
applies `list_del` to an unlinked PCB or `list_add` to a linked one. -/
theorem queue_exclusivity {image : BootImage}
    (run : Library.Reach advance BuffersFit (boot image) s) :
    QueueExclusivity s ∧ s.listFault = false ∧
      ∀ event s', s.BuffersFit event → s.handle event = some s' → s'.listFault = false := by
  have orderly := orderly_of_reachable (reachable_iff.mpr run)
  refine ⟨orderly.queueExclusivity, orderly.refines.threads.noFault, ?_⟩
  intro event s' _ handled
  have after := orderly.effect (handle_effect orderly handled)
  exact after.refines.threads.noFault

theorem queue_exclusivity_forked :
    let events : List Event := [.syscall (.semInit 3 0), .syscall .fork,
      .syscall (.semWait 3), .resume, .syscall (.read 0 0x108000 3760)]
    ∃ s, Library.runEvents (Library.guarded advance BuffersFit) (boot sampleImage) events =
        some s ∧
      QueueExclusivity s ∧ s.listFault = false ∧
        ∀ event s', s.BuffersFit event → s.handle event = some s' → s'.listFault = false := by
  intro events
  have possible : (Library.runEvents (Library.guarded advance BuffersFit) (boot sampleImage)
      events).isSome = true := by decide +kernel
  obtain ⟨s, finished⟩ := Option.isSome_iff_exists.mp possible
  exact ⟨s, finished, queue_exclusivity (Library.Reach.of_guarded finished)⟩

/-- Process 1 reads more than its stack page has room for, so that `current` is idle: idle
is linked in `keyboardqueue`, dispatched, and linked again. -/
theorem linked_twice :
    ∃ s, Library.Reach advance (fun _ _ => True) (boot sampleImage) s ∧
      s.current ∈ s.queue .keyboardqueue ∧ s.listFault = true := by
  obtain ⟨s, finished, seen⟩ := (Option.any_eq_true _ _).mp
    (show (Library.runEvents advance (boot sampleImage)
      [.syscall (.read 0 0x108000 5000), .resume]).any (fun s =>
        decide (s.current ∈ s.queue .keyboardqueue ∧ s.listFault = true)) = true by
      decide +kernel)
  have run : Library.Reach advance (fun _ _ => True) (boot sampleImage) s :=
    .of_runEvents .start (fun _ _ _ => trivial) finished
  exact ⟨s, run, of_decide_eq_true seen⟩

/-! ## Lost processes -/

/-- No process is lost: each one that exists runs or is linked in a queue. -/
def NoProcessLost (s : Kernel) : Prop :=
  ∀ t, s.live t = true → t ≠ s.idleTask →
    t = s.current ∨ t ∈ s.queue .readyqueue ∨ t ∈ s.queue .keyboardqueue ∨
      ∃ n, 0 ≤ (s.semaphores n).ownerPID ∧ t ∈ s.queue (.semaphore n)

instance (s : Kernel) : Decidable (NoProcessLost s) := by
  unfold NoProcessLost
  infer_instance

/-- The event is not a key that wakes a reader while a process other than idle
runs. -/
def Unobtrusive (s : Kernel) : Event → Prop
  | .keyboard scancode beyond =>
      scancode &&& 0x80 ≠ 0 → s.queue .keyboardqueue ≠ [] →
        wakesReader (s.keyStored (charOfScancode scancode beyond)) = true →
          s.current = s.idleTask
  | _ => True

theorem Orderly.noProcessLost_iff (orderly : s.Orderly) :
    NoProcessLost s ↔ s.view.Lossless := by
  refine forall_congr' fun t => imp_congr_right fun _ => imp_congr_right fun _ =>
    or_congr_right ?_
  constructor
  · rintro (ready | reading | ⟨n, _, waiting⟩)
    · exact ⟨.readyqueue, by decide, ready⟩
    · exact ⟨.keyboardqueue, by decide, reading⟩
    · exact ⟨.semaphore n, by simp, waiting⟩
  · rintro ⟨q, notFree, member⟩
    cases q with
    | freequeue => exact absurd rfl notFree
    | readyqueue => exact Or.inl member
    | blocked =>
        rw [orderly.settled.unused] at member
        cases member
    | keyboardqueue => exact Or.inr (Or.inl member)
    | semaphore n =>
        exact Or.inr (Or.inr ⟨n, orderly.refines.active_of_mem member, member⟩)

theorem lossless_effect (orderly : s.Orderly) (lossless : s.view.Lossless)
    (unobtrusive : Unobtrusive s event) (effect : Effect s event s') :
    s'.view.Lossless := by
  have settled := orderly.settled
  cases effect with
  | quiet _ _ _ moves _ _ _ => exact lossless.moves settled moves
  | typed _ _ refines _ _ _ _ =>
      rw [refines.view]
      exact lossless
  | served _ make shape refines kbd wakes _ _ =>
      rw [refines.view]
      have member : _ ∈ s.view.queue .keyboardqueue :=
        (congrArg _ shape).mpr List.mem_cons_self
      have resting := unobtrusive make (by rw [shape]; simp) (kbd ▸ wakes)
      exact lossless.serve settled member resting
  | asked _ busy _ refines _ _ _ =>
      rw [refines.view]
      exact lossless.arrive settled busy _
  | delivered _ _ _ refines _ _ _ =>
      rw [refines.view]
      exact lossless
  | again _ reading _ refines _ _ _ =>
      rw [refines.view]
      exact lossless.comeBack settled (orderly.reader_busy reading) _

/-- In a run in which all buffers fit and no key wakes a reader while a process other
than idle runs, no process is lost. -/
theorem no_process_lost {image : BootImage}
    (run : ReachableUnder Unobtrusive image s) : NoProcessLost s := by
  have lossless : s.view.Lossless := by
    refine Library.Reach.invariant_over (fun state => state.view.Lossless) ?_
      (fun _ plain => orderly_of_reachable plain) ?_ run
    · rw [(boot_refines image).view]
      intro t live notIdle
      left
      revert t
      decide
    · intro before event after orderly lossless unobtrusive taken
      exact lossless_effect orderly lossless unobtrusive
        (handle_effect orderly (handle_of_step taken))
  have plain : Reachable image s := run.mono fun _ _ _ => trivial
  exact (orderly_of_reachable plain).noProcessLost_iff.mpr lossless

theorem no_process_lost_forked :
    let events : List Event := [.syscall .fork, .syscall (.semInit 3 0),
      .syscall (.semWait 3), .resume]
    ∃ s, Library.runEvents step (boot sampleImage) events = some s ∧ NoProcessLost s := by
  intro events
  have possible : (Library.runEvents step (boot sampleImage) events).isSome = true := by
    decide +kernel
  obtain ⟨s, finished⟩ := Option.isSome_iff_exists.mp possible
  have run : ReachableUnder Unobtrusive sampleImage s :=
    .of_runEvents .start (by simp [events, Unobtrusive]) finished
  exact ⟨s, finished, no_process_lost run⟩

/-- A thread reads the keyboard, its sibling runs, and a key is pressed: the
sibling is in no queue. -/
theorem process_lost_by_key :
    ∃ s, Reachable sampleImage s ∧ s.mode = .user ∧ ¬ NoProcessLost s :=
  ⟨Library.lastState step (boot sampleImage)
    [.syscall (.clone 0x100000 0x110000), .syscall (.read 0 0x10A000 1), .resume,
      .keyboard 0x9E 0, .resume],
    Library.Reach.lastState fun _ _ _ => trivial, by decide +kernel⟩

end Kernel

end Zeos
