import Zeos.Console.Buffers
import Zeos.Console.Chunks
import Zeos.Sched.Overtaking
import Zeos.Stats.Slices

/-!
# The quantum

The process that runs has at least one tick left of its quantum, and never more
than the quantum, whatever wrote `remaining_ticks`.  So once another process is
ready, the running one is replaced after at most that many ticks: only a dispatch
takes a process out of `readyqueue`.  This is so while the buffers of `read` and
`write` fit the stack; both words are in the PCB, and a `write` that does not fit
can be made to clear them.
-/

namespace Zeos

namespace Kernel

variable {s s' : Kernel} {event : Event} {image : BootImage}

/-- Every process has the default quantum, and the one that runs has some of it
left. -/
structure Sliced (s : Kernel) : Prop where
  granted : ∀ t, s.live t = true → (s.task t).quantum = defaultQuantum
  left : 1 ≤ (s.remaining s.current).toNat
  within : ((s.remaining s.current).toNat : Int) ≤ defaultQuantum

/-- A new slice is a whole quantum. -/
theorem getQuantum_toNat {t : TaskId} (granted : (s.task t).quantum = defaultQuantum) :
    ((s.getQuantum t).toNat : Int) = defaultQuantum := by
  unfold getQuantum
  rw [granted]
  decide

theorem toNat_pred {word : UInt32} (positive : 1 ≤ word.toNat) :
    (word - 1).toNat = word.toNat - 1 :=
  UInt32.toNat_sub_of_le _ _ (UInt32.le_iff_toNat_le.mpr positive)

/-- The process that runs has a new slice. -/
theorem Sliced.renew (granted : ∀ t, s.live t = true → (s.task t).quantum = defaultQuantum)
    (live : s.live s.current = true)
    (renewed : s.remaining s.current = s.getQuantum s.current) : s.Sliced := by
  have whole := getQuantum_toNat (granted s.current live)
  rw [← renewed] at whole
  have positive : (1 : Int) ≤ defaultQuantum := by decide
  exact ⟨granted, by omega, by omega⟩

/-- The process that runs keeps its slice. -/
theorem Sliced.keep (sliced : s.Sliced)
    (granted : ∀ t, s'.live t = true → (s'.task t).quantum = defaultQuantum)
    (current : s'.current = s.current)
    (remaining : s'.remaining s.current = s.remaining s.current) : s'.Sliced := by
  refine ⟨granted, ?_, ?_⟩
  · rw [current, remaining]
    exact sliced.left
  · rw [current, remaining]
    exact sliced.within

/-- What the steps do with quanta. -/
theorem SliceTurn.granted (turn : SliceTurn s event s') (live : s.live s.current = true)
    (granted : ∀ t, s.live t = true → (s.task t).quantum = defaultQuantum) (t : TaskId)
    (alive : s'.live t = true) : (s'.task t).quantum = defaultQuantum := by
  cases turn with
  | goesOn _ accrues same _ =>
      rw [same] at alive
      exact (accrues.quantum t (Or.inr alive)).trans (granted t alive)
  | ticks ticks _ =>
      rw [ticks.live] at alive
      exact (ticks.quantum t).trans (granted t alive)
  | preempted _ accrues handsOver same _ =>
      rw [same] at alive
      exact ((handsOver.quantum t).trans (accrues.quantum t (Or.inr alive))).trans
        (granted t alive)
  | yields _ accrues handsOver before _ =>
      have aliveBefore := before t alive
      exact ((handsOver.quantum t).trans (accrues.quantum t (Or.inr aliveBefore))).trans
        (granted t aliveBefore)
  | @starts _ child _ starts _ =>
      by_cases isChild : t = child
      · subst isChild
        exact starts.inherited.trans (granted s.current live)
      · rw [starts.live, Function.update_of_ne isChild] at alive
        exact (starts.quantum t alive).trans (granted t alive)

theorem Sliced.turn (sliced : s.Sliced) (live : s.live s.current = true)
    (liveAfter : s'.live s'.current = true) (turn : SliceTurn s event s') : s'.Sliced := by
  have granted := turn.granted live sliced.granted
  cases turn with
  | goesOn _ accrues _ _ => exact sliced.keep granted accrues.current accrues.remaining
  | ticks ticks _ =>
      rcases ticks.counted with ⟨more, less⟩ | ⟨_, _, renewed⟩
      · have pred : (s'.remaining s'.current).toNat = (s.remaining s.current).toNat - 1 := by
          rw [ticks.current, less]
          exact toNat_pred sliced.left
        have notLast : (s.remaining s.current).toNat ≠ 1 := fun one =>
          more (UInt32.toNat_inj.mp one)
        have left := sliced.left
        have within := sliced.within
        exact ⟨granted, by omega, by omega⟩
      · apply Sliced.renew granted liveAfter
        rw [ticks.current, renewed]
        unfold getQuantum
        rw [ticks.quantum]
  | preempted _ _ handsOver _ _ => exact .renew granted liveAfter handsOver.renewed
  | yields _ _ handsOver _ _ => exact .renew granted liveAfter handsOver.renewed
  | starts starts _ => exact sliced.keep granted starts.current starts.remaining

theorem boot_sliced (image : BootImage) : (boot image).Sliced := by
  have current : (boot image).current = 1 := congrArg View.current (boot_refines image).view
  have idle : ((boot image).task 0).quantum = defaultQuantum := rfl
  have first : ((boot image).task 1).quantum = defaultQuantum := rfl
  have remaining : ((boot image).stats 1).remainingTicks = UInt32.ofInt defaultQuantum := rfl
  refine ⟨fun t alive => ?_, ?_, ?_⟩
  · rcases boot_live alive with rfl | rfl
    · exact idle
    · exact first
  · rw [current]
    unfold Kernel.remaining
    rw [remaining]
    decide
  · rw [current]
    unfold Kernel.remaining
    rw [remaining]
    decide

theorem sliced_of_reachable (reachable : Reachable image s) : s.Sliced := by
  refine Library.Reach.invariant_over Sliced (boot_sliced image)
    (fun _ plain => orderly_of_reachable plain) ?_ reachable
  intro before event after orderly sliced _ taken
  exact sliced.turn orderly.settled.currentLive (orderly.step taken).settled.currentLive
    (slice_of_step orderly taken)

/-! ## Replacement -/

/-- A dispatch takes the processor away from the process that ran, if another one
is ready. -/
theorem ReadyTurn.replaced (turn : ReadyTurn s s') (settled : s.view.Settled)
    (busy : s.queue .readyqueue ≠ []) (mode : s'.mode = .switched) :
    s'.current ≠ s.current := by
  obtain ⟨front, back, woken, moved⟩ := turn
  rcases moved with ⟨user, _⟩ | ⟨_, line⟩ | empty
  · rw [mode] at user
    cases user
  · have first : s'.current ∈ front ++ s.queue .readyqueue := by
      cases shape : front ++ s.queue .readyqueue with
      | nil => exact absurd (List.append_eq_nil_iff.mp shape).2 busy
      | cons t rest =>
          rw [shape] at line
          rw [(List.cons.inj line).1]
          exact List.mem_cons_self
    intro same
    rw [same] at first
    rcases List.mem_append.mp first with inFront | ready
    · exact not_waits settled (Or.inr rfl) (woken s.current inFront).1
    · exact settled.currentLoose .readyqueue ready
  · exact absurd empty busy

/-- Unless there is a dispatch, who is ready stays ready. -/
theorem ReadyTurn.still_busy (turn : ReadyTurn s s') (busy : s.queue .readyqueue ≠ [])
    (notSwitched : s'.mode ≠ .switched) : s'.queue .readyqueue ≠ [] := by
  obtain ⟨front, back, _, moved⟩ := turn
  rcases moved with ⟨_, queue⟩ | ⟨switched, _⟩ | empty
  · rw [queue]
    simp [busy]
  · exact absurd switched notSwitched
  · exact absurd empty busy

/-- A step after which the same process runs, while another one is ready, takes one
tick from its slice if it is a tick of the clock. -/
theorem SliceTurn.countdown (turn : SliceTurn s event s') (sliced : s.Sliced)
    (busy : s.queue .readyqueue ≠ []) (notSwitched : s'.mode ≠ .switched) :
    s'.current = s.current ∧
      (s.remaining s.current).toNat =
        (s'.remaining s.current).toNat + List.count Event.clock [event] := by
  cases turn with
  | goesOn notClock accrues _ _ =>
      refine ⟨accrues.current, ?_⟩
      rw [accrues.remaining, List.count_singleton, beq_eq_false_iff_ne.mpr notClock]
      rfl
  | ticks ticks _ =>
      refine ⟨ticks.current, ?_⟩
      rcases ticks.counted with ⟨_, less⟩ | ⟨_, empty, _⟩
      · have left := sliced.left
        rw [less, toNat_pred left, List.count_singleton, beq_self_eq_true, if_pos rfl]
        omega
      · exact absurd empty busy
  | preempted _ _ _ _ mode => exact absurd mode notSwitched
  | yields _ _ _ _ mode => exact absurd mode notSwitched
  | starts starts _ => exact ⟨starts.current, by rw [starts.remaining]; rfl⟩

/-- While another process is ready, the one that runs is replaced by the time the
ticks of its slice are over. -/
theorem replaced_within :
    ∀ {events : List Event} {s last : Kernel}, Reachable image s →
      s.queue .readyqueue ≠ [] → Library.runEvents step s events = some last →
      (s.remaining s.current).toNat ≤ events.count .clock →
      ∃ before after middle, events = before ++ after ∧
        Library.runEvents step s before = some middle ∧ middle.current ≠ s.current
  | [], s, _, reachable, _, _, enough => by
      have left := (sliced_of_reachable reachable).left
      rw [List.count_nil] at enough
      omega
  | event :: events, s, last, reachable, busy, run, enough => by
      obtain ⟨next, taken, rest⟩ := Option.bind_eq_some_iff.mp run
      have orderly := orderly_of_reachable reachable
      have ready := (turn_of_step orderly taken).ready (orderly.step taken)
      by_cases switched : next.mode = .switched
      · refine ⟨[event], events, next, rfl, ?_, ready.replaced orderly.settled busy switched⟩
        exact Option.bind_eq_some_iff.mpr ⟨next, taken, rfl⟩
      · obtain ⟨current, countdown⟩ := (slice_of_step orderly taken).countdown
          (sliced_of_reachable reachable) busy switched
        have fewer : (next.remaining next.current).toNat ≤ events.count .clock := by
          rw [← List.singleton_append, List.count_append] at enough
          rw [current]
          omega
        obtain ⟨before, after, middle, split, later, replaced⟩ :=
          replaced_within (reachable.step trivial taken) (ready.still_busy busy switched)
            rest fewer
        refine ⟨event :: before, after, middle, ?_, ?_, current ▸ replaced⟩
        · rw [split, List.cons_append]
        · exact Option.bind_eq_some_iff.mpr ⟨next, taken, later⟩

/-- In the runs in which the buffers fit, the process that runs has at least one and at
most a quantum of ticks left, and once another process is ready it is replaced within a
quantum of ticks. -/
theorem quantum_respected (run : Library.Reach advance BuffersFit (boot image) s) :
    (1 ≤ (s.remaining s.current).toNat ∧
        ((s.remaining s.current).toNat : Int) ≤ s.currentTask.quantum) ∧
      ∀ events last, s.queue .readyqueue ≠ [] →
        Library.runEvents step s events = some last →
        s.currentTask.quantum ≤ events.count .clock →
        ∃ before after middle, events = before ++ after ∧
          Library.runEvents step s before = some middle ∧ middle.current ≠ s.current := by
  have reachable : Reachable image s := reachable_iff.mpr run
  have sliced := sliced_of_reachable reachable
  have quantum : s.currentTask.quantum = defaultQuantum :=
    sliced.granted s.current (orderly_of_reachable reachable).settled.currentLive
  have within := sliced.within
  rw [quantum]
  refine ⟨⟨sliced.left, within⟩, ?_⟩
  intro events last busy run enough
  exact replaced_within reachable busy run (by omega)

/-- The first process makes another one, and its quantum ends. -/
theorem quantum_respected_forked :
    ∃ s, Library.runEvents (Library.guarded advance BuffersFit) (boot sampleImage)
        [.syscall .fork] = some s ∧
      (1 ≤ (s.remaining 1).toNat ∧ ((s.remaining 1).toNat : Int) ≤ 10) ∧
      ∃ before after middle, List.replicate 10 Event.clock = before ++ after ∧
        Library.runEvents step s before = some middle ∧ middle.current ≠ 1 := by
  obtain ⟨s, finished, seen⟩ := (Option.any_eq_true _ _).mp
    (show (Library.runEvents (Library.guarded advance BuffersFit) (boot sampleImage)
      [.syscall .fork]).any (fun s => decide (s.current = 1 ∧ s.currentTask.quantum = 10 ∧
        s.queue .readyqueue ≠ [] ∧
        (Library.runEvents step s (List.replicate 10 Event.clock)).isSome = true)) = true by
      decide +kernel)
  obtain ⟨current, quantum, busy, possible⟩ := of_decide_eq_true seen
  obtain ⟨last, run⟩ := Option.isSome_iff_exists.mp possible
  obtain ⟨bounds, replaced⟩ := quantum_respected (Library.Reach.of_guarded finished)
  rw [current, quantum] at bounds replaced
  exact ⟨s, finished, bounds, replaced _ last busy run (by decide)⟩

/-! ## A `write` over the PCB -/

/-- A word of the PCB. -/
def pcbWord (base : UInt32) (offset : Nat) (memory : UInt32 → UInt8) : Option Nat :=
  (Library.loadBytes some 4 (base + UInt32.ofNat offset) memory).map Library.leValue

/-- `remaining_ticks` and `quantum` of a PCB are in their bounds. -/
def SliceWithin (base : UInt32) (memory : UInt32 → UInt8) : Prop :=
  ∃ remaining ∈ pcbWord base 48 memory, ∃ quantum ∈ pcbWord base 52 memory,
    1 ≤ remaining ∧ remaining ≤ quantum

/-- Memory that is zero but for a whole slice in the PCB at `0x20000`. -/
def slicedTerminal : Terminal UInt32 :=
  { blankTerminal with
    memory := fun address => if address = 0x20030 ∨ address = 0x20034 then 10 else 0 }

/-- A block of zeros. -/
theorem loadBytes_zero {start : UInt32} {width : Nat} {memory : UInt32 → UInt8}
    (zero : ∀ k < width, memory (start + UInt32.ofNat k) = 0) :
    Library.loadBytes some width start memory = some (List.replicate width 0) := by
  have loads : ∀ k byte, (List.replicate width (0 : UInt8))[k]? = some byte →
      Library.load some (start + UInt32.ofNat k) memory = some byte := by
    intro k byte found
    rw [List.getElem?_replicate] at found
    split_ifs at found with few
    rw [← Option.some.inj found]
    exact congrArg some (zero k few)
  have loaded := Library.loadBytes_of_load loads
  rw [List.length_replicate] at loaded
  exact loaded

/-- A word in a block of zeros. -/
theorem pcbWord_zero {base : UInt32} {offset width : Nat} {memory : UInt32 → UInt8}
    (loaded : Library.loadBytes some width base memory = some (List.replicate width 0))
    (inside : offset + 4 ≤ width) : pcbWord base offset memory = some 0 := by
  unfold pcbWord
  rw [loadBytes_zero]
  · rfl
  · intro k few
    have found : (List.replicate width (0 : UInt8))[offset + k]? = some 0 := by
      rw [List.getElem?_replicate, if_pos (by omega)]
    have read := Library.load_of_loadBytes loaded found
    rw [Library.add_ofNat_add]
    exact Option.some.inj read

/-- `write (1, buffer, 4024)` of zeros, by a process with a whole slice: the second chunk
is copied over `remaining_ticks` and `quantum`, and the call returns. -/
theorem slice_overwritten :
    WriteAccepted 1 0x110000 4024 ∧ SliceWithin shallowFrame.base slicedTerminal.memory ∧
      ∃ after, slicedTerminal.sysWrite some smallFrames (shallowFrame.bufferTmp 4024) 1 0x110000
          4024 = some (4024, after) ∧
        ¬ SliceWithin shallowFrame.base after.memory := by
  have separate : Zeos.Separate some 0x110000 0x20000 (4024 : Int32).toInt.toNat 16 :=
    separate_some (by decide) (by decide) (by decide) (by decide)
  obtain ⟨d, shows⟩ := exists_shows (t := slicedTerminal) separate.screen (by decide) (by decide)
  obtain ⟨cs, after, loaded, ended, _, kept⟩ := sysWrite_prints separate smallFrames_within
    (by decide) (by decide) (by decide) shows
  have zeros : cs = List.replicate 4024 0 := by
    have zero : Library.loadBytes some 4024 0x110000 slicedTerminal.memory =
        some (List.replicate 4024 0) := by
      apply loadBytes_zero
      intro k few
      have address : (0x110000 + UInt32.ofNat k : UInt32).toNat = 0x110000 + k :=
        block_byte (by decide) few
      apply if_neg
      rintro (same | same)
      · have value := congrArg UInt32.toNat same
        rw [address] at value
        exact absurd value (by simp; omega)
      · have value := congrArg UInt32.toNat same
        rw [address] at value
        exact absurd value (by simp; omega)
    exact Option.some.inj (loaded.symm.trans zero)
  have last : lastChunk cs = List.replicate 1976 0 := by
    rw [zeros]
    unfold lastChunk
    rw [List.length_replicate, List.drop_replicate]
  rw [last, List.length_replicate] at kept
  refine ⟨by decide, ⟨10, rfl, 10, rfl, by decide, Nat.le_refl _⟩, after, ended, ?_⟩
  rintro ⟨remaining, isRemaining, _, _, positive, _⟩
  have cleared : pcbWord shallowFrame.base 48 after.memory = some 0 :=
    pcbWord_zero kept (by decide)
  cases Option.some.inj (cleared.symm.trans isRemaining)
  exact absurd positive (by decide)

end Kernel

end Zeos
