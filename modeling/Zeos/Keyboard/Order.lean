import Zeos.Keyboard.Readers
import Zeos.Library.Observers

/-!
# The order of keyboard reads

A reader that has got a part of its characters waits in front of the others, a
new one behind them, and a reader that a key has woken runs at once.  So the
reads are finished in the order in which they came, and each gets its
characters in one piece.
-/

namespace Zeos

/-- What an observer writes down about the reads: how many have entered
`keyboardqueue`, the number of the read that each process made last, the
characters taken from the buffer with the number of the read that took them, and
the numbers of the finished reads, both in the order of the events. -/
structure ReadHistory where
  entered : Nat := 0
  number : TaskId → Nat := fun _ => 0
  taken : List (Nat × UInt8) := []
  finished : List Nat := []

namespace ReadHistory

/-- A read enters the queue. -/
def enter (h : ReadHistory) (reader : TaskId) : ReadHistory :=
  { h with
    entered := h.entered + 1
    number := Function.update h.number reader h.entered }

/-- A reader takes characters from the buffer. -/
def take (h : ReadHistory) (reader : TaskId) (cs : List UInt8) : ReadHistory :=
  { h with taken := h.taken ++ cs.map fun c => (h.number reader, c) }

/-- A read is finished. -/
def finish (h : ReadHistory) (reader : TaskId) : ReadHistory :=
  { h with finished := h.finished ++ [h.number reader] }

end ReadHistory

/-- The characters that the inner loop takes in one turn of a reader. -/
def turnTakes (n : Int) (stored : List UInt8) (kbd : Keyboard) : List UInt8 :=
  if (stored.length : Int) < n then (Keyboard.drain bufferSize kbd).1 else []

theorem deliver_eq (n : Int) (stored : List UInt8) (kbd : Keyboard) :
    (deliver n stored kbd).1 = stored ++ turnTakes n stored kbd := by
  unfold deliver turnTakes
  split_ifs
  · rfl
  · rw [List.append_nil]

theorem deliver_consumed (n : Int) (stored : List UInt8) (kbd : Keyboard) :
    (deliver n stored kbd).2.consumed =
      kbd.consumed + (turnTakes n stored kbd).length := by
  unfold deliver turnTakes
  split_ifs
  · obtain ⟨_, length, consumed, _⟩ := Keyboard.drain_spec bufferSize kbd
      (Nat.le_of_lt kbd.charsInCirc_lt)
    rw [length]
    exact consumed
  · rfl

/-- The characters of the finished reads, with their numbers. -/
def segments : List ReadRecord → List (Nat × UInt8)
  | [] => []
  | record :: earlier =>
      segments earlier ++ record.stored.map fun c => (earlier.length, c)

/-- The characters `stored` were taken in one piece by the read number `k`: the
reads before it took theirs earlier, and those after it later. -/
def InOnePiece (taken : List (Nat × UInt8)) (k : Nat) (stored : List UInt8) :
    Prop :=
  ∃ earlier later, taken = earlier ++ stored.map (fun c => (k, c)) ++ later ∧
    (∀ entry ∈ earlier, entry.1 < k) ∧ ∀ entry ∈ later, k < entry.1

theorem InOnePiece.append {taken : List (Nat × UInt8)} {k : Nat}
    {stored : List UInt8} (piece : InOnePiece taken k stored)
    {more : List (Nat × UInt8)} (after : ∀ entry ∈ more, k < entry.1) :
    InOnePiece (taken ++ more) k stored := by
  obtain ⟨earlier, later, shape, before, behind⟩ := piece
  refine ⟨earlier, later ++ more, ?_, before, fun entry member => ?_⟩
  · rw [shape, List.append_assoc]
  · rcases List.mem_append.mp member with isOld | isNew
    · exact behind entry isOld
    · exact after entry isNew

theorem segments_lt (records : List ReadRecord) :
    ∀ entry ∈ segments records, entry.1 < records.length := by
  induction records with
  | nil => exact fun _ member => absurd member List.not_mem_nil
  | cons record earlier inductionHypothesis =>
      intro entry member
      rw [List.length_cons]
      rcases List.mem_append.mp member with isOld | isNew
      · exact Nat.lt_succ_of_lt (inductionHypothesis entry isOld)
      · obtain ⟨c, _, rfl⟩ := List.mem_map.mp isNew
        exact Nat.lt_succ_self _

/-- The reads that are finished, the oldest first. -/
theorem segments_piece (records : List ReadRecord) {k : Nat} {record : ReadRecord}
    (isAt : records.reverse[k]? = some record) :
    InOnePiece (segments records) k record.stored := by
  induction records with
  | nil => cases isAt
  | cons last earlier inductionHypothesis =>
      rw [List.reverse_cons, List.getElem?_append] at isAt
      split_ifs at isAt with isOld
      · rw [List.length_reverse] at isOld
        refine (inductionHypothesis isAt).append fun entry member => ?_
        obtain ⟨c, _, rfl⟩ := List.mem_map.mp member
        exact isOld
      · rw [List.length_reverse] at isOld isAt
        have isLast : k = earlier.length := by
          by_contra different
          rw [List.getElem?_eq_none (by simp; omega)] at isAt
          cases isAt
        subst isLast
        rw [Nat.sub_self] at isAt
        cases isAt
        exact ⟨segments earlier, [], (List.append_nil _).symm, segments_lt earlier,
          fun _ member => absurd member List.not_mem_nil⟩

namespace Driver

variable {d : Driver} {input : Input} {h : ReadHistory} {r : Request}

/-- The reads that are not finished, in the order of their turns. -/
def pending (d : Driver) : List Request := d.active.toList ++ d.waiting

/-- What the observer sees of the driver. -/
def watch (d : Driver) (input : Input) (h : ReadHistory) : ReadHistory :=
  match input with
  | .ask reader _ => h.enter reader
  | .turn =>
      match d.active with
      | none => h
      | some r =>
          let taken := h.take r.reader (turnTakes r.n r.stored d.kbd)
          if ((deliver r.n r.stored d.kbd).1.length : Int) < r.n then taken
          else taken.finish r.reader
  | _ => h

/-- The reads in progress have the next numbers, in their order; only the first
of them has characters, and these are the last that were taken. -/
structure InTurn (d : Driver) (h : ReadHistory) : Prop where
  finished : h.finished = List.range h.finished.length
  recorded : d.readLog.length = h.finished.length
  numbers : d.pending.map (fun r => h.number r.reader) =
    List.range' h.finished.length d.pending.length
  entered : h.entered = h.finished.length + d.pending.length
  later : ∀ r ∈ d.pending.tail, r.stored = []
  taken : h.taken = segments d.readLog ++ d.pending.head?.elim [] fun r =>
    r.stored.map fun c => (h.finished.length, c)
  counted : h.taken.length = d.kbd.consumed

theorem InTurn.congr {d' : Driver} (turn : d.InTurn h)
    (pending : d'.pending = d.pending) (readLog : d'.readLog = d.readLog)
    (consumed : d'.kbd.consumed = d.kbd.consumed) : d'.InTurn h := by
  obtain ⟨finished, recorded, numbers, entered, later, taken, counted⟩ := turn
  refine ⟨finished, ?_, ?_, ?_, ?_, ?_, ?_⟩
  · rw [readLog, recorded]
  · rw [pending, numbers]
  · rw [pending, entered]
  · rw [pending]
    exact later
  · rw [pending, readLog, taken]
  · rw [consumed, counted]

theorem keyed_consumed (d : Driver) (c : UInt8) :
    (d.keyed c).consumed = d.kbd.consumed := by
  unfold keyed Keyboard.putC
  split_ifs <;> rfl

theorem InTurn.key (turn : d.InTurn h) (quiet : d.active = none) (c : UInt8) :
    (d.key c).InTurn h := by
  apply turn.congr
  · rcases d.key_cases c with ⟨first, rest, shape, _, result⟩ | ⟨_, result⟩
    · rw [result, pending, pending, quiet, shape]
      rfl
    · rw [result]
      rfl
  · rcases d.key_cases c with ⟨_, _, _, _, result⟩ | ⟨_, result⟩
    · rw [result]
    · rw [result]
  · rcases d.key_cases c with ⟨_, _, _, _, result⟩ | ⟨_, result⟩
    · rw [result]
      exact d.keyed_consumed c
    · rw [result]
      exact d.keyed_consumed c

/-- A new read gets the next number and has no characters. -/
theorem InTurn.ask (turn : d.InTurn h) (quiet : d.active = none)
    {reader : TaskId} (loose : ∀ r ∈ d.waiting, r.reader ≠ reader) (n : Int) :
    (d.ask reader n).InTurn (h.enter reader) := by
  have before : d.pending = d.waiting := by
    rw [pending, quiet]
    rfl
  have after : (d.ask reader n).pending = d.waiting ++ [⟨reader, n, []⟩] := by
    unfold pending
    change d.active.toList ++ _ = _
    rw [quiet]
    rfl
  obtain ⟨finished, recorded, numbers, entered, later, taken, counted⟩ := turn
  rw [before] at numbers entered later taken
  have others : d.waiting.map (fun r => (h.enter reader).number r.reader) =
      d.waiting.map fun r => h.number r.reader := by
    refine List.map_congr_left fun r member => ?_
    exact Function.update_of_ne (loose r member) _ _
  refine ⟨finished, recorded, ?_, ?_, ?_, ?_, counted⟩
  · rw [after, List.map_append, others, numbers]
    simp [ReadHistory.enter, entered, List.range'_concat]
  · rw [after]
    simp [ReadHistory.enter, entered, Nat.add_assoc]
  · rw [after]
    intro r member
    cases shape : d.waiting with
    | nil =>
        rw [shape] at member
        cases member
    | cons first rest =>
        rw [shape] at member later
        rcases List.mem_append.mp member with isOld | isNew
        · exact later r isOld
        · rw [List.mem_singleton.mp isNew]
  · rw [after]
    change h.taken = _
    rw [taken]
    cases d.waiting with
    | nil => rfl
    | cons first rest => rfl

/-- The reader whose turn it is takes characters, and is finished or waits in
front. -/
theorem InTurn.turn (turn : d.InTurn h) (active : d.active = some r) :
    (d.serve r).InTurn (d.watch .turn h) := by
  have before : d.pending = r :: d.waiting := by
    rw [pending, active]
    rfl
  obtain ⟨finished, recorded, numbers, entered, later, taken, counted⟩ := turn
  rw [before] at numbers entered later taken
  rw [List.length_cons, List.range'_succ, List.map_cons, List.cons.injEq] at numbers
  obtain ⟨own, others⟩ := numbers
  have nextTaken : (h.take r.reader (turnTakes r.n r.stored d.kbd)).taken =
      segments d.readLog ++ (deliver r.n r.stored d.kbd).1.map fun c =>
        (h.finished.length, c) := by
    simp only [ReadHistory.take, own]
    rw [taken, deliver_eq, List.map_append, List.append_assoc]
    rfl
  have nextCounted : (h.take r.reader (turnTakes r.n r.stored d.kbd)).taken.length =
      (deliver r.n r.stored d.kbd).2.consumed := by
    simp only [ReadHistory.take]
    rw [List.length_append, List.length_map, counted, deliver_consumed]
  unfold watch
  rw [active]
  dsimp only
  by_cases more : ((deliver r.n r.stored d.kbd).1.length : Int) < r.n
  · rw [serve_more more, if_pos more]
    refine ⟨finished, recorded, ?_, entered, later, nextTaken, nextCounted⟩
    change h.number r.reader :: d.waiting.map (fun r => h.number r.reader) =
      List.range' h.finished.length (d.waiting.length + 1)
    rw [own, others, List.range'_succ]
  · rw [serve_enough (not_lt.mp more), if_neg more]
    have length : ((h.take r.reader (turnTakes r.n r.stored d.kbd)).finish
        r.reader).finished.length = h.finished.length + 1 := by
      simp [ReadHistory.finish, ReadHistory.take]
    refine ⟨?_, ?_, ?_, ?_, ?_, ?_, nextCounted⟩
    · rw [length, List.range_succ, ← finished, ← own]
      rfl
    · rw [length, ← recorded]
      rfl
    · rw [length]
      exact others
    · rw [length]
      change h.entered = h.finished.length + 1 + d.waiting.length
      rw [entered, List.length_cons]
      omega
    · intro later_ member
      exact later later_ (List.mem_of_mem_tail member)
    · have nobody : d.waiting.head?.elim [] (fun r =>
          r.stored.map fun c => (h.finished.length + 1, c)) = [] := by
        cases shape : d.waiting with
        | nil => rfl
        | cons first rest =>
            have none := later first (by rw [shape]; exact List.mem_cons_self)
            simp [none]
      rw [length]
      change (h.take r.reader (turnTakes r.n r.stored d.kbd)).taken =
        (segments d.readLog ++ (deliver r.n r.stored d.kbd).1.map fun c =>
          (d.readLog.length, c)) ++ d.waiting.head?.elim [] _
      rw [nobody, List.append_nil, nextTaken, recorded]

/-- One step of the driver. -/
theorem InTurn.step (turn : d.InTurn h) (possible : d.Possible input)
    (loose : ∀ reader n, input = .ask reader n →
      ∀ r ∈ d.waiting, r.reader ≠ reader) :
    (d.step input).InTurn (d.watch input h) := by
  cases input with
  | key c => exact turn.key possible c
  | ask reader n => exact turn.ask possible.1 (loose reader n rfl) n
  | turn =>
      cases active : d.active with
      | none =>
          rw [Driver.step, watch, active]
          exact turn
      | some r =>
          rw [Driver.step, active]
          exact turn.turn active
  | other => exact turn

/-- Finished or not, every read has got its characters in one piece. -/
theorem InTurn.pieces (turn : d.InTurn h) :
    (∀ k record, d.readLog.reverse[k]? = some record →
        InOnePiece h.taken k record.stored) ∧
      ∀ r ∈ d.pending, InOnePiece h.taken (h.number r.reader) r.stored := by
  have length := turn.recorded
  constructor
  · intro k record isAt
    have below : k < d.readLog.length := by
      by_contra beyond
      rw [List.getElem?_eq_none (by simp; omega)] at isAt
      cases isAt
    rw [turn.taken]
    refine (segments_piece d.readLog isAt).append fun entry member => ?_
    cases shape : d.pending with
    | nil =>
        rw [shape] at member
        cases member
    | cons first rest =>
        rw [shape] at member
        obtain ⟨c, _, rfl⟩ := List.mem_map.mp member
        exact length ▸ below
  · intro r member
    have numbers := turn.numbers
    have later := turn.later
    have taken := turn.taken
    cases shape : d.pending with
    | nil =>
        rw [shape] at member
        cases member
    | cons first rest =>
        rw [shape] at member numbers later taken
        rw [List.length_cons, List.range'_succ, List.map_cons,
          List.cons.injEq] at numbers
        obtain ⟨own, others⟩ := numbers
        have upTo : ∀ entry ∈ h.taken, entry.1 ≤ h.finished.length := by
          intro entry isTaken
          rw [taken] at isTaken
          rcases List.mem_append.mp isTaken with isOld | isNew
          · exact length ▸ (segments_lt d.readLog entry isOld).le
          · obtain ⟨c, _, rfl⟩ := List.mem_map.mp isNew
            exact le_refl _
        rcases List.mem_cons.mp member with isFirst | inRest
        · refine ⟨segments d.readLog, [], ?_, fun entry isOld => ?_,
            fun _ none => absurd none List.not_mem_nil⟩
          · rw [isFirst, own, List.append_nil]
            exact taken
          · rw [isFirst, own, ← length]
            exact segments_lt d.readLog entry isOld
        · have number : h.number r.reader ∈
              List.range' (h.finished.length + 1) rest.length := by
            rw [← others]
            exact List.mem_map_of_mem inRest
          have above := (List.mem_range'_1.mp number).1
          have none : r.stored = [] := later r inRest
          refine ⟨h.taken, [], ?_, fun entry isTaken => ?_,
            fun _ none => absurd none List.not_mem_nil⟩
          · rw [none]
            simp
          · exact Nat.lt_of_le_of_lt (upTo entry isTaken) above

end Driver

namespace Kernel

variable {s s' : Kernel} {event : Event} {h : ReadHistory} {image : BootImage}

/-- What the observer writes down after a step from `s` to `s'`: a process that
called `sys_read` is in `keyboardqueue` now, or a reader has had its turn and has
finished its read or not. -/
def watchReads (s : Kernel) (event : Event) (s' : Kernel) (h : ReadHistory) :
    ReadHistory :=
  match event with
  | .syscall (.read _ _ _) =>
      if s.current ∈ s'.queue .keyboardqueue then h.enter s.current else h
  | .resume =>
      match s.context s.current with
      | .readKeyboard _ n stored =>
          let taken := h.take s.current (turnTakes n stored s.kbd)
          if s'.readLog.length = s.readLog.length then taken
          else taken.finish s.current
      | _ => h
  | _ => h

/-- The reads are finished in the order in which they entered `keyboardqueue`,
and those in progress have the next numbers in the order of the queue; everything
that is taken from the buffer is taken by reads, and each read, finished or not,
has got its characters in one piece. -/
structure ReadsInOrder (s : Kernel) (h : ReadHistory) : Prop where
  finished : h.finished = List.range h.finished.length
  recorded : s.readLog.length = h.finished.length
  numbers : s.driver.pending.map (fun r => h.number r.reader) =
    List.range' h.finished.length s.driver.pending.length
  entered : h.entered = h.finished.length + s.driver.pending.length
  counted : h.taken.length = s.kbd.consumed
  pieces : ∀ k record, s.readLog.reverse[k]? = some record →
    InOnePiece h.taken k record.stored
  started : ∀ r ∈ s.driver.pending,
    InOnePiece h.taken (h.number r.reader) r.stored

/-! ## The observer sees the driver -/

theorem input_ask {reader : TaskId} {n : Int} (asks : s.input event = .ask reader n) :
    reader = s.current := by
  cases event with
  | keyboard scancode beyond =>
      dsimp only [input] at asks
      split_ifs at asks
  | syscall call =>
      cases call with
      | read fd buf count =>
          dsimp only [input] at asks
          split_ifs at asks
          cases asks
          rfl
      | _ => cases asks
  | resume =>
      dsimp only [input] at asks
      split_ifs at asks
  | _ => cases asks

theorem waiting_reader {r : Request} (member : r ∈ s.driver.waiting) :
    r.reader ∈ s.queue .keyboardqueue := by
  obtain ⟨t, queued, request⟩ := List.mem_filterMap.mp member
  cases saved : s.context t with
  | readKeyboard buf n stored =>
      rw [saved] at request
      cases request
      exact queued
  | _ =>
      rw [saved] at request
      cases request

/-- A step that the driver has no part in is nothing to write down. -/
theorem watchReads_quiet (orderly : s.Orderly) (handled : s.handle event = some s')
    (other : s.mode = .switched → ¬ (s.context s.current).Reading)
    (moves : s.view.Moves s'.view) : s.watchReads event s' h = h := by
  cases event with
  | syscall call =>
      cases call with
      | read fd buf count =>
          have same : s'.queue .keyboardqueue = s.queue .keyboardqueue :=
            (View.Moves.keyboard orderly.settled moves).1
          apply if_neg
          rw [same]
          exact orderly.settled.currentLoose .keyboardqueue
      | _ => rfl
  | resume =>
      have mode := (Option.ite_none_right_eq_some.mp handled).1
      unfold watchReads
      dsimp only
      split
      · next saved =>
          refine absurd ?_ (other mode)
          rw [saved]
          trivial
      · rfl
  | _ => rfl

theorem watchReads_eq (orderly : s.Orderly) (handled : s.handle event = some s') :
    s.watchReads event s' h = s.driver.watch (s.input event) h := by
  have effect := handle_effect orderly handled
  cases effect with
  | quiet input other _ moves _ _ _ =>
      rw [input, watchReads_quiet orderly handled other moves]
      rfl
  | @typed scancode beyond _ _ make _ _ _ _ _ =>
      have input : s.input (.keyboard scancode beyond) =
          .key (charOfScancode scancode beyond) := if_pos make
      rw [input]
      rfl
  | @served scancode beyond _ _ _ _ make _ _ _ _ _ _ =>
      have input : s.input (.keyboard scancode beyond) =
          .key (charOfScancode scancode beyond) := if_pos make
      rw [input]
      rfl
  | @asked fd count buf _ _ _ accepted refines _ _ _ =>
      have input : s.input (.syscall (.read fd buf count)) =
          .ask s.current count.toInt := if_pos accepted
      have queue : s'.queue .keyboardqueue =
          s.queue .keyboardqueue ++ [s.current] := by
        have view : s'.queue .keyboardqueue = _ :=
          congrArg (fun v => v.queue .keyboardqueue) refines.view
        have queued : (s.view.arrive (.readKeyboard buf count.toInt [])).queue
            .keyboardqueue = s.view.queue .keyboardqueue ++ [s.view.current] := by
          simp [View.arrive, View.yield, View.dispatch, View.place]
        exact view.trans queued
      rw [input]
      apply if_pos
      simp [queue]
  | @delivered buf n stored _ switched reading enough _ _ readLog _ =>
      have active := active_switched switched reading
      have input : s.input .resume = .turn := if_pos (by rw [active]; rfl)
      rw [input, Driver.watch, active]
      unfold watchReads
      dsimp only
      rw [reading]
      dsimp only
      have done : ¬ (((deliver n stored s.driver.kbd).1.length : Int) < n) :=
        not_lt.mpr enough
      rw [readLog, if_neg done, if_neg (by simp)]
      rfl
  | @again buf n stored _ switched reading more _ _ readLog _ =>
      have active := active_switched switched reading
      have input : s.input .resume = .turn := if_pos (by rw [active]; rfl)
      rw [input, Driver.watch, active]
      unfold watchReads
      dsimp only
      rw [reading]
      dsimp only
      have lacks : ((deliver n stored s.driver.kbd).1.length : Int) < n := more
      rw [readLog, if_pos lacks, if_pos rfl]
      rfl

/-! ## Every run -/

/-- In the runs in which the buffers fit, keyboard readers are served in the order in
which they came, and never interleaved. -/
theorem reads_in_order
    (run : Library.Observe advance watchReads BuffersFit (boot image) {} s h) :
    ReadsInOrder s h := by
  have initially : Driver.InTurn ⟨[], none, Keyboard.initial, []⟩ {} :=
    ⟨rfl, rfl, rfl, rfl, nofun, rfl, rfl⟩
  have turn : s.driver.InTurn h := by
    refine Library.Reach.observe_invariant (fun s h => s.driver.InTurn h) ?_
      (fun _ plain => orderly_of_reachable plain) ?_ (observe_fitting_iff.mpr run)
    · exact initially
    · intro before event after record orderly held _ taken
      have handled := handle_of_step taken
      rw [driver_step orderly (handle_effect orderly handled),
        watchReads_eq orderly handled]
      refine held.step (possible_input handled) fun reader n asks r member same => ?_
      have queued : before.current ∈ before.queue .keyboardqueue := by
        rw [← input_ask asks, ← same]
        exact waiting_reader member
      exact orderly.settled.currentLoose .keyboardqueue queued
  exact ⟨turn.finished, turn.recorded, turn.numbers, turn.entered, turn.counted,
    turn.pieces.1, turn.pieces.2⟩

/-- Two processes read two characters each; the first gets its characters from
two keys, and then the second is served. -/
theorem reads_in_order_interleaved :
    let events : List Event :=
      [.syscall (.clone 0x100000 0x110000), .syscall (.read 0 0x10A000 2), .resume,
        .syscall (.read 0 0x10B000 2), .resume, .keyboard 0x9E 0, .resume, .resume,
        .keyboard 0x9F 0, .resume, .keyboard 0x9E 0]
    ∃ s h, Library.runEvents (Library.guarded (Library.observed advance watchReads)
          fun last => last.1.BuffersFit) (boot sampleImage, {}) events = some (s, h) ∧
      h.finished = [0] ∧ h.entered = 2 ∧ ReadsInOrder s h := by
  intro events
  obtain ⟨⟨s, h⟩, finished, seen⟩ := (Option.any_eq_true _ _).mp
    (show (Library.runEvents (Library.guarded (Library.observed advance watchReads)
      fun last => last.1.BuffersFit) (boot sampleImage, {}) events).any
        (fun last => decide (last.2.finished = [0] ∧ last.2.entered = 2)) = true by
      decide +kernel)
  obtain ⟨first, entered⟩ := of_decide_eq_true seen
  exact ⟨s, h, finished, first, entered, reads_in_order (Library.Reach.of_guarded finished)⟩

/-- Process 1 waits for two characters, and after it a thread for one.  Another thread, in
the page above process 1, reads more than its page has room for and takes the PCB of
process 1 out of its place: the key finishes the read that came second. -/
theorem read_overtakes : ∃ s h,
    Library.Observe advance watchReads (fun _ _ => True) (boot sampleImage) {} s h ∧
      h.finished = [1] ∧ ¬ ReadsInOrder s h := by
  obtain ⟨⟨s, h⟩, finished, seen⟩ := (Option.any_eq_true _ _).mp
    (show (Library.runEvents (Library.observed advance watchReads) (boot sampleImage, {})
      ([.syscall (.clone 0x100000 0x110000), .syscall (.clone 0x100000 0x112000),
        .syscall (.read 0 0x10A000 2), .resume] ++ List.replicate 10 .clock ++
        [.resume, .syscall (.read 0 0x10A000 1), .resume,
          .syscall (.read 0 0x108000 5000), .resume, .keyboard 0x9E 0, .resume])).any
        (fun last => decide (last.2.finished = [1])) = true by decide +kernel)
  have second : h.finished = [1] := of_decide_eq_true seen
  refine ⟨s, h, .of_runEvents .start (fun _ _ _ => trivial) finished, second, ?_⟩
  intro ordered
  have first := ordered.finished
  rw [second] at first
  cases first

end Kernel

end Zeos
