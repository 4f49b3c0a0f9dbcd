import Zeos.Keyboard.Fifo
import Zeos.Keyboard.Order

/-!
# From the keys to the readers

The characters that were typed are, in their order, those of the finished reads,
those of the read that has begun, and the unread ones.  Nothing tells that the
buffer is full: its tenth unread character makes the two indices equal, and all
ten are gone.
-/

namespace Zeos

namespace Keyboard

/-- The inner loop takes all the unread characters. -/
theorem drain_contents (fuel : Nat) (kb : Keyboard) (enough : kb.charsInCirc ≤ fuel) :
    (drain fuel kb).1 = kb.contents := by
  induction fuel generalizing kb with
  | zero =>
      have none : kb.contents.length = 0 := by
        rw [contents_length]
        omega
      rw [List.length_eq_zero_iff.mp none]
      rfl
  | succ fuel inductionHypothesis =>
      rw [drain]
      split_ifs with unread
      · have count := takeC_charsInCirc (kb.hasUnread_iff.mp unread)
        rw [takeC_contents unread]
        dsimp only
        rw [inductionHypothesis _ (by omega)]
      · have none : kb.contents.length = 0 := by
          rw [contents_length]
          have positive := kb.hasUnread_iff.not.mp unread
          omega
        rw [List.length_eq_zero_iff.mp none]

theorem contents_eq_nil {kb : Keyboard} (none : kb.charsInCirc = 0) : kb.contents = [] :=
  List.length_eq_zero_iff.mp ((contents_length kb).trans none)

/-- The tenth unread character empties the buffer. -/
theorem putC_overflow {kb : Keyboard} (empty : kb.cbIsEmpty = true)
    (last : kb.charsInCirc + 1 = bufferSize) (c : UInt8) (waiting : Bool) :
    (kb.putC c waiting).2.contents = [] := by
  apply contents_eq_nil
  rw [putC_charsInCirc empty, if_pos last]

end Keyboard

/-- A turn of a reader that lacks characters moves the unread ones to it. -/
theorem deliver_contents (n : Int) (stored : List UInt8) (kbd : Keyboard) :
    (deliver n stored kbd).1 ++ (deliver n stored kbd).2.contents =
      stored ++ kbd.contents := by
  have bound := Nat.le_of_lt kbd.charsInCirc_lt
  unfold deliver
  split_ifs
  · obtain ⟨none, _⟩ := Keyboard.drain_spec bufferSize kbd bound
    rw [Keyboard.contents_eq_nil none, Keyboard.drain_contents _ _ bound, List.append_nil]
  · rfl

/-- What an observer writes down about the keys: the characters that were typed,
those of them that were not lost, and how often the buffer overflowed. -/
structure TypedHistory where
  typed : List UInt8 := []
  kept : List UInt8 := []
  overflows : Nat := 0

namespace TypedHistory

variable {h : TypedHistory}

/-- A character is typed while `unread` others are in the buffer. -/
def key (h : TypedHistory) (unread : Nat) (c : UInt8) : TypedHistory :=
  if unread + 1 < bufferSize then
    { h with typed := h.typed ++ [c], kept := h.kept ++ [c] }
  else
    { typed := h.typed ++ [c]
      kept := h.kept.take (h.kept.length - unread)
      overflows := h.overflows + 1 }

/-- The characters that were not lost are those that were typed but for ten at
every overflow. -/
structure Accounted (h : TypedHistory) : Prop where
  order : h.kept.Sublist h.typed
  lost : h.typed.length = h.kept.length + bufferSize * h.overflows

theorem Accounted.key {unread : Nat} (accounted : h.Accounted)
    (bound : unread < bufferSize) (some_ : unread ≤ h.kept.length) (c : UInt8) :
    (h.key unread c).Accounted := by
  obtain ⟨order, lost⟩ := accounted
  unfold TypedHistory.key
  split_ifs with room
  · refine ⟨order.append (List.Sublist.refl _), ?_⟩
    dsimp only
    rw [List.length_append, List.length_append, lost]
    omega
  · refine ⟨((List.take_sublist _ _).trans order).trans (List.sublist_append_left _ _), ?_⟩
    dsimp only
    rw [List.length_append, List.length_take, lost, List.length_singleton, Nat.mul_succ]
    omega

/-- Nothing is lost where the buffer never overflows. -/
theorem Accounted.all (accounted : h.Accounted) (never : h.overflows = 0) :
    h.kept = h.typed := by
  have length := accounted.lost
  rw [never, Nat.mul_zero, Nat.add_zero] at length
  exact accounted.order.eq_of_length length.symm

end TypedHistory

namespace Driver

variable {d : Driver} {input : Input} {h : TypedHistory} {r : Request}

/-- What the observer of the keys sees of the driver. -/
def watchKeys (d : Driver) (input : Input) (h : TypedHistory) : TypedHistory :=
  match input with
  | .key c => if c = 0 then h else h.key d.kbd.charsInCirc c
  | _ => h

/-- The characters of the finished reads, in the order of the reads. -/
def delivered (d : Driver) : List UInt8 :=
  d.readLog.reverse.flatMap fun record => record.stored

/-- The characters of the first read that is not finished. -/
def begun (d : Driver) : List UInt8 :=
  d.pending.head?.elim [] fun r => r.stored

/-- Only the first of the reads in progress has characters, and the characters
that were not lost are with the readers or in the buffer. -/
structure Streamed (d : Driver) (h : TypedHistory) : Prop where
  flag : d.kbd.cbIsEmpty = true
  later : ∀ r ∈ d.pending.tail, r.stored = []
  kept : h.kept = d.delivered ++ d.begun ++ d.kbd.contents
  accounted : h.Accounted

theorem Streamed.unread_le (streamed : d.Streamed h) :
    d.kbd.charsInCirc ≤ h.kept.length := by
  rw [streamed.kept, List.length_append, Keyboard.contents_length]
  omega

/-- A key changes the buffer and the history of the keys only. -/
theorem Streamed.key (streamed : d.Streamed h) (quiet : d.active = none) (c : UInt8) :
    (d.key c).Streamed (d.watchKeys (.key c) h) := by
  have same : (d.key c).pending = d.pending ∧ (d.key c).readLog = d.readLog ∧
      (d.key c).kbd = d.keyed c := by
    rcases d.key_cases c with ⟨first, rest, shape, _, result⟩ | ⟨_, result⟩
    · refine ⟨?_, by rw [result], by rw [result]⟩
      rw [result, pending, pending, quiet, shape]
      rfl
    · exact ⟨by rw [result]; rfl, by rw [result], by rw [result]⟩
  obtain ⟨pending, readLog, buffer⟩ := same
  have unread := streamed.unread_le
  obtain ⟨flag, later, kept, accounted⟩ := streamed
  have readers : (d.key c).delivered ++ (d.key c).begun = d.delivered ++ d.begun := by
    unfold delivered begun
    rw [pending, readLog]
  refine ⟨by rw [buffer]; exact keyed_flag flag c, by rw [pending]; exact later, ?_, ?_⟩
  · rw [readers, buffer]
    unfold watchKeys keyed
    dsimp only
    split_ifs
    · exact kept
    · unfold TypedHistory.key
      split_ifs with room
      · rw [Keyboard.putC_contents flag room, ← List.append_assoc, ← kept]
      · have bound := d.kbd.charsInCirc_lt
        rw [Keyboard.putC_overflow flag (by omega), List.append_nil]
        dsimp only
        rw [kept, List.length_append, Keyboard.contents_length, Nat.add_sub_cancel,
          List.take_left']
        rfl
  · unfold watchKeys
    dsimp only
    split_ifs
    · exact accounted
    · exact accounted.key d.kbd.charsInCirc_lt unread c

theorem Streamed.ask (streamed : d.Streamed h) (quiet : d.active = none)
    (reader : TaskId) (n : Int) : (d.ask reader n).Streamed h := by
  have before : d.pending = d.waiting := by
    rw [pending, quiet]
    rfl
  have after : (d.ask reader n).pending = d.pending ++ [⟨reader, n, []⟩] := by
    rw [before]
    unfold pending
    change d.active.toList ++ _ = _
    rw [quiet]
    rfl
  obtain ⟨flag, later, kept, accounted⟩ := streamed
  refine ⟨flag, ?_, ?_, accounted⟩
  · rw [after]
    intro r member
    cases shape : d.pending with
    | nil =>
        rw [shape] at member
        cases member
    | cons first rest =>
        rw [shape] at member later
        rcases List.mem_append.mp member with isOld | isNew
        · exact later r isOld
        · rw [List.mem_singleton.mp isNew]
  · have begun : (d.ask reader n).begun = d.begun := by
      unfold Driver.begun
      rw [after]
      cases d.pending with
      | nil => rfl
      | cons first rest => rfl
    rw [begun]
    exact kept

theorem Streamed.turn (streamed : d.Streamed h) (active : d.active = some r) :
    (d.serve r).Streamed h := by
  have before : d.pending = r :: d.waiting := by
    rw [pending, active]
    rfl
  obtain ⟨flag, later, kept, accounted⟩ := streamed
  have moved := deliver_contents r.n r.stored d.kbd
  have stays : (deliver r.n r.stored d.kbd).2.cbIsEmpty = true := by
    unfold deliver
    split_ifs
    · exact (Keyboard.drain_spec bufferSize d.kbd
        (Nat.le_of_lt d.kbd.charsInCirc_lt)).2.2.2.2.2 flag
    · exact flag
  have own : d.begun = r.stored := by
    unfold begun
    rw [before]
    rfl
  rw [own, List.append_assoc, ← moved, ← List.append_assoc] at kept
  rw [before] at later
  by_cases more : ((deliver r.n r.stored d.kbd).1.length : Int) < r.n
  · rw [serve_more more]
    exact ⟨stays, later, kept, accounted⟩
  · rw [serve_enough (not_lt.mp more)]
    refine ⟨stays, fun later_ member => later later_ (List.mem_of_mem_tail member), ?_,
      accounted⟩
    have nobody : d.waiting.head?.elim [] (fun r => r.stored) = [] := by
      cases shape : d.waiting with
      | nil => rfl
      | cons first rest => exact later first (by rw [shape]; exact List.mem_cons_self)
    unfold delivered begun pending
    dsimp only
    rw [Option.toList_none, List.nil_append, nobody, List.append_nil, kept,
      List.reverse_cons, List.flatMap_append]
    simp [delivered]

theorem Streamed.step (streamed : d.Streamed h) (possible : d.Possible input) :
    (d.step input).Streamed (d.watchKeys input h) := by
  cases input with
  | key c => exact streamed.key possible c
  | ask reader n => exact streamed.ask possible.1 reader n
  | turn =>
      rw [Driver.step]
      split
      · next r active => exact streamed.turn active
      · exact streamed
  | other => exact streamed

end Driver

namespace Kernel

variable {s s' : Kernel} {event : Event} {h : TypedHistory} {image : BootImage}

/-- What the observer of the keys writes down: the character of a key that has
one. -/
def watchKeys (s : Kernel) (event : Event) (_ : Kernel) (h : TypedHistory) :
    TypedHistory :=
  match event with
  | .keyboard scancode beyond =>
      if scancode &&& 0x80 ≠ 0 ∧ charOfScancode scancode beyond ≠ 0 then
        h.key s.kbd.charsInCirc (charOfScancode scancode beyond)
      else
        h
  | _ => h

theorem watchKeys_eq (s : Kernel) (event : Event) (s' : Kernel) (h : TypedHistory) :
    s.watchKeys event s' h = s.driver.watchKeys (s.input event) h := by
  cases event with
  | keyboard scancode beyond =>
      unfold watchKeys input
      dsimp only
      by_cases make : scancode &&& 0x80 ≠ 0
      · rw [if_pos make]
        unfold Driver.watchKeys
        dsimp only
        by_cases none : charOfScancode scancode beyond = 0
        · rw [if_neg fun both => both.2 none, if_pos none]
        · rw [if_pos ⟨make, none⟩, if_neg none]
          rfl
      · rw [if_neg fun both => make both.1, if_neg make]
        rfl
  | syscall call =>
      cases call with
      | read fd buf count =>
          unfold input
          dsimp only
          split_ifs <;> rfl
      | _ => rfl
  | resume =>
      unfold input
      dsimp only
      split_ifs <;> rfl
  | _ => rfl

/-- The typed characters that were not lost are those of the finished reads, of
the first read in progress, and of the buffer, in this order; each overflow loses
ten. -/
structure Delivered (s : Kernel) (h : TypedHistory) : Prop where
  stream : h.kept = (s.readLog.reverse.flatMap fun record => record.stored) ++
    s.driver.begun ++ s.kbd.contents
  order : h.kept.Sublist h.typed
  lost : h.typed.length = h.kept.length + bufferSize * h.overflows
  all : h.overflows = 0 → h.kept = h.typed

/-- In every run, each typed character is delivered once and in order, or waits
in the buffer, or was lost in an overflow. -/
theorem characters_delivered {image : BootImage}
    (run : Library.Observe step watchKeys (fun _ _ => True) (boot image) {} s h) :
    Delivered s h := by
  have initially : Driver.Streamed ⟨[], none, Keyboard.initial, []⟩ {} :=
    ⟨rfl, nofun, rfl, ⟨List.Sublist.refl _, rfl⟩⟩
  have streamed : s.driver.Streamed h := by
    refine Library.Reach.observe_invariant (fun s h => s.driver.Streamed h) ?_
      (fun _ plain => orderly_of_reachable plain) ?_ run
    · exact initially
    · intro before event after record orderly held _ taken
      have handled := handle_of_step taken
      rw [driver_step orderly (handle_effect orderly handled), watchKeys_eq]
      exact held.step (possible_input handled)
  exact ⟨streamed.kept, streamed.accounted.order, streamed.accounted.lost,
    streamed.accounted.all⟩

/-- A key before a read of two characters, one while the reader waits, and one when
it is finished. -/
theorem characters_delivered_reading :
    let last := Library.lastState (Library.observed step watchKeys)
      (boot sampleImage, {})
      [.keyboard 0x9E 0, .syscall (.read 0 0x10A000 2), .resume, .keyboard 0x9F 0,
        .resume, .keyboard 0xA0 0]
    last.2.typed = [97, 115, 100] ∧ last.1.driver.delivered = [97, 115] ∧
      Delivered last.1 last.2 := by
  intro last
  have seen : last.2.typed = [97, 115, 100] ∧ last.1.driver.delivered = [97, 115] := by
    decide +kernel
  exact ⟨seen.1, seen.2,
    characters_delivered (Library.Reach.lastObserved fun _ _ _ => trivial)⟩

end Kernel

end Zeos
