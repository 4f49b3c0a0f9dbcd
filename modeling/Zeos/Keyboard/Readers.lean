import Zeos.Keyboard.Refinement

/-!
# Readers of the keyboard

When a waiting reader has its characters, and when a read stays within the
count it was given.  Both hold in the runs whose inputs avoid what the driver
does not handle: characters that are there before a read, a tenth character,
and a count that a later reader has overwritten.
-/

namespace Zeos

namespace Keyboard

/-- The characters accepted by `putC` and not yet taken by the reading loop. -/
def unread (kb : Keyboard) : Int := kb.accepted - kb.consumed

/-- The indices count the unread characters up to whole laps. -/
def Counted (kb : Keyboard) : Prop :=
  ∃ laps : Nat, kb.unread = kb.charsInCirc + bufferSize * laps

theorem Counted.unread_eq {kb : Keyboard} (counted : Counted kb)
    (below : kb.unread < bufferSize) : kb.unread = kb.charsInCirc := by
  obtain ⟨laps, sum⟩ := counted
  cases laps with
  | zero => simpa using sum
  | succ laps =>
      simp only [bufferSize] at *
      omega

theorem putC_unread {kb : Keyboard} (empty : kb.cbIsEmpty = true) (c : UInt8)
    (waiting : Bool) : (kb.putC c waiting).2.unread = kb.unread + 1 := by
  obtain ⟨_, accepted, consumed, _⟩ := putC_stores empty c waiting
  unfold unread
  rw [accepted, consumed]
  omega

theorem Counted.putC {kb : Keyboard} (counted : Counted kb)
    (empty : kb.cbIsEmpty = true) (c : UInt8) (waiting : Bool) :
    Counted (kb.putC c waiting).2 := by
  obtain ⟨laps, sum⟩ := counted
  have count := putC_charsInCirc empty c waiting
  have more := putC_unread empty c waiting
  by_cases last : kb.charsInCirc + 1 = bufferSize
  · refine ⟨laps + 1, ?_⟩
    rw [if_pos last] at count
    rw [more, count, sum]
    simp only [bufferSize] at *
    omega
  · refine ⟨laps, ?_⟩
    rw [if_neg last] at count
    rw [more, count, sum]
    omega

end Keyboard

open Keyboard

/-- What a turn of a reader that still needs characters does: it takes all that
the indices show. -/
theorem deliver_spec {n : Int} {stored : List UInt8} (kbd : Keyboard)
    (needy : (stored.length : Int) < n) :
    (deliver n stored kbd).1.length = stored.length + kbd.charsInCirc ∧
      (deliver n stored kbd).2.charsInCirc = 0 ∧
      (deliver n stored kbd).2.unread = kbd.unread - kbd.charsInCirc ∧
      (kbd.cbIsEmpty = true → (deliver n stored kbd).2.cbIsEmpty = true) := by
  obtain ⟨empty, length, consumed, accepted, _, flag⟩ :=
    drain_spec bufferSize kbd (Nat.le_of_lt kbd.charsInCirc_lt)
  unfold deliver
  rw [if_pos needy]
  refine ⟨by rw [List.length_append, length], empty, ?_, flag⟩
  unfold unread
  rw [accepted, consumed]
  omega

namespace Driver

variable {d : Driver} {input : Input}

/-- The inputs that the system gives: keys and requests come while no woken
reader is about to run, and counts are not negative. -/
def Possible (d : Driver) : Input → Prop
  | .key _ => d.active = none
  | .ask _ n => d.active = none ∧ 0 ≤ n
  | _ => True

/-- The cases of a key. -/
theorem key_cases (d : Driver) (c : UInt8) :
    (∃ first rest, d.waiting = first :: rest ∧
        Kernel.wakesReader (d.keyed c) = true ∧
        d.key c =
          { d with waiting := rest, active := some first, kbd := d.keyed c }) ∨
      ((Kernel.wakesReader (d.keyed c) = true → d.waiting = []) ∧
        d.key c = { d with kbd := d.keyed c }) := by
  by_cases asleep : Kernel.wakesReader (d.keyed c) = true → d.waiting = []
  · exact Or.inr ⟨asleep, Kernel.key_asleep asleep⟩
  · obtain ⟨wakes, waiting⟩ := Classical.not_imp.mp asleep
    obtain ⟨first, rest, shape⟩ := List.exists_cons_of_ne_nil waiting
    exact Or.inl ⟨first, rest, shape, wakes, Kernel.key_wakes shape wakes⟩

/-! ## A waiting reader lacks characters -/

/-- A reader waits only for characters that are not there yet. -/
structure Served (d : Driver) : Prop where
  flag : d.kbd.cbIsEmpty = true
  counted : Counted d.kbd
  needy : ∀ r ∈ d.waiting, (r.stored.length : Int) < r.n
  activeNeedy : ∀ r ∈ d.active, (r.stored.length : Int) < r.n
  precise : d.waiting ≠ [] ∨ d.active ≠ none →
    d.kbd.unread = d.kbd.charsInCirc
  first : d.active = none → ∀ r ∈ d.waiting.head?,
    r.stored.length + d.kbd.charsInCirc < r.n

/-- A request is for at least one character, and finds fewer than it asks for
when no other waits.  A character that comes while a reader waits is not the
tenth, and either wakes the reader or leaves it short of characters. -/
def Attends (d : Driver) : Input → Prop
  | .key c => c ≠ 0 → ∀ r ∈ d.waiting.head?,
      d.kbd.charsInCirc + 1 < bufferSize ∧
        (d.kbd.charsInCirc + 1 ≤ d.kbd.leftToRead ∨
          r.stored.length + (d.kbd.charsInCirc + 1) < r.n)
  | .ask _ n => 1 ≤ n ∧
      (d.waiting = [] → d.kbd.unread < n ∧ d.kbd.unread < bufferSize)
  | _ => True

instance (d : Driver) (input : Input) : Decidable (d.Attends input) := by
  cases input <;> unfold Attends <;> infer_instance

theorem keyed_flag (flag : d.kbd.cbIsEmpty = true) (c : UInt8) :
    (d.keyed c).cbIsEmpty = true := by
  unfold keyed
  split_ifs
  · exact flag
  · exact putC_cbIsEmpty flag c _

theorem keyed_counted (flag : d.kbd.cbIsEmpty = true) (counted : Counted d.kbd)
    (c : UInt8) : Counted (d.keyed c) := by
  unfold keyed
  split_ifs
  · exact counted
  · exact counted.putC flag c _

/-- The buffer after a character that is not the tenth. -/
theorem keyed_spec (flag : d.kbd.cbIsEmpty = true) {c : UInt8} (char : c ≠ 0)
    (room : d.kbd.charsInCirc + 1 < bufferSize) :
    (d.keyed c).unread = d.kbd.unread + 1 ∧
      (d.keyed c).charsInCirc = d.kbd.charsInCirc + 1 ∧
      (d.keyed c).leftToRead = d.kbd.leftToRead := by
  unfold keyed
  rw [if_neg char]
  have count := putC_charsInCirc flag c !d.waiting.isEmpty
  rw [if_neg (Nat.ne_of_lt room)] at count
  exact ⟨putC_unread flag c _, count, (putC_stores flag c _).2.2.2⟩

theorem wakesReader_iff {kb : Keyboard} (flag : kb.cbIsEmpty = true) :
    Kernel.wakesReader kb = true ↔ (kb.charsInCirc : Int) ≤ kb.leftToRead := by
  simp [Kernel.wakesReader, cbfull, flag]

theorem Served.key (served : d.Served) (quiet : d.active = none) {c : UInt8}
    (attends : d.Attends (.key c)) : (d.key c).Served := by
  have flag := keyed_flag served.flag c
  have counted := keyed_counted served.flag served.counted c
  -- the count stays exact while someone waits
  have precise : d.waiting ≠ [] → (d.keyed c).unread = (d.keyed c).charsInCirc := by
    intro waiting
    have before := served.precise (Or.inl waiting)
    by_cases control : c = 0
    · simpa [keyed, control] using before
    · obtain ⟨first, rest, shape⟩ := List.exists_cons_of_ne_nil waiting
      have room := (attends control first (by simp [shape])).1
      obtain ⟨more, count, _⟩ := keyed_spec served.flag control room
      rw [more, count, before]
      rfl
  rcases d.key_cases c with ⟨first, rest, shape, wakes, result⟩ | ⟨asleep, result⟩
  · rw [result]
    have waiting : d.waiting ≠ [] := by simp [shape]
    refine ⟨flag, counted, ?_, ?_, fun _ => precise waiting, fun none => nomatch none⟩
    · intro r member
      exact served.needy r (by rw [shape]; exact List.mem_cons_of_mem first member)
    · intro r isFirst
      cases isFirst
      exact served.needy first (by rw [shape]; exact List.mem_cons_self)
  · rw [result]
    refine ⟨flag, counted, served.needy, served.activeNeedy, ?_, ?_⟩
    · rintro (waiting | active)
      · exact precise waiting
      · exact absurd quiet active
    · intro _ r isFirst
      have before := served.first quiet r isFirst
      have waiting : d.waiting ≠ [] := by
        rintro empty
        rw [empty] at isFirst
        cases isFirst
      by_cases control : c = 0
      · simpa [keyed, control] using before
      · obtain ⟨room, wakesOrLacks⟩ := attends control r isFirst
        obtain ⟨_, count, left⟩ := keyed_spec served.flag control room
        have sleeps : ¬ Kernel.wakesReader (d.keyed c) = true := fun wakes =>
          waiting (asleep wakes)
        rw [wakesReader_iff flag, count, left] at sleeps
        change _ + ((d.keyed c).charsInCirc : Int) < _
        rw [count]
        push_cast at *
        omega

theorem Served.ask (served : d.Served) (quiet : d.active = none)
    {reader : TaskId} {n : Int} (attends : d.Attends (.ask reader n)) :
    (d.ask reader n).Served := by
  obtain ⟨positive, alone⟩ := attends
  have precise : d.kbd.unread = d.kbd.charsInCirc := by
    by_cases waiting : d.waiting = []
    · exact served.counted.unread_eq (alone waiting).2
    · exact served.precise (Or.inl waiting)
  refine ⟨served.flag, served.counted, ?_, served.activeNeedy, fun _ => precise, ?_⟩
  · intro r member
    rcases List.mem_append.mp member with before | isNew
    · exact served.needy r before
    · rw [List.mem_singleton.mp isNew]
      exact positive
  · intro _ r isFirst
    cases shape : d.waiting with
    | nil =>
        have isNew : r = ⟨reader, n, []⟩ := by
          simpa [Driver.ask, shape] using isFirst.symm
        have lacks := (alone shape).1
        rw [precise] at lacks
        subst isNew
        simpa [Driver.ask, charsInCirc] using lacks
    | cons first rest =>
        have isOld : r ∈ d.waiting.head? := by
          simpa [Driver.ask, shape] using isFirst
        exact served.first quiet r isOld

theorem Served.turn (served : d.Served) {r : Request} (active : d.active = some r) :
    (d.serve r).Served := by
  have needy := served.activeNeedy r active
  obtain ⟨length, empty, rest, flag⟩ := deliver_spec d.kbd needy
  have precise := served.precise (Or.inr (by simp [active]))
  have nothing : (deliver r.n r.stored d.kbd).2.unread = 0 := by
    rw [rest, precise]
    omega
  have counted : Counted (deliver r.n r.stored d.kbd).2 :=
    ⟨0, by rw [nothing, empty]; rfl⟩
  by_cases more : ((deliver r.n r.stored d.kbd).1.length : Int) < r.n
  · rw [serve_more more]
    refine ⟨flag served.flag, counted, ?_, nofun, fun _ => ?_, ?_⟩
    · intro other member
      rcases List.mem_cons.mp member with isSame | before
      · rw [isSame]
        exact more
      · exact served.needy other before
    · rw [nothing, empty]
      rfl
    · intro _ other isFirst
      cases isFirst
      simpa [empty] using more
  · rw [serve_enough (not_lt.mp more)]
    refine ⟨flag served.flag, counted, served.needy, nofun, fun _ => ?_, ?_⟩
    · rw [nothing, empty]
      rfl
    · intro _ other isFirst
      have lacks := served.needy other (List.mem_of_mem_head? isFirst)
      simpa [empty] using lacks

theorem Served.step (served : d.Served) (possible : d.Possible input)
    (attends : d.Attends input) : (d.step input).Served := by
  cases input with
  | key c => exact served.key possible attends
  | ask reader n => exact served.ask possible.1 attends
  | turn =>
      unfold Driver.step
      cases active : d.active with
      | none => exact served
      | some r => exact served.turn active
  | other => exact served

/-! ## A read stays within its count -/

/-- No read has stored more characters than it was asked for, and the one whose
turn it is will not. -/
structure Bounded (d : Driver) : Prop where
  finished : ∀ record ∈ d.readLog, (record.stored.length : Int) ≤ record.n
  waiting : ∀ r ∈ d.waiting, (r.stored.length : Int) ≤ r.n
  active : ∀ r ∈ d.active, (r.stored.length : Int) ≤ r.n ∧
    ((r.stored.length : Int) < r.n → r.stored.length + d.kbd.charsInCirc ≤ r.n)

/-- A key that wakes a reader finds at most as many characters as the reader
still needs, or a reader that needs nothing. -/
def Measures (d : Driver) : Input → Prop
  | .key c => ∀ r ∈ d.waiting.head?, Kernel.wakesReader (d.keyed c) = true →
      r.stored.length + (d.keyed c).charsInCirc ≤ r.n ∨
        r.n ≤ (r.stored.length : Int)
  | _ => True

instance (d : Driver) (input : Input) : Decidable (d.Measures input) := by
  cases input <;> unfold Measures <;> infer_instance

theorem Bounded.turn (bounded : d.Bounded) {r : Request}
    (active : d.active = some r) : (d.serve r).Bounded := by
  obtain ⟨within, room⟩ := bounded.active r active
  have served : ((deliver r.n r.stored d.kbd).1.length : Int) ≤ r.n := by
    by_cases needy : (r.stored.length : Int) < r.n
    · rw [(deliver_spec d.kbd needy).1]
      exact room needy
    · simpa [deliver, needy] using within
  by_cases more : ((deliver r.n r.stored d.kbd).1.length : Int) < r.n
  · rw [serve_more more]
    refine ⟨bounded.finished, fun other member => ?_, nofun⟩
    rcases List.mem_cons.mp member with isSame | before
    · rw [isSame]
      exact served
    · exact bounded.waiting other before
  · rw [serve_enough (not_lt.mp more)]
    refine ⟨fun record member => ?_, bounded.waiting, nofun⟩
    rcases List.mem_cons.mp member with isSame | before
    · rw [isSame]
      exact served
    · exact bounded.finished record before

theorem Bounded.step (bounded : d.Bounded) (possible : d.Possible input)
    (measures : d.Measures input) : (d.step input).Bounded := by
  cases input with
  | key c =>
      have quiet : d.active = none := possible
      change (d.key c).Bounded
      rcases d.key_cases c with ⟨first, rest, shape, wakes, result⟩ | ⟨_, result⟩
      · rw [result]
        refine ⟨bounded.finished, fun r member => ?_, fun r isFirst => ?_⟩
        · exact bounded.waiting r (by
            rw [shape]
            exact List.mem_cons_of_mem first member)
        · cases isFirst
          refine ⟨bounded.waiting first (by simp [shape]), fun needy => ?_⟩
          have fits := measures first (by simp [shape]) wakes
          exact fits.resolve_right (not_le.mpr needy)
      · rw [result]
        refine ⟨bounded.finished, bounded.waiting, fun r isActive => ?_⟩
        rw [quiet] at isActive
        cases isActive
  | ask reader n =>
      obtain ⟨quiet, nonnegative⟩ := possible
      refine ⟨bounded.finished, fun r member => ?_, fun r isActive => ?_⟩
      · rcases List.mem_append.mp member with before | isNew
        · exact bounded.waiting r before
        · rw [List.mem_singleton.mp isNew]
          exact nonnegative
      · change r ∈ d.active at isActive
        rw [quiet] at isActive
        cases isActive
  | turn =>
      unfold Driver.step
      cases active : d.active with
      | none => exact bounded
      | some r => exact bounded.turn active
  | other => exact bounded

end Driver

namespace Kernel

variable {s s' : Kernel} {event : Event}

/-! ## In every run -/

theorem possible_input (handled : s.handle event = some s') :
    s.driver.Possible (s.input event) := by
  cases event with
  | keyboard scancode beyond =>
      dsimp only [input]
      split_ifs
      · have mode : s.mode = .user := by
          by_contra switched
          rw [handle, if_neg switched] at handled
          cases handled
        exact active_user mode
      · trivial
  | syscall call =>
      cases call with
      | read fd buf count =>
          dsimp only [input]
          split_ifs with accepted
          · have mode : s.mode = .user := by
              by_contra switched
              rw [handle, if_neg fun able => switched able.1] at handled
              cases handled
            exact ⟨active_user mode, accepted.2.2.2⟩
          · trivial
      | _ => trivial
  | resume =>
      dsimp only [input]
      split_ifs <;> trivial
  | _ => trivial

/-- An invariant of the driver holds in every run whose steps meet its
condition. -/
theorem driver_invariant {holds : Driver → Prop} {condition : Driver → Input → Prop}
    (initially : holds ⟨[], none, Keyboard.initial, []⟩)
    (preserved : ∀ d input, holds d → d.Possible input → condition d input →
      holds (d.step input))
    {image : BootImage}
    (run : ReachableUnder (fun s event => condition s.driver (s.input event))
      image s) : holds s.driver := by
  refine Library.Reach.invariant_over (fun state => holds state.driver) ?_
    (fun _ plain => orderly_of_reachable plain) ?_ run
  · exact initially
  · intro before event after orderly held meets taken
    have handled := handle_of_step taken
    rw [driver_step orderly (handle_effect orderly handled)]
    exact preserved _ _ held (possible_input handled) meets

end Kernel

/-- The characters a reader asked for minus those it has stored. -/
def Context.need : Context → Int
  | .readKeyboard _ n stored => n - stored.length
  | _ => 0

namespace Kernel

variable {s s' : Kernel} {event : Event} {image : BootImage}

/-- The first process in `keyboardqueue` needs more characters than there are,
and the buffer is not full. -/
def NoMissedWakeUp (s : Kernel) : Prop :=
  ∀ t ∈ (s.queue .keyboardqueue).head?,
    s.kbd.unread < (s.context t).need ∧ s.kbd.unread < bufferSize

instance (s : Kernel) : Decidable (NoMissedWakeUp s) := by
  unfold NoMissedWakeUp
  infer_instance

/-- `Driver.Attends` for an event of the system. -/
def Attentive (s : Kernel) (event : Event) : Prop :=
  s.driver.Attends (s.input event)

instance (s : Kernel) (event : Event) : Decidable (Attentive s event) := by
  unfold Attentive
  infer_instance

theorem no_missed_wake_up (run : ReachableUnder Attentive image s)
    (user : s.mode = .user) : NoMissedWakeUp s := by
  have initially : Driver.Served ⟨[], none, Keyboard.initial, []⟩ :=
    ⟨rfl, ⟨0, by decide⟩, nofun, nofun, fun _ => by decide, nofun⟩
  have served : s.driver.Served := driver_invariant initially
    (fun _ _ served possible attends => served.step possible attends) run
  have plain : Reachable image s := run.mono fun _ _ _ => trivial
  intro t isFirst
  obtain ⟨rest, shape⟩ : ∃ rest, s.queue .keyboardqueue = t :: rest :=
    List.head?_eq_some_iff.mp isFirst
  obtain ⟨buf, n, stored, saved, first⟩ :=
    (orderly_of_reachable plain).first_request shape
  have waiting : s.driver.waiting ≠ [] := by
    intro empty
    rw [empty] at first
    cases first
  have precise : s.kbd.unread = s.kbd.charsInCirc :=
    served.precise (Or.inl waiting)
  have lacks : (stored.length : Int) + s.kbd.charsInCirc < n :=
    served.first (active_user user) _ first
  have below := s.kbd.charsInCirc_lt
  rw [saved, precise]
  change (s.kbd.charsInCirc : Int) < n - stored.length ∧ _
  omega

/-- The first process has one of its two characters and waits for the other. -/
theorem no_missed_wake_up_reading :
    let events : List Event := [.syscall (.read 0 0x10A000 2), .resume, .keyboard 0x9E 0, .resume,
      .resume]
    ∃ s, Library.runEvents (Library.guarded step Attentive) (boot sampleImage) events = some s ∧
      s.queue .keyboardqueue = [1] ∧ NoMissedWakeUp s := by
  intro events
  obtain ⟨s, finished, seen⟩ := (Option.any_eq_true _ _).mp
    (show (Library.runEvents (Library.guarded step Attentive) (boot sampleImage) events).any
      (fun s => decide (s.mode = .user ∧ s.queue .keyboardqueue = [1])) = true by
        decide +kernel)
  obtain ⟨user, waits⟩ := of_decide_eq_true seen
  exact ⟨s, finished, waits, no_missed_wake_up (Library.Reach.of_guarded finished) user⟩

/-- A key, then a read of one character: the reader sleeps with its character
there. -/
theorem wake_up_missed :
    ∃ s, Reachable sampleImage s ∧ s.mode = .user ∧ ¬ NoMissedWakeUp s :=
  ⟨Library.lastState step (boot sampleImage)
    [.keyboard 0x9E 0, .syscall (.read 0 0x10A000 1), .resume],
    Library.Reach.lastState fun _ _ _ => trivial, by decide +kernel⟩

/-- No call of `sys_read_keyboard` has stored more than it was asked for. -/
def ReadsBounded (s : Kernel) : Prop :=
  (∀ record ∈ s.readLog, (record.stored.length : Int) ≤ record.n) ∧
    ∀ r ∈ s.driver.waiting ++ s.driver.active.toList,
      (r.stored.length : Int) ≤ r.n

instance (s : Kernel) : Decidable (ReadsBounded s) := by
  unfold ReadsBounded
  infer_instance

/-- `Driver.Measures` for an event of the system. -/
def Measured (s : Kernel) (event : Event) : Prop :=
  s.driver.Measures (s.input event)

instance (s : Kernel) (event : Event) : Decidable (Measured s event) := by
  unfold Measured
  infer_instance

theorem reads_bounded (run : ReachableUnder Measured image s) :
    ReadsBounded s := by
  have bounded : s.driver.Bounded :=
    driver_invariant ⟨nofun, nofun, nofun⟩
      (fun _ _ bounded possible measures => bounded.step possible measures) run
  refine ⟨bounded.finished, fun r member => ?_⟩
  rcases List.mem_append.mp member with waiting | active
  · exact bounded.waiting r waiting
  · exact (bounded.active r (by simpa using active)).1

theorem reads_bounded_reading :
    let events : List Event :=
      [.syscall (.read 0 0x10A000 1), .resume, .keyboard 0x9E 0, .resume]
    ∃ s, Library.runEvents (Library.guarded step Measured) (boot sampleImage) events = some s ∧
      s.readLog.length = 1 ∧ ReadsBounded s := by
  intro events
  obtain ⟨s, finished, seen⟩ := (Option.any_eq_true _ _).mp
    (show (Library.runEvents (Library.guarded step Measured) (boot sampleImage) events).any
      (fun s => decide (s.readLog.length = 1)) = true by decide +kernel)
  exact ⟨s, finished, of_decide_eq_true seen,
    reads_bounded (Library.Reach.of_guarded finished)⟩

/-- Two readers wait for one and for five characters; the first key comes before
the second read, so the first reader gets both characters. -/
theorem read_beyond_count : ∃ s, Reachable sampleImage s ∧ ¬ ReadsBounded s :=
  ⟨Library.lastState step (boot sampleImage)
    [.syscall (.clone 0x100000 0x110000), .keyboard 0x9E 0,
      .syscall (.read 0 0x10A000 1), .resume, .syscall (.read 0 0x10A000 5),
      .resume, .keyboard 0x9E 0, .resume],
    Library.Reach.lastState fun _ _ _ => trivial, by decide +kernel⟩

end Kernel

end Zeos
