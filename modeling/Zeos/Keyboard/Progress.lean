import Mathlib
import Zeos.Keyboard.Readers

/-!
# The progress of the first reader

`leftToRead` is one variable for all readers.  It is the first reader's `n - i` in the
runs in which a new reader or a finished one leaves it so.
-/

namespace Zeos

open Keyboard

/-- The characters a request asks for minus those it has stored. -/
def Request.need (r : Request) : Int := r.n - r.stored.length

theorem putC_leftToRead (c : UInt8) (waiting : Bool) (kb : Keyboard) :
    (kb.putC c waiting).2.leftToRead = kb.leftToRead := by
  unfold Keyboard.putC
  split_ifs
  · rfl
  · rfl
  · rfl

/-- A turn takes what the indices show if characters are needed, and counts it. -/
theorem deliver_leftToRead (r : Request) (kbd : Keyboard) :
    (deliver r.n r.stored kbd).2.leftToRead =
        kbd.leftToRead - (if 0 < r.need then (kbd.charsInCirc : Int) else 0) ∧
      ((deliver r.n r.stored kbd).1.length : Int) =
        r.stored.length + (if 0 < r.need then (kbd.charsInCirc : Int) else 0) := by
  obtain ⟨_, length, _, _, left, _⟩ :=
    drain_spec bufferSize kbd (Nat.le_of_lt kbd.charsInCirc_lt)
  have needy : 0 < r.need ↔ (r.stored.length : Int) < r.n := by
    unfold Request.need
    omega
  unfold deliver
  by_cases more : (r.stored.length : Int) < r.n
  · rw [if_pos more, if_pos (needy.mpr more)]
    refine ⟨left, ?_⟩
    rw [List.length_append, length]
    omega
  · rw [if_neg more, if_neg fun positive => more (needy.mp positive)]
    exact ⟨(Int.sub_zero _).symm, (Int.add_zero _).symm⟩

namespace Driver

variable {d : Driver} {input : Input}

/-- `leftToRead` is the `n - i` of the woken reader, or else of the first that waits. -/
structure Headed (d : Driver) : Prop where
  active : ∀ r ∈ d.active, d.kbd.leftToRead = r.need
  waiting : d.active = none → ∀ r ∈ d.waiting.head?, d.kbd.leftToRead = r.need

/-- A new request is for as many characters as the first reader still needs.  A reader
that is finished leaves no other behind, or one that needs what `leftToRead` then says. -/
def HandsOver (d : Driver) : Input → Prop
  | .ask _ n => ∀ r ∈ d.waiting.head?, r.need = n
  | .turn => ∀ r ∈ d.active, r.need ≤ d.kbd.charsInCirc → ∀ next ∈ d.waiting.head?,
      next.need = r.need - (if 0 < r.need then (d.kbd.charsInCirc : Int) else 0)
  | _ => True

instance (d : Driver) (input : Input) : Decidable (d.HandsOver input) :=
  match input with
  | .ask _ n => inferInstanceAs (Decidable (∀ r ∈ d.waiting.head?, r.need = n))
  | .turn => inferInstanceAs (Decidable
      (∀ r ∈ d.active, r.need ≤ d.kbd.charsInCirc → ∀ next ∈ d.waiting.head?,
        next.need =
          r.need - (if 0 < r.need then (d.kbd.charsInCirc : Int) else 0)))
  | .key _ | .other => inferInstanceAs (Decidable True)

theorem keyed_leftToRead (d : Driver) (c : UInt8) :
    (d.keyed c).leftToRead = d.kbd.leftToRead := by
  unfold keyed
  split_ifs
  · rfl
  · exact putC_leftToRead c _ d.kbd

theorem Headed.key (headed : d.Headed) (quiet : d.active = none) (c : UInt8) :
    (d.key c).Headed := by
  have left := keyed_leftToRead d c
  rcases d.key_cases c with ⟨first, rest, shape, _, result⟩ | ⟨_, result⟩
  · rw [result]
    refine ⟨?_, nofun⟩
    intro r isFirst
    cases isFirst
    exact left.trans (headed.waiting quiet first (by rw [shape]; rfl))
  · rw [result]
    refine ⟨?_, ?_⟩
    · intro r isActive
      exact left.trans (headed.active r isActive)
    · intro _ r isFirst
      exact left.trans (headed.waiting quiet r isFirst)

theorem Headed.ask (quiet : d.active = none) (reader : TaskId) {n : Int}
    (hands : ∀ r ∈ d.waiting.head?, r.need = n) : (d.ask reader n).Headed := by
  refine ⟨?_, ?_⟩
  · intro r isActive
    change r ∈ d.active at isActive
    rw [quiet] at isActive
    cases isActive
  · intro _ r isFirst
    change r ∈ (d.waiting ++ [(⟨reader, n, []⟩ : Request)]).head? at isFirst
    change n = r.need
    cases waiting : d.waiting with
    | nil =>
        rw [waiting] at isFirst
        cases isFirst
        exact (Int.sub_zero n).symm
    | cons first rest =>
        rw [waiting] at isFirst
        cases isFirst
        exact (hands r (by rw [waiting]; rfl)).symm

theorem Headed.turn (headed : d.Headed) {r : Request} (active : d.active = some r)
    (hands : r.need ≤ d.kbd.charsInCirc → ∀ next ∈ d.waiting.head?,
      next.need = r.need - (if 0 < r.need then (d.kbd.charsInCirc : Int) else 0)) :
    (d.serve r).Headed := by
  obtain ⟨left, length⟩ := deliver_leftToRead r d.kbd
  have before := headed.active r active
  have need : r.need = r.n - r.stored.length := rfl
  by_cases more : ((deliver r.n r.stored d.kbd).1.length : Int) < r.n
  · rw [serve_more more]
    refine ⟨nofun, ?_⟩
    intro _ next isFirst
    cases isFirst
    change (deliver r.n r.stored d.kbd).2.leftToRead =
      r.n - ((deliver r.n r.stored d.kbd).1.length : Int)
    omega
  · rw [serve_enough (not_lt.mp more)]
    refine ⟨nofun, ?_⟩
    intro _ next isFirst
    have finished : r.need ≤ d.kbd.charsInCirc := by
      split_ifs at length <;> omega
    have handed := hands finished next isFirst
    change (deliver r.n r.stored d.kbd).2.leftToRead = next.need
    omega

theorem Headed.step (headed : d.Headed) (possible : d.Possible input)
    (hands : d.HandsOver input) : (d.step input).Headed := by
  cases input with
  | key c => exact headed.key possible c
  | ask reader n => exact Headed.ask possible.1 reader hands
  | turn =>
      unfold Driver.step
      cases active : d.active with
      | none => exact headed
      | some r => exact headed.turn active (hands r active)
  | other => exact headed

end Driver

namespace Kernel

variable {s : Kernel} {image : BootImage}

/-- `leftToRead` is the `n - i` of the first process in `keyboardqueue`. -/
def LeftToReadOfFirst (s : Kernel) : Prop :=
  ∀ t ∈ (s.queue .keyboardqueue).head?, s.kbd.leftToRead = (s.context t).need

instance (s : Kernel) : Decidable (LeftToReadOfFirst s) := by
  unfold LeftToReadOfFirst
  infer_instance

/-- `Driver.HandsOver` for an event of the system. -/
def HandedOver (s : Kernel) (event : Event) : Prop :=
  s.driver.HandsOver (s.input event)

instance (s : Kernel) (event : Event) : Decidable (HandedOver s event) := by
  unfold HandedOver
  infer_instance

theorem left_to_read_of_first (run : ReachableUnder HandedOver image s)
    (user : s.mode = .user) : LeftToReadOfFirst s := by
  have initially : Driver.Headed ⟨[], none, Keyboard.initial, []⟩ := ⟨nofun, nofun⟩
  have headed : s.driver.Headed := driver_invariant initially
    (fun _ _ headed possible hands => headed.step possible hands) run
  have plain : Reachable image s := run.mono fun _ _ _ => trivial
  intro t isFirst
  obtain ⟨rest, shape⟩ : ∃ rest, s.queue .keyboardqueue = t :: rest :=
    List.head?_eq_some_iff.mp isFirst
  obtain ⟨buf, n, stored, saved, first⟩ :=
    (orderly_of_reachable plain).first_request shape
  rw [saved]
  exact headed.waiting (active_user user) _ first

/-- A key comes while one of two characters is still missing. -/
theorem left_to_read_of_first_reading :
    let events : List Event := [.syscall (.read 0 0x10A000 2), .resume, .keyboard 0x9E 0, .resume,
      .resume]
    ∃ s, Library.runEvents (Library.guarded step HandedOver) (boot sampleImage) events = some s ∧
      s.queue .keyboardqueue = [1] ∧ LeftToReadOfFirst s := by
  intro events
  obtain ⟨s, finished, seen⟩ := (Option.any_eq_true _ _).mp
    (show (Library.runEvents (Library.guarded step HandedOver) (boot sampleImage) events).any
      (fun s => decide (s.mode = .user ∧ s.queue .keyboardqueue = [1])) = true by
        decide +kernel)
  obtain ⟨user, waits⟩ := of_decide_eq_true seen
  exact ⟨s, finished, waits, left_to_read_of_first (Library.Reach.of_guarded finished) user⟩

/-- The second reader's five characters are written over the one that the first still
needs. -/
theorem left_to_read_overwritten :
    ∃ s, Reachable sampleImage s ∧ s.mode = .user ∧ ¬ LeftToReadOfFirst s :=
  ⟨Library.lastState step (boot sampleImage)
    [.syscall (.clone 0x100000 0x110000), .syscall (.read 0 0x10A000 1), .resume,
      .syscall (.read 0 0x10A000 5), .resume],
    Library.Reach.lastState fun _ _ _ => trivial, by decide +kernel⟩

end Kernel

end Zeos
