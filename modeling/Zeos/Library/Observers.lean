import Zeos.Library.Runs

/-!
# Runs with an observer

An observer keeps a record of a run: after each step it may change the record,
knowing the state before the step, the event and the state after it.  It has no
influence on the run, so what holds of every observed run is a statement about
the history of every run.
-/

namespace Zeos.Library

universe u v w

variable {σ : Type u} {ε : Type v} {γ : Type w} {step : σ → ε → Option σ}
  {watch : σ → ε → σ → γ → γ} {allowed : σ → ε → Prop} {first last : σ}
  {blank record : γ}

/-- A step function together with the record of an observer. -/
def observed (step : σ → ε → Option σ) (watch : σ → ε → σ → γ → γ)
    (before : σ × γ) (event : ε) : Option (σ × γ) :=
  (step before.1 event).map fun after =>
    (after, watch before.1 event after before.2)

/-- A run reaches `last`, and the observer who began with `blank` has
`record`. -/
abbrev Observe (step : σ → ε → Option σ) (watch : σ → ε → σ → γ → γ)
    (allowed : σ → ε → Prop) (first : σ) (blank : γ) (last : σ) (record : γ) :
    Prop :=
  Reach (observed step watch) (fun before => allowed before.1) (first, blank)
    (last, record)

theorem observed_eq_some {before after : σ × γ} {event : ε} :
    observed step watch before event = some after ↔
      step before.1 event = some after.1 ∧
        after.2 = watch before.1 event after.1 before.2 := by
  obtain ⟨state, record⟩ := after
  unfold observed
  rw [Option.map_eq_some_iff]
  constructor
  · rintro ⟨next, taken, same⟩
    cases same
    exact ⟨taken, rfl⟩
  · rintro ⟨taken, same⟩
    exact ⟨state, taken, by rw [← same]⟩

/-- An observed run is a run. -/
theorem Reach.unobserved {after : σ × γ}
    (run : Reach (observed step watch) (fun before => allowed before.1)
      (first, blank) after) : Reach step allowed first after.1 := by
  induction run with
  | start => exact .start
  | step _ condition taken inductionHypothesis =>
      exact .step inductionHypothesis condition (observed_eq_some.mp taken).1

/-- Observing a restricted step function restricts the observed one. -/
theorem observed_guarded {guard : σ → ε → Prop} [∀ state event, Decidable (guard state event)] :
    observed (guarded step guard) watch =
      guarded (observed step watch) fun before => guard before.1 := by
  funext before event
  unfold observed guarded
  split_ifs <;> rfl

/-- The observed runs of the restricted step function are those that meet the
condition. -/
theorem observe_guarded_iff {guard : σ → ε → Prop}
    [∀ state event, Decidable (guard state event)] :
    Observe (guarded step guard) watch allowed first blank last record ↔
      Observe step watch (fun state event => guard state event ∧ allowed state event)
        first blank last record := by
  unfold Observe
  rw [observed_guarded, reach_guarded_iff]

/-- A run over a list of events, and what an observer sees of it. -/
theorem Reach.lastObserved {events : List ε}
    (always : ∀ event ∈ events, ∀ state, allowed state event) :
    Observe step watch allowed first blank
      (Library.lastState (observed step watch) (first, blank) events).1
      (Library.lastState (observed step watch) (first, blank) events).2 :=
  Reach.lastState fun event member state => always event member state.1

/-- The same for the run that stops before the first event that is not
allowed. -/
theorem Reach.guardedObserved [∀ state event, Decidable (allowed state event)]
    {events : List ε} :
    Observe step watch allowed first blank
      (Library.lastState (Library.guarded (observed step watch)
        fun before => allowed before.1) (first, blank) events).1
      (Library.lastState (Library.guarded (observed step watch)
        fun before => allowed before.1) (first, blank) events).2 :=
  Reach.guarded (Reach.lastState fun _ _ _ => trivial)

/-- The same where the condition consults the record. -/
theorem Reach.guardedRecord {permitted : σ × γ → ε → Prop}
    [∀ before event, Decidable (permitted before event)] {events : List ε} :
    Reach (observed step watch) permitted (first, blank)
      ((Library.lastState (Library.guarded (observed step watch) permitted)
          (first, blank) events).1,
        (Library.lastState (Library.guarded (observed step watch) permitted)
          (first, blank) events).2) :=
  Reach.guarded (Reach.lastState fun _ _ _ => trivial)

/-- The invariant rule for observed runs, on top of an invariant of all
runs. -/
theorem Reach.observe_invariant {base : σ → Prop} (holds : σ → γ → Prop)
    (initially : holds first blank)
    (always : ∀ state, Reach step (fun _ _ => True) first state → base state)
    (preserved : ∀ before event after record, base before →
      holds before record → allowed before event →
      step before event = some after →
      holds after (watch before event after record))
    (run : Observe step watch allowed first blank last record) :
    holds last record := by
  have known : ∀ state : σ × γ, Reach (observed step watch) (fun _ _ => True)
      (first, blank) state → base state.1 := by
    intro state plain
    exact always _ (Reach.unobserved (plain.mono fun _ _ _ => trivial))
  refine Reach.invariant_over (fun state : σ × γ => holds state.1 state.2)
    initially known ?_ run
  intro before event after based kept condition taken
  obtain ⟨stepped, recorded⟩ := observed_eq_some.mp taken
  rw [recorded]
  exact preserved _ _ _ _ based kept condition stepped

/-- The invariant rule for observed runs whose condition consults the record. -/
theorem Reach.record_invariant {permitted : σ × γ → ε → Prop} {base : σ → Prop}
    (holds : σ → γ → Prop) (initially : holds first blank)
    (always : ∀ state, Reach step (fun _ _ => True) first state → base state)
    (preserved : ∀ before event after record, base before →
      holds before record → permitted (before, record) event →
      step before event = some after →
      holds after (watch before event after record))
    (run : Reach (observed step watch) permitted (first, blank) (last, record)) :
    holds last record := by
  refine Reach.invariant_over (fun state : σ × γ => holds state.1 state.2)
    initially (fun state plain => always _ (Reach.unobserved plain)) ?_ run
  intro before event after based kept condition taken
  obtain ⟨stepped, recorded⟩ := observed_eq_some.mp taken
  rw [recorded]
  exact preserved _ _ _ _ based kept condition stepped

end Zeos.Library
