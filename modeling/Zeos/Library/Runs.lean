import Mathlib.Tactic.SplitIfs

/-!
# Runs of a partial step function

A system is a step function `σ → ε → Option σ`.  `Reach step allowed start`
holds of the states that a run can end in when it begins in `start` and every
step satisfies the condition `allowed` on the state before the step and the
event.  One rule carries every proof about runs: what the start has and every
allowed step keeps, every reachable state has.
-/

namespace Zeos.Library

universe u v

/-- The states reached by runs whose steps all satisfy `allowed`. -/
inductive Reach {σ : Type u} {ε : Type v} (step : σ → ε → Option σ)
    (allowed : σ → ε → Prop) (start : σ) : σ → Prop
  | start : Reach step allowed start start
  | step {before after : σ} {event : ε} :
      Reach step allowed start before →
      allowed before event →
      step before event = some after →
      Reach step allowed start after

namespace Reach

variable {σ : Type u} {ε : Type v} {step : σ → ε → Option σ}
  {allowed weaker : σ → ε → Prop} {first last : σ}

/-- The invariant rule. -/
theorem invariant {holds : σ → Prop} (initially : holds first)
    (preserved : ∀ before event after, holds before → allowed before event →
      step before event = some after → holds after)
    (run : Reach step allowed first last) : holds last := by
  induction run with
  | start => exact initially
  | step _ condition taken inductionHypothesis =>
      exact preserved _ _ _ inductionHypothesis condition taken

/-- A run under a condition is a run under every weaker condition. -/
theorem mono (implies : ∀ state event, allowed state event → weaker state event)
    (run : Reach step allowed first last) : Reach step weaker first last := by
  induction run with
  | start => exact .start
  | step _ condition taken inductionHypothesis =>
      exact .step inductionHypothesis (implies _ _ condition) taken

/-- The invariant rule on top of an invariant that holds without the
condition. -/
theorem invariant_over {base : σ → Prop} (holds : σ → Prop) (initially : holds first)
    (always : ∀ state, Reach step (fun _ _ => True) first state → base state)
    (preserved : ∀ before event after, base before → holds before →
      allowed before event → step before event = some after → holds after)
    (run : Reach step allowed first last) : holds last := by
  induction run with
  | start => exact initially
  | step earlier condition taken inductionHypothesis =>
      have plain : Reach step (fun _ _ => True) first _ :=
        earlier.mono fun _ _ _ => trivial
      exact preserved _ _ _ (always _ plain) inductionHypothesis condition taken

end Reach

/-- Run a list of events from a state, if every step is possible. -/
def runEvents {σ : Type u} {ε : Type v} (step : σ → ε → Option σ) :
    σ → List ε → Option σ
  | state, [] => some state
  | state, event :: events =>
      (step state event).bind fun after => runEvents step after events

/-- Every state that a list of events leads to is reached by a run, if the
events are allowed in all states. -/
theorem Reach.of_runEvents {σ : Type u} {ε : Type v} {step : σ → ε → Option σ}
    {allowed : σ → ε → Prop} {first : σ} :
    ∀ {events : List ε} {middle last : σ},
      Reach step allowed first middle →
      (∀ event ∈ events, ∀ state, allowed state event) →
      runEvents step middle events = some last →
      Reach step allowed first last
  | [], _, _, run, _, finished => by
      cases finished
      exact run
  | event :: events, middle, last, run, always, finished => by
      obtain ⟨after, taken, rest⟩ := Option.bind_eq_some_iff.mp finished
      have condition := always event List.mem_cons_self middle
      exact of_runEvents (run.step condition taken)
        (fun later member => always later (List.mem_cons_of_mem event member)) rest

/-- The last state of a run over a list of events, or the first state where some
event is not possible. -/
def lastState {σ : Type u} {ε : Type v} (step : σ → ε → Option σ) (first : σ)
    (events : List ε) : σ :=
  (runEvents step first events).getD first

theorem Reach.lastState {σ : Type u} {ε : Type v} {step : σ → ε → Option σ}
    {allowed : σ → ε → Prop} {first : σ} {events : List ε}
    (always : ∀ event ∈ events, ∀ state, allowed state event) :
    Reach step allowed first (lastState step first events) := by
  unfold Library.lastState
  cases finished : runEvents step first events with
  | none => exact .start
  | some last => exact of_runEvents .start always finished

/-- The step function restricted to the events that a condition allows. -/
def guarded {σ : Type u} {ε : Type v} (step : σ → ε → Option σ)
    (allowed : σ → ε → Prop) [∀ state event, Decidable (allowed state event)]
    (state : σ) (event : ε) : Option σ :=
  if allowed state event then step state event else none

/-- The runs of the restricted step function are the runs that meet the
condition. -/
theorem reach_guarded_iff {σ : Type u} {ε : Type v} {step : σ → ε → Option σ}
    {guard allowed : σ → ε → Prop} [∀ state event, Decidable (guard state event)]
    {first last : σ} :
    Reach (guarded step guard) allowed first last ↔
      Reach step (fun state event => guard state event ∧ allowed state event) first last := by
  constructor
  · intro run
    induction run with
    | start => exact .start
    | step _ condition taken inductionHypothesis =>
        unfold guarded at taken
        split_ifs at taken with met
        exact .step inductionHypothesis ⟨met, condition⟩ taken
  · intro run
    induction run with
    | start => exact .start
    | step _ condition taken inductionHypothesis =>
        exact .step inductionHypothesis condition.2 ((if_pos condition.1).trans taken)

/-- A run of the restricted step function meets the condition. -/
theorem Reach.guarded {σ : Type u} {ε : Type v} {step : σ → ε → Option σ}
    {allowed : σ → ε → Prop} [∀ state event, Decidable (allowed state event)]
    {first last : σ}
    (run : Reach (guarded step allowed) (fun _ _ => True) first last) :
    Reach step allowed first last :=
  (reach_guarded_iff.mp run).mono fun _ _ condition => condition.1

/-- A list of events that are all allowed where they happen. -/
theorem Reach.of_guarded {σ : Type u} {ε : Type v} {step : σ → ε → Option σ}
    {allowed : σ → ε → Prop} [∀ state event, Decidable (allowed state event)]
    {first last : σ} {events : List ε}
    (finished : runEvents (Library.guarded step allowed) first events = some last) :
    Reach step allowed first last :=
  Reach.guarded (of_runEvents .start (fun _ _ _ => trivial) finished)

end Zeos.Library
