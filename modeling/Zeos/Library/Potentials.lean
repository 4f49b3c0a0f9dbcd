import Mathlib
import Zeos.Library.Runs

/-!
# Potentials

A measure that every step of a run pays for: as long as a condition lasts, a step that costs
something lowers the potential by as much, and what raises the potential is counted as a
credit.  So a run whose costs are the potential and its credits leaves the condition.
-/

namespace Zeos.Library

universe u v

variable {σ : Type u} {ε : Type v} {step : σ → ε → Option σ}

/-- What the steps of a run gain together. -/
def total (step : σ → ε → Option σ) (gain : σ → ε → σ → Nat) : σ → List ε → Nat
  | _, [] => 0
  | state, event :: events =>
      match step state event with
      | none => 0
      | some after => gain state event after + total step gain after events

theorem total_cons {gain : σ → ε → σ → Nat} {state after : σ} {event : ε}
    (taken : step state event = some after) (events : List ε) :
    total step gain state (event :: events) =
      gain state event after + total step gain after events := by
  rw [total, taken]

/-- A gain that only depends on the event is counted over the events. -/
theorem total_events (gain : ε → Nat) :
    ∀ {events : List ε} {state last : σ}, runEvents step state events = some last →
      total step (fun _ event _ => gain event) state events = (events.map gain).sum
  | [], _, _, _ => rfl
  | event :: events, state, last, run => by
      obtain ⟨after, taken, rest⟩ := Option.bind_eq_some_iff.mp run
      rw [total_cons taken, List.map_cons, List.sum_cons, total_events gain rest]

@[simp] theorem total_zero :
    ∀ (state : σ) (events : List ε), total step (fun _ _ _ => 0) state events = 0
  | _, [] => rfl
  | state, event :: events => by
      unfold total
      split
      · rfl
      · next after _ => rw [total_zero after events]

/-- The condition holds in every state of the run. -/
def Lasts (step : σ → ε → Option σ) (waiting : σ → Prop) : σ → List ε → Prop
  | state, [] => waiting state
  | state, event :: events =>
      waiting state ∧ ∀ after, step state event = some after → Lasts step waiting after events

theorem Lasts.first {waiting : σ → Prop} :
    ∀ {events : List ε} {state : σ}, Lasts step waiting state events → waiting state
  | [], _, lasts => lasts
  | _ :: _, _, lasts => lasts.1

theorem Lasts.last {waiting : σ → Prop} :
    ∀ {events : List ε} {state last : σ}, Lasts step waiting state events →
      runEvents step state events = some last → waiting last
  | [], _, _, lasts, run => by
      cases run
      exact lasts
  | event :: events, _, _, lasts, run => by
      obtain ⟨after, taken, rest⟩ := Option.bind_eq_some_iff.mp run
      exact (lasts.2 after taken).last rest

/-- Whether a condition lasts is found out along the run. -/
instance decidableLasts {waiting : σ → Prop} [DecidablePred waiting] :
    ∀ (state : σ) (events : List ε), Decidable (Lasts step waiting state events)
  | state, [] => inferInstanceAs (Decidable (waiting state))
  | state, event :: events =>
      match taken : step state event with
      | none => decidable_of_iff (waiting state)
          ⟨fun now => ⟨now, fun _ other => nomatch taken.symm.trans other⟩, fun lasts => lasts.1⟩
      | some after =>
          have : Decidable (Lasts step waiting after events) := decidableLasts after events
          decidable_of_iff (waiting state ∧ Lasts step waiting after events)
            ⟨fun both => ⟨both.1, fun _ other =>
              Option.some.inj (taken.symm.trans other) ▸ both.2⟩,
              fun lasts => ⟨lasts.1, lasts.2 after taken⟩⟩

/-- Where every step balances what it costs and what it gains, a run does. -/
theorem balances {good waiting : σ → Prop} {potential : σ → Nat} {cost gain : σ → ε → σ → Nat}
    (keeps : ∀ {state event after}, good state → step state event = some after → good after)
    (exactly : ∀ {state event after}, good state → waiting state →
      step state event = some after → waiting after →
        potential after + cost state event after = potential state + gain state event after) :
    ∀ {events : List ε} {state last : σ}, good state → Lasts step waiting state events →
      runEvents step state events = some last →
      potential last + total step cost state events =
        potential state + total step gain state events
  | [], _, _, _, _, run => by
      cases run
      rfl
  | event :: events, state, last, isGood, lasts, run => by
      obtain ⟨next, taken, rest⟩ := Option.bind_eq_some_iff.mp run
      have later := lasts.2 next taken
      have paid := exactly isGood lasts.1 taken later.first
      have balanced := balances keeps exactly (keeps isGood taken) later rest
      rw [total_cons taken, total_cons taken]
      omega

/-- While `waiting` lasts, every step pays its cost from the potential and its credit. -/
structure Pays (step : σ → ε → Option σ) (good waiting : σ → Prop) (potential : σ → Nat)
    (cost credit : σ → ε → σ → Nat) : Prop where
  keeps : ∀ {state event after}, good state → step state event = some after → good after
  positive : ∀ state, good state → waiting state → 0 < potential state
  pays : ∀ {state event after}, good state → waiting state → step state event = some after →
    waiting after →
      potential after + cost state event after ≤ potential state + credit state event after

namespace Pays

variable {good waiting : σ → Prop} {potential : σ → Nat} {cost credit : σ → ε → σ → Nat}

/-- The first step of a run that is no longer waiting. -/
theorem leaves (pays : Pays step good waiting potential cost credit) :
    ∀ {events : List ε} {state last : σ}, good state → waiting state →
      runEvents step state events = some last →
      potential state + total step credit state events ≤ total step cost state events →
      ∃ before event after middle next, events = before ++ event :: after ∧
        runEvents step state before = some middle ∧ Lasts step waiting state before ∧
        step middle event = some next ∧ runEvents step state (before ++ [event]) = some next ∧
        ¬ waiting next
  | [], state, _, isGood, isWaiting, _, enough => by
      have positive := pays.positive state isGood isWaiting
      unfold total at enough
      omega
  | event :: events, state, last, isGood, isWaiting, run, enough => by
      obtain ⟨next, taken, rest⟩ := Option.bind_eq_some_iff.mp run
      by_cases still : waiting next
      · have paid := pays.pays isGood isWaiting taken still
        rw [total_cons taken, total_cons taken] at enough
        obtain ⟨before, later, after, middle, left, split, reached, lasts, leaving, run, facts⟩ :=
          pays.leaves (pays.keeps isGood taken) still rest (by omega)
        refine ⟨event :: before, later, after, middle, left, ?_, ?_, ⟨isWaiting, ?_⟩, leaving,
          ?_, facts⟩
        · rw [split, List.cons_append]
        · exact Option.bind_eq_some_iff.mpr ⟨next, taken, reached⟩
        · rintro reachedNext takenNext
          cases taken.symm.trans takenNext
          exact lasts
        · exact Option.bind_eq_some_iff.mpr ⟨next, taken, run⟩
      · refine ⟨[], event, events, state, next, rfl, rfl, isWaiting, taken, ?_, still⟩
        exact Option.bind_eq_some_iff.mpr ⟨next, taken, rfl⟩

end Pays

end Zeos.Library
