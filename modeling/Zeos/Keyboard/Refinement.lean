import Zeos.Sched.Reachable

/-!
# The kernel refines the keyboard driver

Every step of the system is a step of the driver on the driver's part of the
state.
-/

namespace Zeos

namespace View

variable {v v' : View} {t : TaskId} {rest : List TaskId} {context : Context}

/-- The requests that wait in `keyboardqueue`. -/
def requests (v : View) : List Request :=
  (v.queue .keyboardqueue).filterMap fun t => (v.context t).request t

theorem requests_congr (queue : v'.queue .keyboardqueue = v.queue .keyboardqueue)
    (contexts : ∀ t ∈ v.queue .keyboardqueue, v'.context t = v.context t) :
    v'.requests = v.requests := by
  unfold requests
  rw [queue]
  refine List.filterMap_congr fun t member => ?_
  rw [contexts t member]

theorem Moves.requests (settled : v.Settled) (moves : v.Moves v') :
    v'.requests = v.requests :=
  requests_congr (Moves.keyboard settled moves).1 (Moves.keyboard settled moves).2

theorem saved_requests (settled : v.Settled) (context : Context) :
    (v.queue .keyboardqueue).filterMap (fun t =>
        (Function.update v.context v.current context t).request t) =
      v.requests := by
  refine List.filterMap_congr fun t member => ?_
  rw [Function.update_of_ne (settled.away member)]

theorem arrive_requests (settled : v.Settled) {r : Request}
    (request : context.request v.current = some r) :
    (v.arrive context).requests = v.requests ++ [r] := by
  have queue : (v.arrive context).queue .keyboardqueue =
      v.queue .keyboardqueue ++ [v.current] := by
    simp [arrive, View.yield, View.dispatch, place]
  unfold requests
  rw [queue, List.filterMap_append]
  congr 1
  · exact saved_requests settled context
  · have own : (v.arrive context).context v.current = context := by
      simp [arrive, View.yield, View.dispatch, place]
    simp [own, request]

theorem comeBack_requests (settled : v.Settled) {r : Request}
    (request : context.request v.current = some r) :
    (v.comeBack context).requests = r :: v.requests := by
  have queue : (v.comeBack context).queue .keyboardqueue =
      v.current :: v.queue .keyboardqueue := by
    simp [comeBack, View.dispatch, place]
  have own : (v.comeBack context).context v.current = context := by
    simp [comeBack, View.dispatch, place]
  unfold requests
  rw [queue, List.filterMap_cons, own, request]
  exact congrArg (List.cons r) (saved_requests settled context)

theorem serve_requests (settled : v.Settled)
    (shape : v.queue .keyboardqueue = t :: rest) {r : Request}
    (request : (v.context t).request t = some r) :
    v.requests = r :: (v.serve t).requests := by
  have saved := saved_requests settled .interrupted
  have queue : (v.serve t).queue .keyboardqueue = rest := by
    unfold View.serve
    rw [wake_dispatch (Or.inl rfl)]
    simp [shape]
  have contexts : (v.serve t).context =
      Function.update v.context v.current .interrupted := by
    unfold View.serve
    rw [wake_dispatch (Or.inl rfl)]
  have notCurrent : t ≠ v.current :=
    settled.away (q := .keyboardqueue) (by rw [shape]; exact List.mem_cons_self)
  rw [shape, List.filterMap_cons, Function.update_of_ne notCurrent, request]
    at saved
  rw [← saved]
  unfold requests
  rw [queue, contexts]

end View

namespace Kernel

variable {s s' : Kernel} {event : Event} {v : View}

theorem driver_eq (refines : s.Refines v) :
    s.driver =
      { waiting := v.requests
        active := if s.mode = .switched then
          (v.context v.current).request v.current else none
        kbd := s.kbd
        readLog := s.readLog } := by
  rw [← refines.view]
  rfl

theorem Orderly.waiting_isEmpty (orderly : s.Orderly) :
    s.driver.waiting.isEmpty = s.listEmpty .keyboardqueue := by
  have emptyIff := orderly.refines.listEmpty_iff (q := .keyboardqueue) trivial
  cases shape : s.queue .keyboardqueue with
  | nil =>
      rw [emptyIff.mpr shape]
      simp [driver, shape]
  | cons t rest =>
      have notEmpty : s.listEmpty .keyboardqueue = false := by
        rw [← Bool.not_eq_true, emptyIff]
        exact fun empty => nomatch shape.symm.trans empty
      have reading : (s.context t).Reading :=
        orderly.contexts.readers t (by
          change t ∈ s.queue .keyboardqueue
          rw [shape]
          exact List.mem_cons_self)
      have request : (s.context t).request t ≠ none := by
        rw [ne_eq, request_eq_none, not_not]
        exact reading
      obtain ⟨r, isRequest⟩ := Option.ne_none_iff_exists'.mp request
      rw [notEmpty]
      simp [driver, shape, isRequest]

theorem Orderly.keyed (orderly : s.Orderly) (c : UInt8) :
    s.driver.keyed c = s.keyStored c := by
  unfold Driver.keyed keyStored
  rw [orderly.waiting_isEmpty]
  rfl

/-- The first waiting request belongs to the first process in
`keyboardqueue`. -/
theorem Orderly.first_request (orderly : s.Orderly) {t : TaskId}
    {rest : List TaskId} (shape : s.queue .keyboardqueue = t :: rest) :
    ∃ buf n stored, s.context t = .readKeyboard buf n stored ∧
      s.driver.waiting.head? = some ⟨t, n, stored⟩ := by
  have reading : (s.context t).Reading :=
    orderly.contexts.readers t (by
      change t ∈ s.queue .keyboardqueue
      rw [shape]
      exact List.mem_cons_self)
  cases saved : s.context t with
  | readKeyboard buf n stored =>
      exact ⟨buf, n, stored, rfl, by simp [driver, shape, saved, Context.request]⟩
  | _ =>
      rw [saved] at reading
      exact reading.elim

theorem active_user (mode : s.mode = .user) : s.driver.active = none := by
  simp [driver, mode]

theorem active_switched (mode : s.mode = .switched) {buf : UInt32} {n : Int}
    {stored : List UInt8}
    (reading : s.context s.current = .readKeyboard buf n stored) :
    s.driver.active = some ⟨s.current, n, stored⟩ := by
  simp [driver, mode, reading, Context.request]

theorem active_other (refines : s.Refines v)
    (other : ¬ (v.context v.current).Reading) : s.driver.active = none := by
  have noRequest := (request_eq_none (t := v.current)).mpr other
  rw [driver_eq refines]
  simp [noRequest]

theorem waiting_eq (refines : s.Refines v) : s.driver.waiting = v.requests := by
  rw [driver_eq refines]

/-- The driver's part of a state, from its four components. -/
theorem driver_ext {d : Driver} (waiting : s.driver.waiting = d.waiting)
    (active : s.driver.active = d.active) (kbd : s.kbd = d.kbd)
    (readLog : s.readLog = d.readLog) : s.driver = d := by
  obtain ⟨_, _, _, _⟩ := d
  subst waiting active kbd readLog
  rfl

theorem key_asleep {d : Driver} {c : UInt8}
    (asleep : wakesReader (d.keyed c) = true → d.waiting = []) :
    d.key c = { d with kbd := d.keyed c } := by
  unfold Driver.key
  cases shape : d.waiting with
  | nil => rfl
  | cons first rest =>
      have sleeps : ¬ wakesReader (d.keyed c) = true := fun wakes => by
        rw [asleep wakes] at shape
        cases shape
      exact if_neg sleeps

theorem key_wakes {d : Driver} {c : UInt8} {first : Request}
    {rest : List Request} (shape : d.waiting = first :: rest)
    (wakes : wakesReader (d.keyed c) = true) :
    d.key c =
      { d with waiting := rest, active := some first, kbd := d.keyed c } := by
  unfold Driver.key
  rw [shape]
  exact if_pos wakes

/-- Every step of the system is a step of the keyboard driver. -/
theorem driver_step (orderly : s.Orderly) (effect : Effect s event s') :
    s'.driver = s.driver.step (s.input event) := by
  have settled := orderly.settled
  have contexts := orderly.contexts
  cases effect with
  | quiet input other refines moves kbd readLog next =>
      have inactive : s.driver.active = none := by
        unfold driver
        split_ifs with switched
        · exact request_eq_none.mpr (other switched)
        · rfl
      have stillInactive : s'.driver.active = none := by
        unfold driver
        split_ifs with switched
        · exact request_eq_none.mpr (next switched)
        · rfl
      rw [input]
      exact driver_ext (moves.requests settled)
        (stillInactive.trans inactive.symm) kbd readLog
  | @typed scancode beyond _ mode make refines kbd asleep readLog user =>
      have input : s.input (.keyboard scancode beyond) =
          .key (charOfScancode scancode beyond) := if_pos make
      rw [input, Driver.step, key_asleep ?_, orderly.keyed]
      · exact driver_ext (waiting_eq refines)
          ((active_user user).trans (active_user mode).symm) kbd readLog
      · intro wakes
        rw [orderly.keyed, ← kbd] at wakes
        simp [driver, asleep wakes]
  | @served scancode beyond t rest _ mode make shape refines kbd wakes readLog
      switched =>
      obtain ⟨buf, n, stored, saved, _⟩ := orderly.first_request shape
      have request : (s.context t).request t = some ⟨t, n, stored⟩ :=
        congrArg (Context.request t) saved
      have input : s.input (.keyboard scancode beyond) =
          .key (charOfScancode scancode beyond) := if_pos make
      have requests : s.driver.waiting = _ :=
        View.serve_requests settled shape request
      rw [input, Driver.step, key_wakes requests ?_, orderly.keyed]
      · refine driver_ext (waiting_eq refines) ?_ kbd readLog
        rw [driver_eq refines]
        have current : (s.view.serve t).current = t := by
          unfold View.serve
          rw [View.wake_dispatch (Or.inl rfl)]
        have kept : (s.view.serve t).context t = s.context t := by
          have notCurrent : t ≠ s.view.current :=
            settled.away (q := .keyboardqueue)
              ((congrArg _ shape).mpr List.mem_cons_self)
          unfold View.serve
          rw [View.wake_dispatch (Or.inl rfl)]
          exact Function.update_of_ne notCurrent _ _
        simp [switched, current, kept, request]
      · rw [orderly.keyed, ← kbd]
        exact wakes
  | @asked fd count buf _ mode busy accepted refines kbd readLog switched =>
      have input : s.input (.syscall (.read fd buf count)) =
          .ask s.current count.toInt := if_pos accepted
      have next := (contexts.arrive settled busy
        (Context.reading_readKeyboard buf count.toInt [])).2
      rw [input]
      refine driver_ext ?_ ?_ kbd readLog
      · rw [waiting_eq refines]
        exact View.arrive_requests settled rfl
      · exact (active_other refines next).trans (active_user mode).symm
  | @delivered buf n stored _ switched reading enough refines kbd readLog user =>
      have active := active_switched switched reading
      have input : s.input .resume = .turn := if_pos (by rw [active]; rfl)
      rw [input, Driver.step, active]
      dsimp only
      rw [Driver.serve_enough (d := s.driver) (r := ⟨s.current, n, stored⟩) enough]
      exact driver_ext (waiting_eq refines) (active_user user) kbd readLog
  | @again buf n stored _ switched reading more refines kbd readLog _ =>
      have active := active_switched switched reading
      have input : s.input .resume = .turn := if_pos (by rw [active]; rfl)
      have busy := orderly.reader_busy reading
      have next := (contexts.comeBack settled busy
        (Context.reading_readKeyboard buf n (deliver n stored s.kbd).1)).2
      rw [input, Driver.step, active]
      dsimp only
      rw [Driver.serve_more (d := s.driver) (r := ⟨s.current, n, stored⟩) more]
      refine driver_ext ?_ (active_other refines next) kbd readLog
      rw [waiting_eq refines]
      exact View.comeBack_requests settled rfl

end Kernel

end Zeos
