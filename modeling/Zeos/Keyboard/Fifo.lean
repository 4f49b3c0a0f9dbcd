import Zeos.Devices

/-!
# The keyboard buffer as a queue

The characters between `lastRead` and `nextToWrite` are a queue as long as one
place of the buffer stays free: `putC` appends and the reading loop takes from
the front.  The flag does not tell whether the buffer is empty, since nothing
ever clears it.
-/

namespace Zeos

namespace Keyboard

/-! ## The unread characters -/

/-- The unread characters, the oldest first. -/
def contents (kb : Keyboard) : List UInt8 :=
  (List.range kb.charsInCirc).map fun k =>
    kb.circBuffer ((kb.lastRead + k) % bufferSize)

@[simp]
theorem contents_length (kb : Keyboard) :
    kb.contents.length = kb.charsInCirc := by
  simp [contents]

theorem nextToWrite_eq (kb : Keyboard) :
    (kb.lastRead + kb.charsInCirc) % bufferSize = kb.nextToWrite := by
  have write := kb.nextToWrite_lt
  have read := kb.lastRead_lt
  rcases kb.charsInCirc_cases with count | count
  · rw [Nat.add_comm, count.2, Nat.mod_eq_of_lt write]
  · rw [Nat.add_comm, count.2, Nat.add_mod_right, Nat.mod_eq_of_lt write]

/-- While another place stays free, `putC` appends its character. -/
theorem putC_contents {kb : Keyboard} (empty : kb.cbIsEmpty = true)
    (room : kb.charsInCirc + 1 < bufferSize) (c : UInt8) (waiting : Bool) :
    (kb.putC c waiting).2.contents = kb.contents ++ [c] := by
  have write := kb.nextToWrite_lt
  have count := putC_charsInCirc empty c waiting
  rw [if_neg (Nat.ne_of_lt room)] at count
  have stored : (kb.putC c waiting).2.circBuffer =
      Function.update kb.circBuffer kb.nextToWrite c := by
    have position : wrap kb.nextToWrite = kb.nextToWrite :=
      if_neg (Nat.ne_of_lt write)
    simp [putC, cbfull, empty, position]
  have sameRead : (kb.putC c waiting).2.lastRead = kb.lastRead := by
    simp [putC, cbfull, empty]
  unfold contents
  rw [count, stored, sameRead, List.range_succ, List.map_append, List.map_singleton,
    nextToWrite_eq, Function.update_self]
  congr 1
  refine List.map_congr_left fun k member => ?_
  have different : (kb.lastRead + k) % bufferSize ≠ kb.nextToWrite := by
    have before := List.mem_range.mp member
    have read := kb.lastRead_lt
    have last := kb.nextToWrite_eq
    simp only [bufferSize] at *
    omega
  exact Function.update_of_ne different _ _

/-- A round of the reading loop takes the oldest character. -/
theorem takeC_contents {kb : Keyboard} (unread : kb.hasUnread = true) :
    kb.contents = kb.takeC.1 :: kb.takeC.2.contents := by
  have count := takeC_charsInCirc (kb.hasUnread_iff.mp unread)
  have read := kb.lastRead_lt
  unfold contents
  rw [← count, List.range_succ_eq_map, List.map_cons, List.map_map]
  congr 1
  · simp only [takeC, Nat.add_zero, Nat.mod_eq_of_lt read]
  · refine List.map_congr_left fun k _ => ?_
    have moved := wrap_cases (kb.lastRead + 1)
    simp only [takeC, Function.comp_apply, Nat.succ_eq_add_one]
    congr 1
    simp only [bufferSize] at *
    omega

/-! ## Refinement of a bounded queue -/

/-- What happens to the buffer: a call of `putC`, with the state of
`keyboardqueue`, or a round of the reading loop. -/
inductive BufferOp where
  | put (c : UInt8) (waiting : Bool)
  | take

/-- The globals say how many characters the queue holds. -/
structure Shows (kb : Keyboard) (queue : List UInt8) : Prop where
  bounded : queue.length ≤ bufferSize
  full : kb.cbfull = true ↔ queue.length = bufferSize
  empty : kb.cbIsEmpty = true ↔ queue = []
  count : queue.length < bufferSize → kb.charsInCirc = queue.length

/-- The buffer behaves like the queue through a sequence of operations: `putC`
returns 0 when it appends, and a round of the reading loop takes the first
character. -/
def Follows (kb : Keyboard) (queue : List UInt8) : List BufferOp → Prop
  | [] => Shows kb queue
  | .put c waiting :: ops =>
      Shows kb queue ∧
        Follows (kb.putC c waiting).2
          (if (kb.putC c waiting).1 = 0 then queue ++ [c] else queue) ops
  | .take :: ops =>
      Shows kb queue ∧
        if kb.hasUnread then
          ∃ rest, queue = kb.takeC.1 :: rest ∧ Follows kb.takeC.2 rest ops
        else
          Follows kb queue ops

theorem Follows.shows {kb : Keyboard} {queue : List UInt8} {ops : List BufferOp}
    (follows : Follows kb queue ops) : Shows kb queue := by
  cases ops with
  | nil => exact follows
  | cons op ops =>
      cases op with
      | put c waiting => exact follows.1
      | take => exact follows.1

theorem initial_shows : Shows initial [] :=
  ⟨by decide, by decide, by decide, by decide⟩

/-- The first stored character leaves the flag at "empty". -/
theorem put_not_follows (c : UInt8) (waiting : Bool) (ops : List BufferOp) :
    ¬ Follows initial [] (.put c waiting :: ops) := by
  rintro ⟨_, follows⟩
  have empty : initial.cbIsEmpty = true := rfl
  have stored := (putC_stores empty c waiting).1
  rw [if_pos stored] at follows
  have flag := putC_cbIsEmpty empty c waiting
  have noQueue := follows.shows.empty.mp flag
  simp at noQueue

/-- The buffer refines a bounded queue exactly in the sequences in which no
character is put. -/
theorem follows_iff (ops : List BufferOp) :
    Follows initial [] ops ↔ ∀ c waiting, BufferOp.put c waiting ∉ ops := by
  induction ops with
  | nil => exact iff_of_true initial_shows (by simp)
  | cons op ops inductionHypothesis =>
      cases op with
      | put c waiting =>
          exact iff_of_false (put_not_follows c waiting ops) fun absent =>
            absent c waiting List.mem_cons_self
      | take =>
          have nothing : initial.hasUnread = false := rfl
          simp only [Follows, nothing, inductionHypothesis, List.mem_cons]
          simp [initial_shows]

/-- One character is put into the empty buffer. -/
theorem one_put_not_follows : ¬ Follows initial [] [.put 97 false] :=
  put_not_follows 97 false []

end Keyboard

end Zeos
