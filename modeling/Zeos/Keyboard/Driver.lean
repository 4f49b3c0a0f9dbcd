import Zeos.Machine

/-!
# The keyboard driver by itself

The part of the system that the reads of the keyboard depend on: the buffer,
the requests that wait in `keyboardqueue`, and the request whose turn it is.
The rest of the system gives the driver three inputs: a key, a new request,
and the dispatch of the reader that was woken.
-/

namespace Zeos

/-- A call of `sys_read_keyboard` that is not finished. -/
structure Request where
  reader : TaskId
  n : Int
  stored : List UInt8

structure Driver where
  waiting : List Request
  /-- The reader that a key has woken and switched to. -/
  active : Option Request
  kbd : Keyboard
  readLog : List ReadRecord

inductive Input where
  | key (c : UInt8)
  | ask (reader : TaskId) (n : Int)
  | turn
  | other
  deriving DecidableEq

/-- What a reader has after its turn in the loop of `sys_read_keyboard`, and
what it leaves in the buffer. -/
def deliver (n : Int) (stored : List UInt8) (kbd : Keyboard) :
    List UInt8 × Keyboard :=
  if (stored.length : Int) < n then
    (stored ++ (Keyboard.drain bufferSize kbd).1,
      (Keyboard.drain bufferSize kbd).2)
  else
    (stored, kbd)

namespace Driver

/-- The buffer after a key. -/
def keyed (d : Driver) (c : UInt8) : Keyboard :=
  if c = 0 then d.kbd else (d.kbd.putC c !d.waiting.isEmpty).2

/-- A key: the first reader is woken when the driver takes it to be served. -/
def key (d : Driver) (c : UInt8) : Driver :=
  match d.waiting with
  | [] => { d with kbd := d.keyed c }
  | first :: rest =>
      if Kernel.wakesReader (d.keyed c) then
        { d with waiting := rest, active := some first, kbd := d.keyed c }
      else
        { d with kbd := d.keyed c }

/-- A new request waits behind the others. -/
def ask (d : Driver) (reader : TaskId) (n : Int) : Driver :=
  { d with
    waiting := d.waiting ++ [⟨reader, n, []⟩]
    kbd := { d.kbd with leftToRead := n } }

/-- The turn of a reader: it is finished, or it waits in front of the others. -/
def serve (d : Driver) (r : Request) : Driver :=
  if ((deliver r.n r.stored d.kbd).1.length : Int) < r.n then
    { d with
      waiting := { r with stored := (deliver r.n r.stored d.kbd).1 } :: d.waiting
      active := none
      kbd := (deliver r.n r.stored d.kbd).2 }
  else
    { d with
      active := none
      kbd := (deliver r.n r.stored d.kbd).2
      readLog := ⟨r.reader, r.n, (deliver r.n r.stored d.kbd).1⟩ :: d.readLog }

theorem serve_enough {d : Driver} {r : Request}
    (enough : r.n ≤ ((deliver r.n r.stored d.kbd).1.length : Int)) :
    d.serve r =
      { d with
        active := none
        kbd := (deliver r.n r.stored d.kbd).2
        readLog :=
          ⟨r.reader, r.n, (deliver r.n r.stored d.kbd).1⟩ :: d.readLog } :=
  if_neg (not_lt.mpr enough)

theorem serve_more {d : Driver} {r : Request}
    (more : ((deliver r.n r.stored d.kbd).1.length : Int) < r.n) :
    d.serve r =
      { d with
        waiting :=
          { r with stored := (deliver r.n r.stored d.kbd).1 } :: d.waiting
        active := none
        kbd := (deliver r.n r.stored d.kbd).2 } :=
  if_pos more

def step (d : Driver) : Input → Driver
  | .key c => d.key c
  | .ask reader n => d.ask reader n
  | .turn =>
      match d.active with
      | some r => d.serve r
      | none => d
  | .other => d

end Driver

/-- The request that a context goes on with. -/
def Context.request (t : TaskId) : Context → Option Request
  | .readKeyboard _ n stored => some ⟨t, n, stored⟩
  | _ => none

namespace Kernel

/-- The driver's part of the kernel state. -/
def driver (s : Kernel) : Driver where
  waiting := (s.queue .keyboardqueue).filterMap fun t => (s.context t).request t
  active :=
    if s.mode = .switched then (s.context s.current).request s.current else none
  kbd := s.kbd
  readLog := s.readLog

/-- What an event is to the driver. -/
def input (s : Kernel) : Event → Input
  | .keyboard scancode beyond =>
      if scancode &&& 0x80 ≠ 0 then .key (charOfScancode scancode beyond)
      else .other
  | .syscall (.read fd buf count) =>
      if ReadAccepted fd buf count then .ask s.current count.toInt else .other
  | .resume => if (s.driver.active).isSome then .turn else .other
  | _ => .other

end Kernel

end Zeos
