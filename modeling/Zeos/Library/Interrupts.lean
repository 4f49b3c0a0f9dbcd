import Zeos.Library.Assembly

/-!
# Gates, interrupts and `iret`

What the processor does in protected mode when it goes through a gate of the interrupt
descriptor table: it saves where it was on the stack, on that of the inner level if the
level changes, and an interrupt gate masks interrupts.  `iret` goes back.
-/

namespace Zeos.Library

/-! ## Gates -/

/-- An entry of the interrupt descriptor table. -/
structure Gate where
  lowOffset : UInt16
  segmentSelector : UInt16
  flags : UInt16
  highOffset : UInt16
  deriving DecidableEq

/-- What the processor reads from a gate.  A trap gate does not mask interrupts. -/
structure Entrance where
  offset : UInt32
  selector : UInt32
  dpl : Nat
  masks : Bool
  deriving DecidableEq

/-- The present bit, the privilege level and the type of a gate are the bits 15, 14-13 and
12-8 of its flags; the types are those of 32-bit interrupt and trap gates. -/
def Gate.decode (gate : Gate) : Option Entrance :=
  let kind := gate.flags.toNat / 2 ^ 8 % 2 ^ 5
  if gate.flags.toNat / 2 ^ 15 = 1 ∧ (kind = 14 ∨ kind = 15) then
    some
      { offset := UInt32.ofNat (gate.highOffset.toNat * 2 ^ 16 + gate.lowOffset.toNat)
        selector := UInt32.ofNat gate.segmentSelector.toNat
        dpl := gate.flags.toNat / 2 ^ 13 % 4
        masks := decide (kind = 14) }
  else
    none

/-! ## The processor -/

structure Processor where
  machine : Machine
  eip : UInt32
  cs : UInt32
  ss : UInt32
  eflags : UInt32

/-- The privilege level of a selector. -/
def level (selector : UInt32) : Nat := selector.toNat % 4

/-- IF, the flag that enables interrupts. -/
def interruptFlag : UInt32 := 0x200

/-- What a trap gate clears: TF, NT, RF and VM. -/
def trapFlags : UInt32 := 0x34100

namespace Processor

def Enabled (p : Processor) : Prop := p.eflags &&& interruptFlag ≠ 0

instance (p : Processor) : Decidable p.Enabled := by
  unfold Enabled
  infer_instance

/-- The flags behind a gate. -/
def maskedFlags (p : Processor) (gate : Entrance) : UInt32 :=
  p.eflags &&& ~~~ if gate.masks then trapFlags ||| interruptFlag else trapFlags

/-- The machine on the stack that the gate uses; `esp0` is that of the inner level. -/
def onStack (p : Processor) (gate : Entrance) (esp0 : UInt32) : Machine :=
  if level gate.selector < level p.cs then p.machine.setReg .esp esp0 else p.machine

/-- What the gate saves, the last word on top. -/
def frame (p : Processor) (gate : Entrance) : List UInt32 :=
  if level gate.selector < level p.cs then [p.eip, p.cs, p.eflags, p.machine.reg .esp, p.ss]
  else [p.eip, p.cs, p.eflags]

/-- The processor goes through a gate. -/
def deliver (p : Processor) (gate : Entrance) (esp0 ss0 : UInt32) : Processor where
  machine := (p.frame gate).reverse.foldl Machine.push (p.onStack gate esp0)
  eip := gate.offset
  cs := gate.selector
  ss := if level gate.selector < level p.cs then ss0 else p.ss
  eflags := p.maskedFlags gate

/-- `int n`: a general protection exception if the gate is for inner levels only. -/
def callGate (p : Processor) (gate : Entrance) (esp0 ss0 : UInt32) : Option Processor :=
  if level p.cs ≤ gate.dpl then some (p.deliver gate esp0 ss0) else none

/-- `iret`. -/
def iret (p : Processor) : Processor :=
  let m := p.machine
  let word k := m.mem (m.reg .esp + UInt32.ofNat (4 * k))
  let outer := level p.cs < level (word 1)
  { machine := m.setReg .esp (if outer then word 3 else m.reg .esp + 12)
    eip := word 0
    cs := word 1
    ss := if outer then word 4 else p.ss
    eflags := word 2 }

variable {p q : Processor} {gate : Entrance} {esp0 ss0 : UInt32} {m : Machine}
  {ws frame : List UInt32}

/-! ## Flags -/

theorem not_enabled_deliver (masks : gate.masks = true) : ¬ (p.deliver gate esp0 ss0).Enabled := by
  intro enabled
  apply enabled
  have flags : (p.deliver gate esp0 ss0).eflags =
      p.eflags &&& ~~~(trapFlags ||| interruptFlag) := by
    unfold deliver maskedFlags
    rw [if_pos masks]
  rw [flags, UInt32.and_assoc, show ~~~(trapFlags ||| interruptFlag) &&& interruptFlag = 0 from rfl,
    UInt32.and_zero]

theorem enabled_deliver_iff (masks : gate.masks = false) :
    (p.deliver gate esp0 ss0).Enabled ↔ p.Enabled := by
  have flags : (p.deliver gate esp0 ss0).eflags = p.eflags &&& ~~~trapFlags := by
    unfold deliver maskedFlags
    rw [masks]
    rfl
  unfold Enabled
  rw [flags, UInt32.and_assoc, show ~~~trapFlags &&& interruptFlag = interruptFlag from rfl]

/-! ## The frame -/

theorem length_frame (p : Processor) (gate : Entrance) :
    3 ≤ (p.frame gate).length ∧ (p.frame gate).length ≤ 5 := by
  unfold Processor.frame
  split_ifs
  · exact (by decide : 3 ≤ 5 ∧ 5 ≤ 5)
  · exact (by decide : 3 ≤ 3 ∧ 3 ≤ 5)

theorem foldl_push_reg {r : Register} (other : r ≠ .esp) :
    (ws.foldl Machine.push m).reg r = m.reg r := by
  induction ws generalizing m with
  | nil => rfl
  | cons w ws inductionHypothesis =>
      exact inductionHypothesis.trans (Machine.push_reg other)

/-- Words are pushed one after the other. -/
theorem foldl_push (stack : Stack m ws) (few : frame.length + ws.length < 2 ^ 30) :
    Stack (frame.foldl Machine.push m) (frame.reverse ++ ws) ∧
      Grown frame.length m (frame.foldl Machine.push m) := by
  induction frame generalizing m ws with
  | nil => exact ⟨stack, ⟨(UInt32.sub_zero _).symm, fun _ _ => rfl⟩⟩
  | cons w frame inductionHypothesis =>
      rw [List.length_cons] at few
      have pushed : Stack (m.push w) (w :: ws) := stack.push (by omega)
      obtain ⟨stacked, grown⟩ := inductionHypothesis pushed (by rw [List.length_cons]; omega)
      rw [List.reverse_cons, List.append_assoc, List.length_cons, Nat.add_comm]
      exact ⟨stacked, (Grown.push m w).trans grown⟩

/-- Behind the gate the frame is on the stack, and nothing else is written. -/
theorem deliver_spec (p : Processor) (gate : Entrance) (esp0 ss0 : UInt32) :
    Stack (p.deliver gate esp0 ss0).machine (p.frame gate) ∧
      Grown (p.frame gate).length (p.onStack gate esp0) (p.deliver gate esp0 ss0).machine ∧
      ∀ r, r ≠ .esp → (p.deliver gate esp0 ss0).machine.reg r = p.machine.reg r := by
  have count := p.length_frame gate
  have few : (p.frame gate).reverse.length + ([] : List UInt32).length < 2 ^ 30 := by
    rw [List.length_reverse, List.length_nil]
    omega
  have empty : Stack (p.onStack gate esp0) [] := trivial
  obtain ⟨stacked, grown⟩ := foldl_push empty few
  rw [List.reverse_reverse, List.append_nil] at stacked
  rw [List.length_reverse] at grown
  refine ⟨stacked, grown, fun r other => (foldl_push_reg other).trans ?_⟩
  unfold onStack
  split_ifs
  · exact Machine.setReg_of_ne other
  · rfl

/-- `iret` on the frame that a gate saved at `p`, with the other registers as they are
now. -/
theorem iret_frame (stack : Stack q.machine (p.frame gate)) (inner : level q.cs = level gate.selector)
    (same : ¬ level gate.selector < level p.cs →
      q.machine.reg .esp + 12 = p.machine.reg .esp ∧ q.ss = p.ss) :
    q.iret.eip = p.eip ∧ q.iret.cs = p.cs ∧ q.iret.eflags = p.eflags ∧ q.iret.ss = p.ss ∧
      q.iret.machine.reg .esp = p.machine.reg .esp ∧
      (∀ r, r ≠ .esp → q.iret.machine.reg r = q.machine.reg r) ∧
      q.iret.machine.mem = q.machine.mem := by
  have others : ∀ r, r ≠ .esp → q.iret.machine.reg r = q.machine.reg r :=
    fun r other => Machine.setReg_of_ne other
  unfold Processor.frame at stack
  by_cases outer : level gate.selector < level p.cs
  · rw [if_pos outer] at stack
    have word : ∀ {k : Nat} {w : UInt32},
        [p.eip, p.cs, p.eflags, p.machine.reg .esp, p.ss][k]? = some w →
        q.machine.mem (q.machine.reg .esp + UInt32.ofNat (4 * k)) = w := fun found =>
      Words.get stack found
    have cs : q.machine.mem (q.machine.reg .esp + UInt32.ofNat (4 * 1)) = p.cs := word rfl
    have leaves : level q.cs < level (q.machine.mem (q.machine.reg .esp + UInt32.ofNat (4 * 1))) := by
      rw [cs, inner]
      exact outer
    refine ⟨word (k := 0) rfl, cs, word (k := 2) rfl, ?_, ?_, others, rfl⟩
    · exact (if_pos leaves).trans (word (k := 4) rfl)
    · exact Machine.setReg_self.trans ((if_pos leaves).trans (word (k := 3) rfl))
  · rw [if_neg outer] at stack
    have word : ∀ {k : Nat} {w : UInt32}, [p.eip, p.cs, p.eflags][k]? = some w →
        q.machine.mem (q.machine.reg .esp + UInt32.ofNat (4 * k)) = w := fun found =>
      Words.get stack found
    have cs : q.machine.mem (q.machine.reg .esp + UInt32.ofNat (4 * 1)) = p.cs := word rfl
    have stays : ¬ level q.cs < level (q.machine.mem (q.machine.reg .esp + UInt32.ofNat (4 * 1))) := by
      rw [cs, inner]
      exact outer
    refine ⟨word (k := 0) rfl, cs, word (k := 2) rfl, ?_, ?_, others, rfl⟩
    · exact (if_neg stays).trans (same outer).2
    · exact Machine.setReg_self.trans ((if_neg stays).trans (same outer).1)

end Processor

end Zeos.Library
