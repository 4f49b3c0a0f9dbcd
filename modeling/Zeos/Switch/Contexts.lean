import Zeos.Library.Runs
import Zeos.Switch.TaskSwitch

/-!
# Switching among processes

Any sequence of switches, with code of the running process between them and with frames
that are built by hand for new processes.
-/

namespace Zeos.Switch

open Zeos.Library

universe u

/-- Where the `task_union` of each process is. -/
structure Unions (code : SwitchCode) (Process : Type u) where
  base : Process → UInt32
  aligned : ∀ p, PageAligned (base p)
  apart : Function.Injective base
  tss : ∀ p, ¬ InPage (base p) code.tssEsp0

/-- What a process that does not run goes back to: the caller of `task_switch_asm`, which
had these registers, or the entry of a frame that was built for it. -/
inductive Context where
  | called (offset : Nat) (back : UInt32) (reg : Register → UInt32)
  | built (offset : Nat) (ebp entry : UInt32)

variable {Process : Type u} {code : SwitchCode}
  {unions : Unions code Process} {m m' : Machine}
  {p q new : Process} {offset : Nat} {back : UInt32} {context : Context}

namespace Unions

/-- The stack and the `kernel_esp` of `q` are not written. -/
structure Kept (unions : Unions code Process) (q : Process) (m m' : Machine) : Prop where
  stack : ∀ k, taskStructSize ≤ k → k < 4096 →
    m'.mem (slot (unions.base q) k) = m.mem (slot (unions.base q) k)
  kernelEsp : m'.mem (unions.base q + kernelEspOffset) = m.mem (unions.base q + kernelEspOffset)

end Unions

namespace Context

/-- The processor is where the context goes on. -/
def Resumed (base : UInt32) (cpu : Cpu) : Context → Prop
  | .called _ back reg =>
      cpu.eip = back ∧ cpu.machine.reg .esp = reg .esp + 4 ∧
        ∀ r ∈ [Register.ebp, .ebx, .esi, .edi], cpu.machine.reg r = reg r
  | .built offset ebp entry =>
      cpu.eip = entry ∧ cpu.machine.reg .esp = slot base (offset + 8) ∧
        cpu.machine.reg .ebp = ebp

/-- The stack of a process that does not run holds its context. -/
def Held (code : SwitchCode) (base : UInt32) (mem : UInt32 → UInt32) : Context → Prop
  | .called offset back reg =>
      SwitchedAway code base offset back reg mem ∧ taskStructSize + 4 * code.depth ≤ offset ∧
        offset + 8 ≤ 4096 ∧ reg .esp = slot base offset ∧ back ∉ code.labels
  | .built offset ebp entry =>
      mem (base + kernelEspOffset) = slot base offset ∧
        Words mem (slot base offset) [ebp, entry] ∧ taskStructSize ≤ offset ∧
        offset + 8 ≤ 4096 ∧ entry ∉ code.labels

/-- Words of a stack that is kept. -/
theorem words_kept (kept : unions.Kept q m m') {i : Nat} {ws : List UInt32}
    (words : Words m.mem (slot (unions.base q) i) ws) (above : taskStructSize ≤ i)
    (inside : i + 4 * ws.length ≤ 4096) : Words m'.mem (slot (unions.base q) i) ws := by
  apply words_moved words
  intro k few
  exact kept.stack (i + 4 * k) (by omega) (by omega)

theorem Held.keep (held : context.Held code (unions.base q) m.mem)
    (kept : unions.Kept q m m') : context.Held code (unions.base q) m'.mem := by
  cases context with
  | called offset back reg =>
      obtain ⟨away, room, top, pointer, outside⟩ := held
      have depth : code.depth = 11 + code.locals := rfl
      unfold taskStructSize at room
      obtain ⟨argument, frame⟩ := away.frame
      refine ⟨⟨kept.kernelEsp.trans away.kernelEsp, ?_, argument, ?_⟩, room, top, pointer,
        outside⟩
      · exact words_kept kept away.swap (by unfold taskStructSize; omega) (by simp; omega)
      · exact words_kept kept frame (by unfold taskStructSize; omega) (by simp; omega)
  | built offset ebp entry =>
      obtain ⟨pointer, words, above, top, outside⟩ := held
      exact ⟨kept.kernelEsp.trans pointer, words_kept kept words above (by simpa using top),
        above, top, outside⟩

end Context

/-! ## The swap of the stacks -/

/-- After `stack_swap` nothing has changed in the pages of the others, and nothing in the
PCB of the process that called but its `kernel_esp`. -/
theorem Swapped.unmoved {k : Nat} (calling : Calling code (unions.base p) m offset back
    (unions.base new)) (after : Swapped code (unions.base p) m offset back (unions.base new) m')
    (inside : k < 4096) (elsewhere : q = p → k < taskStructSize ∧ k ≠ 16) :
    m'.mem (slot (unions.base q) k) = m.mem (slot (unions.base q) k) := by
  have room := calling.room
  apply after.beside
  · intro below
    rw [calling.pointer] at below
    obtain ⟨j, high, few, same⟩ := below_slot (by unfold taskStructSize at room; omega) below
    have top := calling.top
    obtain ⟨page, place⟩ := slot_inj (unions.aligned q) (unions.aligned p) inside (by omega) same
    have low := (elsewhere (unions.apart page)).1
    omega
  · intro same
    exact unions.tss q ⟨k, inside, same.symm⟩
  · intro same
    have placed : slot (unions.base q) k = slot (unions.base p) 16 := same
    obtain ⟨page, place⟩ :=
      slot_inj (unions.aligned q) (unions.aligned p) inside (by omega) placed
    exact (elsewhere (unions.apart page)).2 place

theorem Swapped.kept (calling : Calling code (unions.base p) m offset back (unions.base new))
    (after : Swapped code (unions.base p) m offset back (unions.base new) m') (other : q ≠ p) :
    unions.Kept q m m' where
  stack _ _ inside := after.unmoved calling inside fun same => absurd same other
  kernelEsp := after.unmoved (k := 16) calling (by decide) fun same => absurd same other

/-- The caller's own context is held when the stack is swapped. -/
theorem Swapped.held (calling : Calling code (unions.base p) m offset back (unions.base new))
    (after : Swapped code (unions.base p) m offset back (unions.base new) m')
    (outside : back ∉ code.labels) :
    (Context.called offset back m.reg).Held code (unions.base p) m'.mem :=
  ⟨after.away, calling.room, calling.top, calling.pointer, outside⟩

theorem blocks_outside {eip : UInt32} (outside : eip ∉ code.labels) (fuel : Nat) :
    blocks code fuel ⟨m, eip⟩ = ⟨m, eip⟩ := by
  cases fuel with
  | zero => rfl
  | succ fuel => rw [blocks, block_outside outside]

/-- The first three blocks end in the return of `stack_swap`. -/
theorem switched_blocks (m : Machine) : blocks code 5 ⟨m, code.taskSwitchAsm⟩ =
    blocks code 2 (ret ((beforeSwap code m).run swapStacks)) :=
  (blocks_succ block_taskSwitchAsm 4).trans
    ((blocks_succ block_innerTaskSwitch 3).trans (blocks_succ block_stackSwap 2))

/-- The return of `stack_swap` on a stack that holds a context. -/
theorem Context.Held.resume {base : UInt32} (held : context.Held code base m.mem)
    (pointer : m.reg .esp = m.mem (base + kernelEspOffset) + 4)
    (link : m.reg .ebp = m.mem (m.mem (base + kernelEspOffset))) :
    block code (blocks code 2 (ret m)) = none ∧
      context.Resumed base (blocks code 2 (ret m)) ∧
      (blocks code 2 (ret m)).machine.mem = m.mem ∧
      (blocks code 2 (ret m)).machine.reg .cr3 = m.reg .cr3 := by
  cases context with
  | called offset back reg =>
      obtain ⟨away, room, top, esp, outside⟩ := held
      have depth : code.depth = 11 + code.locals := rfl
      obtain ⟨m', result, memory, up, cr3, registers⟩ :=
        resumed_spec away (by omega) pointer link
      rw [result]
      refine ⟨block_outside outside, ⟨rfl, ?_, registers⟩, memory, cr3⟩
      rw [up, esp]
      exact (slot_add base offset 4).symm
  | built offset ebp entry =>
      obtain ⟨kernelEsp, words, above, top, outside⟩ := held
      rw [kernelEsp] at pointer link
      have result : ret m = ⟨m.drop, entry⟩ :=
        congrArg (Cpu.mk m.drop) ((congrArg m.mem pointer).trans words.2.1)
      rw [result, blocks_outside outside]
      refine ⟨block_outside outside, ⟨rfl, ?_, ?_⟩, rfl, Machine.drop_reg (by decide)⟩
      · rw [Machine.drop_esp, pointer]
        exact (congrArg (· + 4) (slot_add base offset 4)).trans (slot_add base (offset + 4) 4)
      · exact (Machine.drop_reg (by decide)).trans (link.trans words.1)

/-! ## One switch -/

/-- `saved` is no part of the machine: it notes the calls as they are made. -/
structure Contexts (Process : Type u) where
  machine : Machine
  running : Process
  saved : Process → Option Context

inductive ContextEvent (Process : Type u) where
  | work (machine : Machine)
  | build (child : Process) (offset : Nat) (ebp entry : UInt32) (machine : Machine)
  | switch (new : Process) (offset : Nat) (back : UInt32)

variable [DecidableEq Process] {s start : Contexts Process}

namespace Contexts

/-- What `task_switch_asm` leads to. -/
def switched (code : SwitchCode) (s : Contexts Process) : Cpu :=
  blocks code 5 ⟨s.machine, code.taskSwitchAsm⟩

/-- The contexts with that of the caller. -/
def called (s : Contexts Process) (offset : Nat) (back : UInt32) : Process → Option Context :=
  Function.update s.saved s.running (some (.called offset back s.machine.reg))

def step (code : SwitchCode) (s : Contexts Process) :
    ContextEvent Process → Option (Contexts Process)
  | .work machine => some { s with machine }
  | .build child offset ebp entry machine =>
      some { s with
        machine
        saved := Function.update s.saved child (some (.built offset ebp entry)) }
  | .switch new offset back =>
      some ⟨(s.switched code).machine, new, s.called offset back⟩

end Contexts

namespace Unions

/-- Code of the running process keeps the other stacks; a frame is built on the stack of
a process that does not run; a switch is to a process that has something to go back to. -/
def Allowed (unions : Unions code Process) (s : Contexts Process) :
    ContextEvent Process → Prop
  | .work machine => ∀ q, q ≠ s.running → unions.Kept q s.machine machine
  | .build child offset ebp entry machine =>
      child ≠ s.running ∧ taskStructSize ≤ offset ∧ offset + 8 ≤ 4096 ∧ entry ∉ code.labels ∧
        Words machine.mem (slot (unions.base child) offset) [ebp, entry] ∧
        machine.mem (unions.base child + kernelEspOffset) = slot (unions.base child) offset ∧
        ∀ q, q ≠ s.running → q ≠ child → unions.Kept q s.machine machine
  | .switch new offset back =>
      Calling code (unions.base s.running) s.machine offset back (unions.base new) ∧
        back ∉ code.labels ∧ (new = s.running ∨ (s.saved new).isSome)

end Unions

/-- What one switch does, if the contexts of the processes that do not run are held. -/
structure Transparent (unions : Unions code Process) (s : Contexts Process) (new : Process)
    (offset : Nat) (back : UInt32) : Prop where
  left : block code (s.switched code) = none
  resumed : ∃ context, s.called offset back new = some context ∧
    context.Resumed (unions.base new) (s.switched code)
  tss : (s.switched code).machine.mem code.tssEsp0 = unions.base new + unionSize
  cr3 : (s.switched code).machine.reg .cr3 =
    (s.switched code).machine.mem (unions.base new + dirOffset)
  others : ∀ q, q ≠ s.running → unions.Kept q s.machine (s.switched code).machine

/-- Every process that does not run has its context on its stack. -/
def Unions.AllHeld (unions : Unions code Process) (s : Contexts Process) : Prop :=
  ∀ q, q ≠ s.running → ∀ context, s.saved q = some context →
    context.Held code (unions.base q) s.machine.mem

theorem Unions.AllHeld.switch (held : unions.AllHeld s)
    (allowed : unions.Allowed s (.switch new offset back)) :
    Transparent unions s new offset back ∧
      unions.AllHeld ⟨(s.switched code).machine, new, s.called offset back⟩ := by
  obtain ⟨calling, outside, ready⟩ := allowed
  have after := swapped_spec calling (unions.aligned s.running) (unions.tss s.running)
    (beforeSwap_spec calling (unions.aligned s.running) (unions.aligned new)
      (unions.tss s.running) (unions.tss new))
  have run : s.switched code = blocks code 2 (ret ((beforeSwap code s.machine).run swapStacks)) :=
    switched_blocks s.machine
  generalize (beforeSwap code s.machine).run swapStacks = swapped at after run
  have everyone : ∀ q context, s.called offset back q = some context →
      context.Held code (unions.base q) swapped.mem := by
    intro q context found
    unfold Contexts.called at found
    by_cases caller : q = s.running
    · subst caller
      rw [Function.update_self] at found
      cases found
      exact after.held calling outside
    · rw [Function.update_of_ne caller] at found
      exact (held q caller context found).keep (after.kept calling caller)
  obtain ⟨context, found⟩ : ∃ context, s.called offset back new = some context := by
    unfold Contexts.called
    by_cases caller : new = s.running
    · rw [caller, Function.update_self]
      exact ⟨_, rfl⟩
    · rw [Function.update_of_ne caller]
      exact Option.isSome_iff_exists.mp (ready.resolve_left caller)
  obtain ⟨left, resumed, memory, cr3⟩ :=
    (everyone new context found).resume after.pointer after.link
  rw [← run] at left resumed memory cr3
  refine ⟨⟨left, ⟨context, found, resumed⟩, ?_, ?_, ?_⟩, ?_⟩
  · rw [memory]
    exact after.tss
  · have directory : swapped.mem (unions.base new + dirOffset) =
        s.machine.mem (unions.base new + dirOffset) :=
      after.unmoved (k := 4) calling (by decide) fun _ => by decide
    rw [cr3, memory, directory]
    exact after.cr3
  · intro q other
    obtain ⟨stack, kernelEsp⟩ := after.kept calling other
    rw [← memory] at stack kernelEsp
    exact ⟨stack, kernelEsp⟩
  · intro q _ context found
    rw [show (Contexts.mk (s.switched code).machine new (s.called offset back)).machine.mem =
      swapped.mem from memory]
    exact everyone q context found

/-! ## Any sequence of switches -/

theorem Unions.AllHeld.step {event : ContextEvent Process} {after : Contexts Process}
    (held : unions.AllHeld s) (allowed : unions.Allowed s event)
    (taken : s.step code event = some after) : unions.AllHeld after := by
  cases event with
  | work machine =>
      cases taken
      intro q other context found
      exact (held q other context found).keep (allowed q other)
  | build child offset ebp entry machine =>
      obtain ⟨_, above, top, outside, words, pointer, kept⟩ := allowed
      cases taken
      intro q other context found
      dsimp only at found
      by_cases isChild : q = child
      · subst isChild
        rw [Function.update_self] at found
        cases found
        exact ⟨pointer, words, above, top, outside⟩
      · rw [Function.update_of_ne isChild] at found
        exact (held q other context found).keep (kept q other isChild)
  | switch new offset back =>
      cases taken
      exact (held.switch allowed).2

theorem Unions.allHeld_of_run (none : ∀ q, start.saved q = none)
    (run : Reach (Contexts.step code) unions.Allowed start s) : unions.AllHeld s := by
  refine run.invariant ?_ fun _ _ _ held allowed taken => held.step allowed taken
  intro q _ context found
  rw [none q] at found
  cases found

/-- In every run that begins with no process switched away, every switch goes back to the
call that the process had made, or to the frame that was built for it. -/
theorem switches_transparent (none : ∀ q, start.saved q = none)
    (run : Reach (Contexts.step code) unions.Allowed start s)
    (allowed : unions.Allowed s (.switch new offset back)) :
    Transparent unions s new offset back :=
  ((Unions.allHeld_of_run none run).switch allowed).1

/-! ## To a process with a new frame, and back -/

def sampleCode : SwitchCode where
  taskSwitchAsm := 0x100
  innerTaskSwitch := 0x200
  stackSwap := 0x300
  afterInner := 0x400
  afterSwap := 0x500
  tssEsp0 := 0x600
  locals := 2
  distinct := by decide

/-- Two processes; `false` runs. -/
def sampleUnions : Unions sampleCode Bool where
  base p := bif p then 0x11000 else 0x10000
  aligned p := by cases p <;> rfl
  apart := by
    intro p q same
    cases p <;> cases q
    · rfl
    · exact absurd same (by decide)
    · exact absurd same (by decide)
    · rfl
  tss p := by
    rintro ⟨k, inside, same⟩
    have aligned : PageAligned (bif p then 0x11000 else 0x10000) := by cases p <;> rfl
    have value := congrArg UInt32.toNat same
    rw [slot_toNat aligned inside] at value
    change 0x600 = _ at value
    cases p
    · change 0x600 = 0x10000 + k at value
      omega
    · change 0x600 = 0x11000 + k at value
      omega

/-- The stack of `false` has the call, that of `true` the frame of `init_idle`. -/
def sampleMachine : Machine where
  reg
    | .esp => 0x10F00
    | _ => 7
  mem address :=
    if address = 0x10F00 then 0x5000
    else if address = 0x10F04 then 0x11000
    else if address = 0x11010 then 0x11FF8
    else if address = 0x11FFC then 0x6000
    else 0

def sampleContexts : Contexts Bool := ⟨sampleMachine, false, fun _ => none⟩

/-- `true` has a frame that was built for it. -/
def builtContexts : Contexts Bool :=
  { sampleContexts with saved := Function.update (fun _ => none) true (some (.built 4088 0 0x6000)) }

/-- `true` calls `task_switch_asm` in its turn. -/
def callBack (m : Machine) : Machine where
  reg := Function.update m.reg .esp 0x11F00
  mem address :=
    if address = 0x11F00 then 0x7000
    else if address = 0x11F04 then 0x10000
    else m.mem address

theorem callBack_kept (m : Machine) : sampleUnions.Kept false m (callBack m) where
  stack k _ inside := by
    have place := slot_toNat (sampleUnions.aligned false) inside
    have low : (slot (sampleUnions.base false) k).toNat < 0x11000 := by
      rw [place]
      change 0x10000 + k < 0x11000
      omega
    unfold callBack
    dsimp only
    rw [if_neg, if_neg]
    · intro same
      rw [same] at low
      exact absurd low (by decide)
    · intro same
      rw [same] at low
      exact absurd low (by decide)
  kernelEsp := rfl

/-- After the switch to `true`, and its call. -/
def returningContexts : Contexts Bool where
  machine := callBack (builtContexts.switched sampleCode).machine
  running := true
  saved := builtContexts.called 0xF00 0x5000

/-- The switch to the built frame, and the one with which its process gives the processor
back: it ends behind the call that `false` had made. -/
theorem switches_transparent_back :
    Transparent sampleUnions builtContexts true 0xF00 0x5000 ∧
      Transparent sampleUnions returningContexts false 0xF00 0x7000 ∧
      (returningContexts.switched sampleCode).eip = 0x5000 := by
  have build : sampleContexts.step sampleCode (.build true 4088 0 0x6000 sampleMachine) =
      some builtContexts := rfl
  have built : sampleUnions.Allowed sampleContexts
      (.build true 4088 0 0x6000 sampleMachine) := by
    refine ⟨by decide, by decide, by decide, by decide, ⟨rfl, rfl, trivial⟩, rfl, ?_⟩
    intro q notRunning notChild
    cases q
    · exact absurd rfl notRunning
    · exact absurd rfl notChild
  have there : sampleUnions.Allowed builtContexts (.switch true 0xF00 0x5000) :=
    ⟨⟨rfl, by decide, by decide, rfl, rfl, trivial⟩, by decide, Or.inr rfl⟩
  have work : sampleUnions.Allowed
      ⟨(builtContexts.switched sampleCode).machine, true, builtContexts.called 0xF00 0x5000⟩
      (.work returningContexts.machine) := by
    intro q other
    cases q
    · exact callBack_kept _
    · exact absurd rfl other
  have back : sampleUnions.Allowed returningContexts (.switch false 0xF00 0x7000) :=
    ⟨⟨rfl, by decide, by decide, rfl, rfl, trivial⟩, by decide, Or.inr rfl⟩
  have run : Reach (Contexts.step sampleCode) sampleUnions.Allowed sampleContexts
      builtContexts := .step .start built build
  have returned := switches_transparent (fun _ => rfl)
    ((run.step there rfl).step work rfl) back
  refine ⟨switches_transparent (fun _ => rfl) run there, returned, ?_⟩
  obtain ⟨context, found, resumed⟩ := returned.resumed
  have saved : returningContexts.called 0xF00 0x7000 false =
      some (.called 0xF00 0x5000 sampleMachine.reg) := rfl
  cases Option.some.inj (saved.symm.trans found)
  exact resumed.1

end Zeos.Switch
