import Zeos.Switch.Contexts
import Zeos.Switch.Idt

/-!
# Entering and leaving the kernel

The entry points of `entry.S` behind the gates that `setIdt` installs: what a process that
is interrupted or calls the kernel leaves on its stack, and how it goes back with it.
-/

namespace Zeos.Switch

open Zeos.Library

universe u

/-! ## The entry points -/

/-- `EOI`: `movb $0x20, %al`, before the write to the port. -/
def eoi : List Instr := [.andImm 0xffffff00 .eax, .addImm 0x20 .eax]

/-- An entry point from its first instruction to the C code, or to the comparisons of
`system_call_handler`. -/
def Handler.enter : Handler → List Instr
  | .keyboard => saveAll ++ eoi
  | .clock => saveAll ++ eoi
  | .systemCall => saveAll

/-- The end of an entry point up to `iret`. -/
def Handler.leave : Handler → List Instr
  | .keyboard => restoreAll
  | .clock => restoreAll
  | .systemCall => .store .eax 0x18 .esp :: restoreAll

/-- The entry point at an address. -/
def EntryPoints.handlerAt (entries : EntryPoints) (eip : UInt32) : Option Handler :=
  [Handler.keyboard, .clock, .systemCall].find? fun handler => entries.address handler = eip

/-! ## The system -/

/-- The last entry of a process into the kernel: what the processor was, and the offset of
the frame in the page of the process. -/
structure Trap where
  handler : Handler
  processor : Processor
  place : Nat

/-- `saved` and `trapped` are no part of the processor: they note the calls of
`task_switch_asm` and the entries into the kernel as they are made. -/
structure System (Process : Type u) where
  processor : Processor
  running : Process
  saved : Process → Option Context
  trapped : Process → Option Trap

inductive SystemEvent (Process : Type u) where
  /-- Code of a program, or of the idle loop. -/
  | outside (processor : Processor)
  /-- Code of the kernel. -/
  | work (machine : Machine)
  | build (child : Process) (offset : Nat) (ebp entry : UInt32) (trap : Trap)
      (machine : Machine)
  | switch (new : Process) (offset : Nat) (back : UInt32)
  | interrupt (vector : UInt8)
  | int (vector : UInt8)
  | leave

variable {Process : Type u} {code : SwitchCode} {unions : Unions code Process}
  {entries : EntryPoints} {idt : UInt8 → Gate}

namespace System

def contexts (s : System Process) : Contexts Process := ⟨s.processor.machine, s.running, s.saved⟩

/-- The process runs kernel code. -/
def InKernel (s : System Process) : Prop := (s.trapped s.running).isSome

instance (s : System Process) : Decidable s.InKernel := by
  unfold InKernel
  infer_instance

variable [DecidableEq Process]

/-- The processor is behind a gate, at the first instruction of an entry point. -/
def entered (entries : EntryPoints) (s : System Process) (p : Processor) :
    Option (System Process) :=
  (entries.handlerAt p.eip).map fun handler =>
    { s with
      processor := { p with machine := p.machine.run handler.enter }
      trapped := Function.update s.trapped s.running
        (some ⟨handler, s.processor, (p.machine.reg .esp).toNat % 4096⟩) }

/-- The top of the stack that `tss` gives for the kernel. -/
def esp0 (code : SwitchCode) (s : System Process) : UInt32 := s.processor.machine.mem code.tssEsp0

/-- `setTSS` makes `__KERNEL_DS` the kernel's stack segment. -/
def step (code : SwitchCode) (entries : EntryPoints) (idt : UInt8 → Gate) (s : System Process) :
    SystemEvent Process → Option (System Process)
  | .outside processor => if s.InKernel then none else some { s with processor }
  | .work machine =>
      if s.InKernel then some { s with processor := { s.processor with machine } } else none
  | .build child offset ebp entry trap machine =>
      if s.InKernel then
        some { s with
          processor := { s.processor with machine }
          saved := Function.update s.saved child (some (.built offset ebp entry))
          trapped := Function.update s.trapped child (some trap) }
      else none
  | .switch new offset back =>
      if s.InKernel then
        some { s with
          processor := { s.processor with machine := (s.contexts.switched code).machine }
          running := new
          saved := s.contexts.called offset back }
      else none
  | .interrupt vector =>
      if s.processor.Enabled then
        (idt vector).decode.bind fun gate =>
          s.entered entries (s.processor.deliver gate (s.esp0 code) kernelDs)
      else none
  | .int vector =>
      (idt vector).decode.bind fun gate =>
        (s.processor.callGate gate (s.esp0 code) kernelDs).bind (s.entered entries)
  | .leave =>
      (s.trapped s.running).map fun trap =>
        { s with
          processor :=
            { s.processor with
              machine := s.processor.machine.run trap.handler.leave : Processor }.iret
          trapped := Function.update s.trapped s.running none }

end System

/-! ## What is assumed of the code -/

/-- The words of an entry on the stack: the registers, and the frame of the gate. -/
def Trap.words (entries : EntryPoints) (trap : Trap) : List UInt32 :=
  saved trap.processor.machine ++ trap.processor.frame (entries.entrance trap.handler)

/-- The stack at `base` holds the words of an entry. -/
structure Trap.OnStack (entries : EntryPoints) (base : UInt32) (mem : UInt32 → UInt32)
    (trap : Trap) : Prop where
  words : Words mem (slot base (trap.place - 44)) (trap.words entries)
  room : taskStructSize + 44 ≤ trap.place
  top : trap.place + 4 * (trap.processor.frame (entries.entrance trap.handler)).length ≤ 4096
  pointer : level trap.processor.cs = 0 →
    trap.processor.machine.reg .esp = slot base (trap.place + 12)

/-- Interrupts were enabled, and the idle loop had the kernel's stack segment. -/
structure Trap.Proper (trap : Trap) : Prop where
  enabled : trap.processor.Enabled
  ss : level trap.processor.cs = 0 → trap.processor.ss = kernelDs

namespace Unions

/-- The running process keeps what its own entry has saved, and `tss.esp0`. -/
structure KeepsEntry (unions : Unions code Process) (s : System Process) (machine : Machine) :
    Prop where
  own : ∀ trap, s.trapped s.running = some trap → ∀ k, trap.place - 44 ≤ k → k < 4096 →
    machine.mem (slot (unions.base s.running) k) =
      s.processor.machine.mem (slot (unions.base s.running) k)
  tss : machine.mem code.tssEsp0 = s.processor.machine.mem code.tssEsp0

/-- Programs do not write the kernel stacks of other processes and cannot mask interrupts;
kernel code keeps the other stacks and what lies above its own frames; the C code that an
entry point calls has returned when the entry point goes on. -/
def Follows [DecidableEq Process] (unions : Unions code Process) (entries : EntryPoints)
    (s : System Process) : SystemEvent Process → Prop
  | .outside processor =>
      level processor.cs = level s.processor.cs ∧ (s.processor.Enabled → processor.Enabled) ∧
        (level processor.cs = 0 → processor.ss = s.processor.ss) ∧
        (∀ q, q ≠ s.running → unions.Kept q s.processor.machine processor.machine) ∧
        processor.machine.mem code.tssEsp0 = s.processor.machine.mem code.tssEsp0
  | .work machine =>
      unions.Allowed s.contexts (.work machine) ∧ unions.KeepsEntry s machine
  | .build child offset ebp entry trap machine =>
      unions.Allowed s.contexts (.build child offset ebp entry machine) ∧
        unions.KeepsEntry s machine ∧ trap.OnStack entries (unions.base child) machine.mem ∧
        trap.Proper
  | .switch new offset back =>
      unions.Allowed s.contexts (.switch new offset back) ∧
        ∀ trap, s.trapped s.running = some trap → offset + 8 ≤ trap.place - 44
  | .interrupt vector =>
      (vector = Handler.keyboard.vector ∨ vector = Handler.clock.vector) ∧
        (level s.processor.cs = 0 → ∃ k, s.processor.machine.reg .esp = slot (unions.base s.running) k ∧
          taskStructSize + 56 ≤ k ∧ k ≤ 4096)
  | .int vector => level s.processor.cs ≠ 0 ∧ ∃ handler : Handler, vector = handler.vector
  | .leave => ∀ trap, s.trapped s.running = some trap →
      s.processor.machine.reg .esp = slot (unions.base s.running) (trap.place - 44)

end Unions

/-- What holds in every state: the contexts and the entries are on their stacks, and
interrupts are enabled only outside the kernel. -/
structure Sound (unions : Unions code Process) (entries : EntryPoints) (s : System Process) :
    Prop where
  held : unions.AllHeld s.contexts
  tss : s.esp0 code = unions.base s.running + unionSize
  onStack : ∀ q trap, s.trapped q = some trap →
    trap.OnStack entries (unions.base q) s.processor.machine.mem
  proper : ∀ q trap, s.trapped q = some trap → trap.Proper
  masked : s.processor.Enabled → ¬ s.InKernel
  inside : s.InKernel → level s.processor.cs = 0
  outside : level s.processor.cs ≠ 0 → s.processor.Enabled
  ss : level s.processor.cs = 0 → s.processor.ss = kernelDs

/-! ## The code of an entry point -/

variable {handler : Handler} {m m' : Machine} {ws frame : List UInt32} {p q : Process}
  {base : UInt32} {trap : Trap}

theorem handlerAt_address (entries : EntryPoints) (handler : Handler) :
    entries.handlerAt (entries.address handler) = some handler := by
  have distinct := entries.distinct
  simp only [List.nodup_cons, List.mem_cons, List.not_mem_nil, or_false, not_or] at distinct
  obtain ⟨⟨clock, call⟩, later, -⟩ := distinct
  unfold EntryPoints.handlerAt
  cases handler with
  | keyboard => simp [EntryPoints.address]
  | clock => simp [EntryPoints.address, clock]
  | systemCall => simp [EntryPoints.address, call, later]

/-- The registers are saved below what is on the stack. -/
theorem enter_spec (handler : Handler) (stack : Stack m ws) (few : ws.length < 1000) :
    Stack (m.run handler.enter) (saved m ++ ws) ∧ Grown 11 m (m.run handler.enter) := by
  obtain ⟨stacked, _, _⟩ := saveAll_saves stack (by omega)
  have grown : Grown 11 m (m.run saveAll) := by
    rw [saveAll_eq, Machine.run_append]
    have pushed : Grown 11 m (m.run (allSaved.map .push)) := Grown.run_push allSaved
    generalize m.run (allSaved.map .push) = after at pushed
    have ds : Grown 0 after (after.run [.movImm kernelDs .edx, .mov .edx .ds, .mov .edx .es]) :=
      ((Grown.setReg (by decide)).trans (Grown.setReg (by decide))).trans
        (Grown.setReg (by decide))
    exact pushed.trans ds
  have interrupted : Stack (m.run (saveAll ++ eoi)) (saved m ++ ws) ∧
      Grown 11 m (m.run (saveAll ++ eoi)) := by
    rw [Machine.run_append]
    generalize m.run saveAll = after at stacked grown
    have masked : Grown 0 after (after.run eoi) :=
      (Grown.setReg (by decide)).trans (Grown.setReg (by decide))
    exact ⟨(stacked.setReg (by decide)).setReg (by decide), grown.trans masked⟩
  cases handler with
  | keyboard => exact interrupted
  | clock => exact interrupted
  | systemCall => exact ⟨stacked, grown⟩

/-- What an entry point leaves in `eax`: the result of a system call. -/
def Trap.eaxAfter (trap : Trap) (m : Machine) : UInt32 :=
  match trap.handler with
  | .keyboard => trap.processor.machine.reg .eax
  | .clock => trap.processor.machine.reg .eax
  | .systemCall => m.reg .eax

/-- The registers are restored, and only the word of `eax` is written. -/
theorem leave_spec (stack : Stack m (saved trap.processor.machine ++ frame))
    (few : frame.length < 1000) :
    Stack (m.run trap.handler.leave) frame ∧
      (m.run trap.handler.leave).reg .esp = m.reg .esp + 44 ∧
      (m.run trap.handler.leave).reg .eax = trap.eaxAfter m ∧
      (∀ r ∈ allSaved, r ≠ .eax →
        (m.run trap.handler.leave).reg r = trap.processor.machine.reg r) ∧
      ∀ address, address ≠ m.reg .esp + 0x18 →
        (m.run trap.handler.leave).mem address = m.mem address := by
  have interrupted : Stack (m.run restoreAll) frame ∧
      (m.run restoreAll).reg .esp = m.reg .esp + 44 ∧
      (m.run restoreAll).reg .eax = trap.processor.machine.reg .eax ∧
      (∀ r ∈ allSaved, r ≠ .eax → (m.run restoreAll).reg r = trap.processor.machine.reg r) ∧
      ∀ address, address ≠ m.reg .esp + 0x18 → (m.run restoreAll).mem address = m.mem address := by
    have unchanged : (saved trap.processor.machine).set 6 (trap.processor.machine.reg .eax) =
        saved trap.processor.machine := rfl
    rw [← unchanged] at stack
    obtain ⟨popped, up, eax, registers⟩ := restoreAll_restores stack
    refine ⟨popped, up, eax, registers, fun address _ => ?_⟩
    rw [restoreAll_eq, Stack.run_pop_mem]
  unfold Trap.eaxAfter
  cases trap.handler with
  | keyboard => exact interrupted
  | clock => exact interrupted
  | systemCall =>
      obtain ⟨popped, up, eax, registers⟩ := finish_restores stack few
      refine ⟨popped, up, eax, registers, fun address away => ?_⟩
      change (m.run (.store .eax 0x18 .esp :: restoreAll)).mem address = _
      rw [Machine.run_cons, restoreAll_eq, Stack.run_pop_mem]
      exact Machine.write_of_ne away

/-! ## The pages of the other processes -/

theorem slot_page_offset {k : Nat} (aligned : PageAligned base) (inside : k < 4096) :
    (slot base k).toNat % 4096 = k := by
  rw [slot_toNat aligned inside]
  unfold PageAligned at aligned
  omega

/-- What is written in the page of one process is not in the page of another one. -/
theorem kept_of_own (other : q ≠ p)
    (beside : ∀ address, ¬ InPage (unions.base p) address → m'.mem address = m.mem address) :
    unions.Kept q m m' := by
  have away : ∀ k < 4096, ¬ InPage (unions.base p) (slot (unions.base q) k) := by
    rintro k inside ⟨j, small, same⟩
    exact other (unions.apart (slot_inj (unions.aligned q) (unions.aligned p) inside small same).1)
  exact ⟨fun k _ inside => beside _ (away k inside), beside _ (away 16 (by decide))⟩

/-- A stack that grows in its page writes nothing else. -/
theorem beside_page {n top : Nat} (grown : Grown n m m') (pointer : m.reg .esp = slot base top)
    (room : 4 * n ≤ top) (inside : top ≤ 4096) {address : UInt32} (away : ¬ InPage base address) :
    m'.mem address = m.mem address := by
  apply grown.beside
  intro below
  rw [pointer] at below
  obtain ⟨k, _, small, same⟩ := below_slot room below
  exact away ⟨k, by omega, same⟩

theorem Trap.OnStack.keep (onStack : trap.OnStack entries (unions.base q) m.mem)
    (kept : unions.Kept q m m') : trap.OnStack entries (unions.base q) m'.mem := by
  have room := onStack.room
  have top := onStack.top
  refine ⟨Context.words_kept kept onStack.words (by omega) ?_, room, top, onStack.pointer⟩
  have count : (trap.words entries).length =
      11 + (trap.processor.frame (entries.entrance trap.handler)).length := List.length_append
  omega

/-- The running process keeps what its entry has saved. -/
theorem Trap.OnStack.own (onStack : trap.OnStack entries base m.mem)
    (same : ∀ k, trap.place - 44 ≤ k → k < 4096 → m'.mem (slot base k) = m.mem (slot base k)) :
    trap.OnStack entries base m'.mem := by
  have room := onStack.room
  have top := onStack.top
  refine ⟨words_moved onStack.words fun k few => ?_, room, top, onStack.pointer⟩
  have count : (trap.words entries).length =
      11 + (trap.processor.frame (entries.entrance trap.handler)).length := List.length_append
  exact same (trap.place - 44 + 4 * k) (by omega) (by omega)

/-! ## Entering -/

variable {s start after : System Process} {setHandlers : (UInt8 → Gate) → UInt8 → Gate}

/-- The processor behind the gate of an entry point. -/
def System.behind (code : SwitchCode) (entries : EntryPoints) (handler : Handler)
    (s : System Process) : Processor :=
  s.processor.deliver (entries.entrance handler) (s.esp0 code) kernelDs

theorem level_entrance (entries : EntryPoints) (handler : Handler) :
    level (entries.entrance handler).selector = 0 := by
  change level kernelCs.toUInt32 = 0
  decide

/-- Programs get the top of their process's stack; the idle loop stays on its own. -/
theorem Sound.stackTop (sound : Sound unions entries s) (handler : Handler)
    (room : level s.processor.cs = 0 → ∃ k,
      s.processor.machine.reg .esp = slot (unions.base s.running) k ∧
        taskStructSize + 56 ≤ k ∧ k ≤ 4096) :
    ∃ top, (s.processor.onStack (entries.entrance handler) (s.esp0 code)).reg .esp =
        slot (unions.base s.running) top ∧ top ≤ 4096 ∧
      taskStructSize + 44 + 4 * (s.processor.frame (entries.entrance handler)).length ≤ top ∧
      (level s.processor.cs = 0 → s.processor.machine.reg .esp =
          slot (unions.base s.running) top ∧
        (s.processor.frame (entries.entrance handler)).length = 3) := by
  unfold Processor.onStack Processor.frame
  rw [level_entrance]
  by_cases inner : level s.processor.cs = 0
  · obtain ⟨k, pointer, low, high⟩ := room inner
    rw [inner, if_neg (lt_irrefl 0), if_neg (lt_irrefl 0)]
    exact ⟨k, pointer, high, by simp; omega, fun _ => ⟨pointer, rfl⟩⟩
  · rw [if_pos (Nat.pos_of_ne_zero inner), if_pos (Nat.pos_of_ne_zero inner)]
    refine ⟨4096, ?_, le_refl _, by simp [taskStructSize], fun zero => absurd zero inner⟩
    rw [Machine.setReg_self, sound.tss]
    rfl

/-- What an entry writes lies on the stack of the running process: the registers, and the
frame of the gate. -/
theorem Sound.stacks (sound : Sound unions entries s) (handler : Handler)
    (room : level s.processor.cs = 0 → ∃ k,
      s.processor.machine.reg .esp = slot (unions.base s.running) k ∧
        taskStructSize + 56 ≤ k ∧ k ≤ 4096) :
    (Trap.mk handler s.processor
        (((s.behind code entries handler).machine.reg .esp).toNat % 4096)).OnStack entries
      (unions.base s.running) ((s.behind code entries handler).machine.run handler.enter).mem ∧
    ∀ address, ¬ InPage (unions.base s.running) address →
      ((s.behind code entries handler).machine.run handler.enter).mem address =
        s.processor.machine.mem address := by
  obtain ⟨top, pointer, high, low, inner⟩ := sound.stackTop handler room
  obtain ⟨stacked, framed, same⟩ :=
    s.processor.deliver_spec (entries.entrance handler) (s.esp0 code) kernelDs
  have count := s.processor.length_frame (entries.entrance handler)
  have memory : (s.processor.onStack (entries.entrance handler) (s.esp0 code)).mem =
      s.processor.machine.mem := by
    unfold Processor.onStack
    split_ifs <;> rfl
  change Stack (s.behind code entries handler).machine _ at stacked
  change Grown _ _ (s.behind code entries handler).machine at framed
  obtain ⟨saving, grown⟩ := enter_spec handler stacked (by omega)
  have both := framed.trans grown
  generalize ws : s.processor.frame (entries.entrance handler) = frame at *
  let place := top - 4 * frame.length
  have placed : (s.behind code entries handler).machine.reg .esp =
      slot (unions.base s.running) place := by
    rw [framed.pointer, pointer]
    exact slot_sub _ (by omega)
  have offset : ((s.behind code entries handler).machine.reg .esp).toNat % 4096 = place := by
    rw [placed]
    exact slot_page_offset (unions.aligned _) (by omega)
  have registers : saved (s.behind code entries handler).machine = saved s.processor.machine := by
    unfold saved
    rw [show (s.behind code entries handler).machine =
      (s.processor.deliver (entries.entrance handler) (s.esp0 code) kernelDs).machine from rfl]
    simp [same]
  rw [offset]
  constructor
  · refine ⟨?_, ?_, ?_, ?_⟩
    · unfold Trap.words
      dsimp only
      rw [ws, ← registers]
      have words : Words _ _ _ := saving
      rw [grown.pointer, placed] at words
      rw [show slot (unions.base s.running) place - UInt32.ofNat (4 * 11) =
        slot (unions.base s.running) (place - 44) from slot_sub _ (by omega)] at words
      exact words
    · change taskStructSize + 44 ≤ place
      omega
    · dsimp only
      rw [ws]
      omega
    · intro zero
      obtain ⟨onTop, three⟩ := inner zero
      dsimp only
      rw [onTop, show place + 12 = top by omega]
  · intro address away
    rw [beside_page both pointer (by omega) high away, memory]

variable [DecidableEq Process]

/-- An entry into the kernel from outside. -/
theorem Sound.enter (sound : Sound unions entries s) (handler : Handler)
    (enabled : s.processor.Enabled)
    (room : level s.processor.cs = 0 → ∃ k,
      s.processor.machine.reg .esp = slot (unions.base s.running) k ∧
        taskStructSize + 56 ≤ k ∧ k ≤ 4096) :
    ∃ after, s.entered entries (s.behind code entries handler) = some after ∧
      Sound unions entries after ∧
      ∀ q, q ≠ s.running → unions.Kept q s.processor.machine after.processor.machine := by
  obtain ⟨onStack, beside⟩ := sound.stacks handler room
  have kept : ∀ q, q ≠ s.running → unions.Kept q s.processor.machine
      ((s.behind code entries handler).machine.run handler.enter) := fun q other =>
    kept_of_own other beside
  refine ⟨_, congrArg (Option.map _) (handlerAt_address entries handler), ?_, kept⟩
  refine
    { held := ?_, tss := ?_, onStack := ?_, proper := ?_, masked := ?_
      inside := fun _ => level_entrance entries handler
      outside := fun outer => absurd (level_entrance entries handler) outer
      ss := ?_ }
  · intro q other context found
    exact (sound.held q other context found).keep (kept q other)
  · exact (beside _ (unions.tss s.running)).trans sound.tss
  · intro q trap found
    dsimp only at found
    by_cases isRunning : q = s.running
    · subst isRunning
      rw [Function.update_self] at found
      cases found
      exact onStack
    · rw [Function.update_of_ne isRunning] at found
      exact (sound.onStack q trap found).keep (kept q isRunning)
  · intro q trap found
    dsimp only at found
    by_cases isRunning : q = s.running
    · subst isRunning
      rw [Function.update_self] at found
      cases found
      exact ⟨enabled, sound.ss⟩
    · rw [Function.update_of_ne isRunning] at found
      exact sound.proper q trap found
  · intro enabledBehind
    have masked : ¬ (s.behind code entries handler).Enabled := Processor.not_enabled_deliver rfl
    exact absurd enabledBehind masked
  · intro _
    change (if level (entries.entrance handler).selector < level s.processor.cs then kernelDs
      else s.processor.ss) = kernelDs
    split_ifs with outer
    · rfl
    · exact sound.ss (Nat.eq_zero_of_not_pos (level_entrance entries handler ▸ outer))

/-- An entry through one of the gates that `setIdt` installs. -/
theorem Sound.enters (sound : Sound unions entries s) {vector : UInt8} {gate : Entrance}
    (isOurs : ∃ handler : Handler, vector = handler.vector)
    (decoded : (setIdt entries setHandlers idt vector).decode = some gate)
    (enabled : s.processor.Enabled)
    (room : level s.processor.cs = 0 → ∃ k,
      s.processor.machine.reg .esp = slot (unions.base s.running) k ∧
        taskStructSize + 56 ≤ k ∧ k ≤ 4096)
    (taken : s.entered entries (s.processor.deliver gate (s.esp0 code) kernelDs) = some after) :
    Sound unions entries after ∧
      ∀ q, q ≠ s.running → unions.Kept q s.processor.machine after.processor.machine := by
  obtain ⟨handler, rfl⟩ := isOurs
  rw [setIdt_entrance] at decoded
  cases decoded
  obtain ⟨entered, isEntered, behind⟩ := sound.enter handler enabled room
  change s.entered entries (s.behind code entries handler) = some after at taken
  rw [isEntered] at taken
  cases taken
  exact behind

/-! ## Leaving -/

/-- Where a process goes on after `iret`, and with which registers. -/
structure Returned (trap : Trap) (before after : Processor) : Prop where
  eip : after.eip = trap.processor.eip
  cs : after.cs = trap.processor.cs
  eflags : after.eflags = trap.processor.eflags
  ss : after.ss = trap.processor.ss
  esp : after.machine.reg .esp = trap.processor.machine.reg .esp
  eax : after.machine.reg .eax = trap.eaxAfter before.machine
  registers : ∀ r ∈ allSaved, r ≠ .eax → after.machine.reg r = trap.processor.machine.reg r

/-- The processor after the last instructions of an entry point. -/
def Trap.returned (trap : Trap) (s : System Process) : Processor :=
  { s.processor with machine := s.processor.machine.run trap.handler.leave : Processor }.iret

omit [DecidableEq Process] in
theorem Sound.leave (sound : Sound unions entries s) (found : s.trapped s.running = some trap)
    (pointer : s.processor.machine.reg .esp = slot (unions.base s.running) (trap.place - 44)) :
    Returned trap s.processor (trap.returned s) ∧
      ∀ address, ¬ InPage (unions.base s.running) address →
        (trap.returned s).machine.mem address = s.processor.machine.mem address := by
  have onStack := sound.onStack _ trap found
  have proper := sound.proper _ trap found
  have inKernel : level s.processor.cs = 0 := sound.inside (by
    unfold System.InKernel
    rw [found]
    rfl)
  have count := trap.processor.length_frame (entries.entrance trap.handler)
  have stacked : Stack s.processor.machine (trap.words entries) := by
    unfold Stack
    rw [pointer]
    exact onStack.words
  obtain ⟨popped, up, eax, registers, beside⟩ := leave_spec stacked (by omega)
  have room := onStack.room
  have top := onStack.top
  have raised : (s.processor.machine.run trap.handler.leave).reg .esp =
      slot (unions.base s.running) trap.place := by
    rw [up, pointer, show (44 : UInt32) = UInt32.ofNat 44 from rfl, slot_add,
      show trap.place - 44 + 44 = trap.place by omega]
  obtain ⟨eip, cs, eflags, ss, esp, others, memory⟩ :=
    Processor.iret_frame (p := trap.processor)
      (q := { s.processor with machine := s.processor.machine.run trap.handler.leave })
      popped (inKernel.trans (level_entrance entries trap.handler).symm) (by
        intro stays
        rw [level_entrance] at stays
        have inner : level trap.processor.cs = 0 := Nat.eq_zero_of_not_pos stays
        refine ⟨?_, (sound.ss inKernel).trans (proper.ss inner).symm⟩
        dsimp only
        rw [raised, onStack.pointer inner]
        exact slot_add _ trap.place 12)
  have notPointer : ∀ r ∈ allSaved, r ≠ .esp := by decide
  refine ⟨⟨eip, cs, eflags, ss, esp, ?_, ?_⟩, ?_⟩
  · exact (others .eax (by decide)).trans eax
  · intro r member notEax
    exact (others r (notPointer r member)).trans (registers r member notEax)
  · intro address away
    refine (congrFun memory address).trans (beside address ?_)
    rintro rfl
    refine away ⟨trap.place - 44 + 24, by omega, ?_⟩
    rw [pointer]
    exact slot_add _ (trap.place - 44) 24

end Zeos.Switch
