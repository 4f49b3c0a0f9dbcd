import Zeos.Switch.Traps

/-!
# Interrupts and system calls over runs

Any number of processes, with their programs, the idle loop, interrupts, system calls, new
processes and switches in any order.  All gates mask interrupts, so the kernel is never
entered again before it is left, and `iret` goes back to where the process was, with its
registers, however many switches there were in between.
-/

namespace Zeos.Switch

open Zeos.Library

universe u

variable {Process : Type u} {code : SwitchCode} {unions : Unions code Process}
  {entries : EntryPoints} {idt : UInt8 → Gate} {setHandlers : (UInt8 → Gate) → UInt8 → Gate}
  {trap : Trap}

variable [DecidableEq Process] {s start after : System Process}

/-! ## One step -/

theorem Sound.step_outside (sound : Sound unions entries s) {processor : Processor}
    (follows : unions.Follows entries s (.outside processor))
    (taken : s.step code entries idt (.outside processor) = some after) :
    Sound unions entries after := by
  obtain ⟨same, enables, ss, kept, tss⟩ := follows
  simp only [System.step] at taken
  split_ifs at taken with inKernel
  cases taken
  have away : ∀ q trap, s.trapped q = some trap → q ≠ s.running := by
    rintro q trap found rfl
    apply inKernel
    unfold System.InKernel
    rw [found]
    rfl
  exact
    { held := fun q other context found => (sound.held q other context found).keep (kept q other)
      tss := tss.trans sound.tss
      onStack := fun q trap found =>
        (sound.onStack q trap found).keep (kept q (away q trap found))
      proper := sound.proper
      masked := fun _ => inKernel
      inside := fun inside => absurd inside inKernel
      outside := fun outer => enables (sound.outside (same ▸ outer))
      ss := fun inner => (ss inner).trans (sound.ss (same ▸ inner)) }

/-- Kernel code that keeps the entries keeps everything, if the contexts are held. -/
theorem Sound.worked (sound : Sound unions entries s) {machine : Machine}
    (held : unions.AllHeld ({ s with processor := { s.processor with machine } } : System Process).contexts)
    (own : unions.KeepsEntry s machine)
    (others : ∀ q, q ≠ s.running → unions.Kept q s.processor.machine machine) :
    Sound unions entries { s with processor := { s.processor with machine } } where
  held := held
  tss := own.tss.trans sound.tss
  onStack q trap found := by
    by_cases isRunning : q = s.running
    · subst isRunning
      exact (sound.onStack _ trap found).own (own.own trap found)
    · exact (sound.onStack q trap found).keep (others q isRunning)
  proper := sound.proper
  masked := sound.masked
  inside := sound.inside
  outside := sound.outside
  ss := sound.ss

theorem Sound.step_build (sound : Sound unions entries s) {child : Process} {offset : Nat}
    {ebp entry : UInt32} {machine : Machine}
    (follows : unions.Follows entries s (.build child offset ebp entry trap machine))
    (taken : s.step code entries idt (.build child offset ebp entry trap machine) = some after) :
    Sound unions entries after := by
  obtain ⟨allowed, own, onStack, proper⟩ := follows
  have held : unions.AllHeld _ := sound.held.step allowed rfl
  obtain ⟨_, _, _, _, _, _, kept⟩ := allowed
  simp only [System.step] at taken
  split_ifs at taken with inKernel
  cases taken
  have isTrapped : ∀ q found, Function.update s.trapped child (some trap) q = some found →
      (q = child ∧ found = trap) ∨ (q ≠ child ∧ s.trapped q = some found) := by
    intro q found isFound
    by_cases isChild : q = child
    · subst isChild
      rw [Function.update_self] at isFound
      exact Or.inl ⟨rfl, (Option.some.inj isFound).symm⟩
    · rw [Function.update_of_ne isChild] at isFound
      exact Or.inr ⟨isChild, isFound⟩
  refine
    { held := held, tss := own.tss.trans sound.tss, onStack := ?_, proper := ?_
      masked := ?_, inside := fun _ => sound.inside inKernel
      outside := sound.outside, ss := sound.ss }
  · intro q found isFound
    rcases isTrapped q found isFound with ⟨rfl, rfl⟩ | ⟨other, isOld⟩
    · exact onStack
    · by_cases isRunning : q = s.running
      · subst isRunning
        exact (sound.onStack _ found isOld).own (own.own found isOld)
      · exact (sound.onStack q found isOld).keep (kept q isRunning other)
  · intro q found isFound
    rcases isTrapped q found isFound with ⟨rfl, rfl⟩ | ⟨_, isOld⟩
    · exact proper
    · exact sound.proper q found isOld
  · intro enabled
    exact absurd inKernel (sound.masked enabled)

/-- A switch keeps what lies above the call in the page of the caller. -/
theorem switched_own {c : Contexts Process} {new : Process} {offset k : Nat} {back : UInt32}
    (held : unions.AllHeld c) (allowed : unions.Allowed c (.switch new offset back))
    (above : offset ≤ k) (inside : k < 4096) :
    (c.switched code).machine.mem (slot (unions.base c.running) k) =
      c.machine.mem (slot (unions.base c.running) k) := by
  obtain ⟨calling, outside, ready⟩ := allowed
  have room := calling.room
  have depth : code.depth = 11 + code.locals := rfl
  have swapped := swapped_spec calling (unions.aligned c.running) (unions.tss c.running)
    (beforeSwap_spec calling (unions.aligned c.running) (unions.aligned new)
      (unions.tss c.running) (unions.tss new))
  have run : c.switched code = blocks code 2 (ret ((beforeSwap code c.machine).run swapStacks)) :=
    switched_blocks c.machine
  generalize (beforeSwap code c.machine).run swapStacks = middle at swapped run
  obtain ⟨context, found⟩ : ∃ context : Context, context.Held code (unions.base new) middle.mem := by
    by_cases caller : new = c.running
    · rw [caller]
      exact ⟨_, swapped.held calling outside⟩
    · obtain ⟨context, isSaved⟩ := Option.isSome_iff_exists.mp (ready.resolve_left caller)
      exact ⟨context, (held new caller context isSaved).keep (swapped.kept calling caller)⟩
  obtain ⟨_, _, memory, _⟩ := found.resume swapped.pointer swapped.link
  rw [run, memory]
  apply swapped.beside
  · intro below
    rw [calling.pointer] at below
    obtain ⟨j, _, small, same⟩ := below_slot (by unfold taskStructSize at room; omega) below
    have place := (slot_inj (unions.aligned _) (unions.aligned _) inside (by omega) same).2
    omega
  · intro same
    exact unions.tss c.running ⟨k, inside, same.symm⟩
  · intro same
    have place := (slot_inj (unions.aligned c.running) (unions.aligned c.running) (j := 16) inside
      (by decide) same).2
    unfold taskStructSize at room
    omega

theorem Sound.step_switch (sound : Sound unions entries s) {new : Process} {offset : Nat}
    {back : UInt32} (follows : unions.Follows entries s (.switch new offset back))
    (taken : s.step code entries idt (.switch new offset back) = some after) :
    Sound unions entries after := by
  obtain ⟨allowed, below⟩ := follows
  obtain ⟨transparent, held⟩ := sound.held.switch allowed
  simp only [System.step] at taken
  split_ifs at taken with inKernel
  cases taken
  refine
    { held := held, tss := transparent.tss, onStack := ?_, proper := sound.proper
      masked := fun enabled => absurd inKernel (sound.masked enabled)
      inside := fun _ => sound.inside inKernel, outside := sound.outside, ss := sound.ss }
  intro q trap found
  by_cases isRunning : q = s.running
  · subst isRunning
    have high := below trap found
    apply (sound.onStack _ trap found).own
    intro k above inside
    exact switched_own sound.held allowed (by omega) inside
  · exact (sound.onStack q trap found).keep (transparent.others q isRunning)

theorem Sound.step_leave (sound : Sound unions entries s) (follows : unions.Follows entries s .leave)
    (taken : s.step code entries idt .leave = some after) : Sound unions entries after := by
  obtain ⟨trap, found, rfl⟩ := Option.map_eq_some_iff.mp taken
  obtain ⟨returned, beside⟩ := sound.leave found (follows trap found)
  have proper := sound.proper _ trap found
  have kept : ∀ q, q ≠ s.running → unions.Kept q s.processor.machine (trap.returned s).machine :=
    fun q other => kept_of_own other beside
  have elsewhere : ∀ q other, Function.update s.trapped s.running none q = some other →
      q ≠ s.running ∧ s.trapped q = some other := by
    intro q other isFound
    by_cases isRunning : q = s.running
    · rw [isRunning, Function.update_self] at isFound
      cases isFound
    · rw [Function.update_of_ne isRunning] at isFound
      exact ⟨isRunning, isFound⟩
  have left : ¬ System.InKernel { s with
      processor := trap.returned s
      trapped := Function.update s.trapped s.running none } := by
    unfold System.InKernel
    dsimp only
    rw [Function.update_self]
    exact Bool.false_ne_true
  have enabled : (trap.returned s).Enabled := by
    unfold Processor.Enabled
    rw [returned.eflags]
    exact proper.enabled
  refine
    { held := fun q other context isSaved =>
        (sound.held q other context isSaved).keep (kept q other)
      tss := (beside _ (unions.tss s.running)).trans sound.tss, onStack := ?_, proper := ?_
      masked := fun _ => left, inside := fun inside => absurd inside left
      outside := fun _ => enabled, ss := ?_ }
  · intro q other isFound
    obtain ⟨notRunning, isOld⟩ := elsewhere q other isFound
    exact (sound.onStack q other isOld).keep (kept q notRunning)
  · intro q other isFound
    exact sound.proper q other (elsewhere q other isFound).2
  · intro inner
    have same : level trap.processor.cs = 0 := returned.cs ▸ inner
    exact returned.ss.trans (proper.ss same)

theorem Sound.step {event : SystemEvent Process} (sound : Sound unions entries s)
    (follows : unions.Follows entries s event)
    (taken : s.step code entries (setIdt entries setHandlers idt) event = some after) :
    Sound unions entries after := by
  cases event with
  | outside processor => exact sound.step_outside follows taken
  | work machine =>
      obtain ⟨allowed, own⟩ := follows
      have held : unions.AllHeld _ := sound.held.step allowed rfl
      simp only [System.step] at taken
      split_ifs at taken with inKernel
      cases taken
      exact sound.worked held own allowed
  | build child offset ebp entry trap machine => exact sound.step_build follows taken
  | switch new offset back => exact sound.step_switch follows taken
  | interrupt vector =>
      obtain ⟨which, room⟩ := follows
      simp only [System.step] at taken
      split_ifs at taken with enabled
      obtain ⟨gate, decoded, entered⟩ := Option.bind_eq_some_iff.mp taken
      exact (sound.enters (which.elim (fun same => ⟨_, same⟩) fun same => ⟨_, same⟩) decoded
        enabled room entered).1
  | int vector =>
      obtain ⟨program, which⟩ := follows
      obtain ⟨gate, decoded, called⟩ := Option.bind_eq_some_iff.mp taken
      obtain ⟨behind, admitted, entered⟩ := Option.bind_eq_some_iff.mp called
      unfold Processor.callGate at admitted
      split_ifs at admitted
      cases admitted
      exact (sound.enters which decoded (sound.outside program)
        (fun inner => absurd inner program) entered).1
  | leave => exact sound.step_leave follows taken

/-! ## Runs -/

/-- A system when the first program begins: no process is in the kernel, and those that do
not run have the frames that were built for them. -/
structure Started (unions : Unions code Process) (s : System Process) : Prop where
  held : unions.AllHeld s.contexts
  tss : s.esp0 code = unions.base s.running + unionSize
  outside : ∀ q, s.trapped q = none
  program : level s.processor.cs ≠ 0
  enabled : s.processor.Enabled

/-- The runs of a system whose code follows the rules, with the table of `setIdt`. -/
abbrev Runs (unions : Unions code Process) (entries : EntryPoints)
    (setHandlers : (UInt8 → Gate) → UInt8 → Gate) (idt : UInt8 → Gate)
    (start s : System Process) : Prop :=
  Reach (System.step code entries (setIdt entries setHandlers idt)) (unions.Follows entries) start s

theorem sound_of_run (started : Started unions start)
    (run : Runs unions entries setHandlers idt start s) : Sound unions entries s := by
  refine run.invariant ?_ fun _ _ _ sound follows taken => sound.step follows taken
  have outside : ∀ q trap, start.trapped q ≠ some trap := by
    intro q trap found
    rw [started.outside q] at found
    cases found
  exact
    { held := started.held, tss := started.tss
      onStack := fun q trap found => absurd found (outside q trap)
      proper := fun q trap found => absurd found (outside q trap)
      masked := fun _ inKernel => by
        unfold System.InKernel at inKernel
        rw [started.outside] at inKernel
        cases inKernel
      inside := fun inKernel => by
        unfold System.InKernel at inKernel
        rw [started.outside] at inKernel
        cases inKernel
      outside := fun _ => started.enabled
      ss := fun inner => absurd inner started.program }

/-! ## The kernel is not entered twice -/

/-- Interrupts, and calls of a gate. -/
def SystemEvent.Enters : SystemEvent Process → Prop
  | .interrupt _ => True
  | .int _ => True
  | _ => False

/-- `iret`, and code that is not the kernel's. -/
def SystemEvent.Leaves : SystemEvent Process → Prop
  | .outside _ => True
  | .leave => True
  | _ => False

/-- An entry into the kernel: the process was outside, its registers and the frame of the
gate are on its kernel stack, the stacks of the others are as they were, and interrupts are
masked. -/
structure EntersOnce (unions : Unions code Process) (entries : EntryPoints)
    (s after : System Process) : Prop where
  before : ¬ s.InKernel
  running : after.running = s.running
  onStack : ∃ trap, after.trapped s.running = some trap ∧ trap.processor = s.processor ∧
    trap.OnStack entries (unions.base s.running) after.processor.machine.mem
  trapped : ∀ q, q ≠ s.running → after.trapped q = s.trapped q
  others : ∀ q, q ≠ s.running → unions.Kept q s.processor.machine after.processor.machine
  masked : ¬ after.processor.Enabled

theorem entersOnce_of_entered {gate : Entrance} (masks : gate.masks = true)
    (before : ¬ s.InKernel)
    (behind : Sound unions entries after ∧
      ∀ q, q ≠ s.running → unions.Kept q s.processor.machine after.processor.machine)
    (taken : s.entered entries (s.processor.deliver gate (s.esp0 code) kernelDs) = some after) :
    EntersOnce unions entries s after := by
  obtain ⟨sound, kept⟩ := behind
  obtain ⟨handler, _, rfl⟩ := Option.map_eq_some_iff.mp taken
  have masked : ¬ (s.processor.deliver gate (s.esp0 code) kernelDs).Enabled :=
    Processor.not_enabled_deliver masks
  have noted := Function.update_self s.running (some (Trap.mk handler s.processor
    (((s.processor.deliver gate (s.esp0 code) kernelDs).machine.reg .esp).toNat % 4096))) s.trapped
  exact ⟨before, rfl, ⟨_, noted, rfl, sound.onStack _ _ noted⟩,
    fun q other => Function.update_of_ne other _ _, kept, masked⟩

/-- While only the kernel's code runs, with any switches, interrupts stay masked. -/
theorem masked_until_left (run : Reach (System.step code entries idt)
      (fun s event => unions.Follows entries s event ∧ ¬ event.Leaves) start s)
    (masked : ¬ start.processor.Enabled) (inner : level start.processor.cs = 0) :
    ¬ s.processor.Enabled ∧ level s.processor.cs = 0 := by
  induction run with
  | start => exact ⟨masked, inner⟩
  | @step before after event _ allowed taken held =>
      obtain ⟨masked, inner⟩ := held
      obtain ⟨follows, stays⟩ := allowed
      cases event with
      | outside _ => exact absurd trivial stays
      | leave => exact absurd trivial stays
      | int vector => exact absurd inner follows.1
      | interrupt vector =>
          simp only [System.step] at taken
          rw [if_neg masked] at taken
          cases taken
      | work machine =>
          simp only [System.step] at taken
          split_ifs at taken
          cases taken
          exact ⟨masked, inner⟩
      | build child offset ebp entry trap machine =>
          simp only [System.step] at taken
          split_ifs at taken
          cases taken
          exact ⟨masked, inner⟩
      | switch new offset back =>
          simp only [System.step] at taken
          split_ifs at taken
          cases taken
          exact ⟨masked, inner⟩

/-- In every run the kernel is entered only from outside, programs enter it only by a system
call, and interrupts are masked until it is left. -/
theorem kernel_not_reentered (started : Started unions start)
    (run : Runs unions entries setHandlers idt start s) {event : SystemEvent Process}
    (enters : event.Enters) (follows : unions.Follows entries s event)
    (taken : s.step code entries (setIdt entries setHandlers idt) event = some after) :
    EntersOnce unions entries s after ∧
      (∀ later, Reach (System.step code entries (setIdt entries setHandlers idt))
          (fun s event => unions.Follows entries s event ∧ ¬ event.Leaves) after later →
        ¬ later.processor.Enabled) ∧
      (level s.processor.cs = 3 → ∀ vector, event = .int vector →
        vector = Handler.systemCall.vector) := by
  have sound := sound_of_run started run
  have masks : ∀ {handler : Handler} {gate : Entrance},
      (setIdt entries setHandlers idt handler.vector).decode = some gate →
      gate = entries.entrance handler := by
    intro handler gate decoded
    rw [setIdt_entrance] at decoded
    exact (Option.some.inj decoded).symm
  have stays : EntersOnce unions entries s after →
      ∀ later, Reach (System.step code entries (setIdt entries setHandlers idt))
          (fun s event => unions.Follows entries s event ∧ ¬ event.Leaves) after later →
        ¬ later.processor.Enabled := by
    intro once later rest
    obtain ⟨trap, noted, _⟩ := once.onStack
    have inKernel : after.InKernel := by
      unfold System.InKernel
      rw [once.running, noted]
      rfl
    exact (masked_until_left rest once.masked ((sound.step follows taken).inside inKernel)).1
  cases event with
  | interrupt vector =>
      obtain ⟨which, room⟩ := follows
      simp only [System.step] at taken
      split_ifs at taken with enabled
      obtain ⟨gate, decoded, entered⟩ := Option.bind_eq_some_iff.mp taken
      have behind := sound.enters (which.elim (fun same => ⟨_, same⟩) fun same => ⟨_, same⟩)
        decoded enabled room entered
      have once : EntersOnce unions entries s after := by
        refine entersOnce_of_entered ?_ (sound.masked enabled) behind entered
        rcases which with rfl | rfl
        · rw [masks decoded]
          rfl
        · rw [masks decoded]
          rfl
      exact ⟨once, stays once, fun _ _ isInt => nomatch isInt⟩
  | int vector =>
      obtain ⟨program, handler, rfl⟩ := follows
      obtain ⟨gate, decoded, called⟩ := Option.bind_eq_some_iff.mp taken
      obtain ⟨processor, admitted, entered⟩ := Option.bind_eq_some_iff.mp called
      obtain rfl := masks decoded
      unfold Processor.callGate at admitted
      split_ifs at admitted with admits
      cases admitted
      have behind := sound.enters ⟨handler, rfl⟩ decoded (sound.outside program)
        (fun inner => absurd inner program) entered
      have once : EntersOnce unions entries s after := entersOnce_of_entered rfl
        (fun inKernel => program (sound.inside inKernel)) behind entered
      refine ⟨once, stays once, ?_⟩
      intro user vector isInt
      cases isInt
      rw [user] at admits
      cases handler with
      | systemCall => rfl
      | keyboard => exact absurd (show 3 ≤ 0 from admits) (by decide)
      | clock => exact absurd (show 3 ≤ 0 from admits) (by decide)
  | outside _ => exact enters.elim
  | work _ => exact enters.elim
  | build _ _ _ _ _ _ => exact enters.elim
  | switch _ _ _ => exact enters.elim
  | leave => exact enters.elim

/-- Through a trap gate a system call would leave interrupts enabled in the kernel. -/
theorem trap_gate_reentered (enabled : s.processor.Enabled) (user : level s.processor.cs = 3)
    (isTrap : idt Handler.systemCall.vector = gateEntry 0x8F00 entries.systemCallHandler 3) :
    ∃ after, s.step code entries idt (.int Handler.systemCall.vector) = some after ∧
      after.InKernel ∧ after.processor.Enabled := by
  let gate : Entrance :=
    ⟨entries.systemCallHandler, kernelCs.toUInt32, (3 : Int32).toUInt32.toNat % 4, false⟩
  let behind := s.processor.deliver gate (s.esp0 code) kernelDs
  have decoded : (idt Handler.systemCall.vector).decode = some gate := by
    rw [isTrap]
    exact gateEntry_decode_trap _ _
  have admitted : s.processor.callGate gate (s.esp0 code) kernelDs = some behind := by
    apply if_pos
    rw [user]
    change 3 ≤ (3 : Int32).toUInt32.toNat % 4
    decide
  have unmasked : behind.Enabled := (Processor.enabled_deliver_iff rfl).mpr enabled
  let after : System Process := { s with
    processor := { behind with machine := behind.machine.run Handler.systemCall.enter }
    trapped := Function.update s.trapped s.running
      (some ⟨.systemCall, s.processor, (behind.machine.reg .esp).toNat % 4096⟩) }
  have entered : s.entered entries behind = some after :=
    congrArg (Option.map _) (handlerAt_address entries .systemCall)
  refine ⟨after, ?_, ?_, unmasked⟩
  · simp only [System.step]
    rw [decoded, Option.bind_some, admitted, Option.bind_some, entered]
  · unfold System.InKernel
    dsimp only [after]
    rw [Function.update_self]
    rfl

/-! ## Programs do not notice -/

/-- In every run, when a process leaves the kernel it goes on where it was, with the
registers, the flags and the stack that it had when it entered, but for the result of a
system call. -/
theorem traps_transparent (started : Started unions start)
    (run : Runs unions entries setHandlers idt start s)
    (follows : unions.Follows entries s .leave)
    (taken : s.step code entries (setIdt entries setHandlers idt) .leave = some after) :
    ∃ trap, s.trapped s.running = some trap ∧ Returned trap s.processor after.processor ∧
      after.processor.Enabled ∧ ¬ after.InKernel := by
  have sound := sound_of_run started run
  have behind := sound.step_leave follows taken
  obtain ⟨trap, found, rfl⟩ := Option.map_eq_some_iff.mp taken
  obtain ⟨returned, _⟩ := sound.leave found (follows trap found)
  have enabled : (trap.returned s).Enabled := by
    unfold Processor.Enabled
    rw [returned.eflags]
    exact (sound.proper _ trap found).enabled
  exact ⟨trap, found, returned, enabled, behind.masked enabled⟩

/-! ## A tick of the clock in a program -/

def sampleEntries : EntryPoints where
  keyboardHandler := 0x12000
  clockHandler := 0x12100
  systemCallHandler := 0x12200
  distinct := by decide

def emptyIdt : UInt8 → Gate := fun _ => ⟨0, 0, 0, 0⟩

/-- The process `false` runs a program. -/
def sampleSystem : System Bool where
  processor :=
    { machine :=
        { reg := fun r => if r = .esp then 0x11BFF0 else 7
          mem := fun address => if address = 0x600 then 0x11000 else 0 }
      eip := 0x100000
      cs := 0x23
      ss := 0x2B
      eflags := 0x202 }
  running := false
  saved _ := none
  trapped _ := none

theorem sampleSystem_started : Started sampleUnions sampleSystem where
  held _ _ _ found := nomatch found
  tss := rfl
  outside _ := rfl
  program := by decide
  enabled := by decide

/-- The same, behind the gate of the clock. -/
def sampleTicked : System Bool :=
  { sampleSystem with
    processor :=
      { sampleSystem.behind sampleCode sampleEntries .clock with
        machine := (sampleSystem.behind sampleCode sampleEntries .clock).machine.run
          Handler.clock.enter }
    trapped := Function.update sampleSystem.trapped false
      (some ⟨.clock, sampleSystem.processor, 4076⟩) }

theorem sampleSystem_ticks :
    sampleSystem.step sampleCode sampleEntries (setIdt sampleEntries id emptyIdt)
      (.interrupt 32) = some sampleTicked := by
  have enabled : sampleSystem.processor.Enabled := by decide
  have decoded : (setIdt sampleEntries id emptyIdt 32).decode =
      some (sampleEntries.entrance .clock) := setIdt_entrance .clock
  simp only [System.step]
  rw [if_pos enabled, decoded, Option.bind_some]
  exact congrArg (Option.map _) (handlerAt_address sampleEntries .clock)

theorem sampleSystem_follows :
    sampleUnions.Follows sampleEntries sampleSystem (.interrupt 32) :=
  ⟨Or.inr rfl, fun inner => absurd inner sampleSystem_started.program⟩

theorem kernel_not_reentered_ticked :
    EntersOnce sampleUnions sampleEntries sampleSystem sampleTicked := by
  have run : Runs sampleUnions sampleEntries id emptyIdt sampleSystem sampleSystem := .start
  have enters : (SystemEvent.interrupt 32 : SystemEvent Bool).Enters := trivial
  exact (kernel_not_reentered sampleSystem_started run enters sampleSystem_follows
    sampleSystem_ticks).1

theorem traps_transparent_ticked : ∃ after,
    sampleTicked.step sampleCode sampleEntries (setIdt sampleEntries id emptyIdt) .leave =
        some after ∧
      Returned ⟨.clock, sampleSystem.processor, 4076⟩ sampleTicked.processor
        after.processor := by
  have run : Runs sampleUnions sampleEntries id emptyIdt sampleSystem sampleTicked :=
    .step .start sampleSystem_follows sampleSystem_ticks
  have follows : sampleUnions.Follows sampleEntries sampleTicked .leave := by
    intro trap found
    cases found
    rfl
  obtain ⟨trap, found, returned, _⟩ :=
    traps_transparent sampleSystem_started run follows rfl
  cases found
  exact ⟨_, rfl, returned⟩

end Zeos.Switch
